import ScriptedArrays.Cell.Joint
import ScriptedArrays.Display
import ScriptedArrays.Number.ComplexNumeral
import ScriptedArrays.Primitive
import ScriptedArrays.Text.Latin

/-! Numbers as the host reads them from values, and how they are cut to the integers of a
cell. Texts have to be numerals; what is no number and no text is refused. -/

namespace ScriptedArrays

namespace Content

/-- An integer counted around the range of a cell. -/
def wrapped (signed : Bool) (bytes : Nat) (n : Int) : Int :=
  if signed then n.bmod (twoTo (8 * bytes)) else n.emod (twoTo (8 * bytes))

/-- An integer lies in the range of a cell. -/
def inRange (signed : Bool) (bytes : Nat) (n : Int) : Bool :=
  decide (least signed bytes ≤ n ∧ n ≤ greatest signed bytes)

/-- The bytes of the machine word in which a number is cut to an integer. -/
def wordBytes (signed : Bool) (bytes : Nat) : Nat :=
  if bytes < 4 || (signed && bytes == 4) then 4 else 8

/-- A number cut to the integers of a cell. A word that cannot hold it gives its least
integer. -/
def cut (signed : Bool) (bytes : Nat) (x : Double) : Int :=
  let word := wordBytes signed bytes
  let lowest := wrapped signed bytes (least true word)
  match x.truncate? with
  | some n =>
    if inRange true word n || inRange signed bytes n then wrapped signed bytes n else lowest
  | none => lowest

end Content

namespace HostNumber

def textOrFail {α : Type} : Option α → Except HostFault α
  | some a => .ok a
  | none => .error .value

/-- The integer of a value, cut toward zero. -/
def whole (v : Value) : Except HostFault Int :=
  match v.item with
  | .text s => textOrFail (Numeral.whole? s)
  | .bytes b => textOrFail (Numeral.whole? (Latin.decode b))
  | v => match v.quantity? with
    | some (.int i) => .ok i
    | some (.real x) => match x.truncate? with
      | some i => .ok i
      | none => .error (if x.isNaN then .value else .overflow)
    | _ => .error .type

/-- The real number of a value. -/
def real (v : Value) : Except HostFault Double :=
  match v.item with
  | .text s => textOrFail (Numeral.real? s)
  | .bytes b => textOrFail (Numeral.real? (Latin.decode b))
  | v => match v.quantity? with
    | some (.int i) => Double.ofInt? i
    | some (.real x) => .ok x
    | _ => .error .type

/-- The complex number of a value. -/
def complex (v : Value) : Except HostFault (Double × Double) :=
  match v.item with
  | .text s => textOrFail (Numeral.complex? s)
  | .bytes b => textOrFail (Numeral.complex? (Latin.decode b))
  | v => match v.quantity? with
    | some (.int i) => (Double.ofInt? i).map fun x => (x, .zero)
    | some (.real x) => .ok (x, .zero)
    | some (.complex re im) => .ok (re, im)
    | none => .error .type

/-- The integer of a value for a cell that it need not fit, as long as it fits the widest
integers. -/
def wrapping (signed : Bool) (bytes : Nat) (v : Value) : Except HostFault Int := do
  let n ← whole v
  if Content.inRange true 8 n || (!signed && 4 ≤ bytes && Content.inRange false 8 n) then
    .ok (Content.wrapped signed bytes n)
  else .error .overflow

/-- The integer of a value for a cell that has to hold it. -/
def fitting (signed : Bool) (bytes : Nat) (v : Value) : Except HostFault Int := do
  let n ← whole v
  if Content.inRange signed bytes n then .ok n else .error .overflow

end HostNumber
end ScriptedArrays
