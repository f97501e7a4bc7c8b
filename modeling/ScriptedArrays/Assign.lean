import ScriptedArrays.HostNumber
import ScriptedArrays.Slot

/-! Assignment by the host itself, which writes values into cells without the rules for
scripts. Typed contents and arrays are cast, which loses what the cell cannot hold; other
values are read as numbers and have to fit integer cells; texts are cut to the capacity.
A row takes what is laid out like it, repeated where needed. -/

namespace ScriptedArrays

def daysFromCivil (y : Int) (m d : Nat) : Int :=
  let y := if m ≤ 2 then y - 1 else y
  let era := y.fdiv 400
  let yoe := (y - era * 400).toNat
  let doy := (153 * (if 2 < m then m - 3 else m + 9) + 2) / 5 + d - 1
  era * 146097 + (yoe * 365 + yoe / 4 - yoe / 100 + doy : Nat) - 719468

/-- A calendar date of the form year, month, day. -/
def dateOf? (s : String) : Option Int :=
  match s.splitOn "-" with
  | [y, m, d] => do return daysFromCivil (← y.toNat?) (← m.toNat?) (← d.toNat?)
  | _ => none

namespace CellType

def isText (v : Value) : Bool :=
  match v with
  | .text _ | .bytes _ => true
  | _ => false

/-- The content of a date, duration or raw cell after the host assigns a content to it. A number
counts the units since the first day, or of the duration. -/
def assignSpecial (c : Content) (v : Value) : Except HostFault Value :=
  match c, v with
  | .date _, .text s => match dateOf? s with
    | some d => .ok (.date d)
    | none => .error .value
  | .date _, .date d | .date _, .int d => .ok (.date d)
  | .duration _, .duration s | .duration _, .int s => .ok (.duration s)
  | .date _, .null | .duration _, .null => .ok .null
  | .raw n, .bytes b => .ok (.bytes ((b ++ List.replicate n 0).take n))
  | .raw _, _ => .error .type
  | _, _ => .error .value

/-- A content of a cell cast to the cells of another type, whatever that loses. -/
def castTo (source t : CellType) (v : Value) : Except HostFault Value :=
  match t.content, v.quantity? with
  | .bool, some q => .ok (.bool (!q.isZero))
  | .bool, none =>
    if isText v then (HostNumber.whole v).map fun n => .bool (n != 0) else .ok (.bool true)
  | .int signed bytes, some (.int n) => .ok (.int (Content.wrapped signed bytes n))
  | .int signed bytes, some (.real x) | .int signed bytes, some (.complex x _) =>
    .ok (.int (Content.cut signed bytes x))
  | .int signed bytes, none => (HostNumber.fitting signed bytes v).map .int
  | .real p, none => (HostNumber.real v).map fun x => .number (x.narrow p.format)
  | .complex p, none => (HostNumber.complex v).map fun x =>
    .complex (x.1.narrow p.format) (x.2.narrow p.format)
  | .date _, _ | .duration _, _ | .raw _, _ => assignSpecial t.content v
  | target, _ => (Conversion.castCell source target v).map t.held

/-- The text of a value in bytes. -/
def assignBytes (capacity : Nat) (s : String) : Except HostFault Value :=
  match Latin.encodeAscii? s with
  | some b => .ok (cutBytes capacity b)
  | none => .error .encoding

/-- The content of a cell after the host assigns a value that is no array and no sequence. -/
def assignPlain (w : World) (t : CellType) (v : Value) : Except HostFault Value :=
  match t.content, v.content with
  | .object, _ => .ok v
  | .bool, _ => (w.hostTruth v).map .bool
  | .int signed bytes, .int _ | .int signed bytes, .bool _ =>
    (HostNumber.fitting signed bytes v).map .int
  | .int signed bytes, _ => (HostNumber.wrapping signed bytes v).map .int
  | .real _, .null => .ok (.number .nan)
  | .real p, _ => (HostNumber.real v).map fun x => .number (x.narrow p.format)
  | .complex _, .null => .ok (.complex .nan .nan)
  | .complex p, _ => (HostNumber.complex v).map fun x =>
    .complex (x.1.narrow p.format) (x.2.narrow p.format)
  | .text n, .bytes b =>
    if b.all (·.toNat < 128) then .ok (cutText n (Latin.decode b)) else .error .decoding
  | .text n, _ => (w.display? v).map (cutText n)
  | .bytes n, .bytes b => .ok (cutBytes n b)
  | .bytes n, _ => do assignBytes n (← w.display? v)
  | c, x => assignSpecial c x

/-- The content of a cell after the host assigns an array or a sequence, which is read as
one number only if it has a single cell. -/
def assignParts (w : World) (t : CellType) (alone : Bool) (cells : Option (List Value)) (v : Value) :
    Except HostFault Value :=
  let refused (e : Except HostFault Value) : Except HostFault Value :=
    if alone then e else match e with
      | .ok x => .ok x
      | .error _ => .error .value
  match t.content, cells with
  | .bool, _ => (w.hostTruth v).map .bool
  | .text _, _ | .bytes _, _ => .error .value
  | .complex _, some [x] => assignPlain w t x
  | .complex _, _ => .error .type
  | .int signed bytes, some [x] => refused ((HostNumber.wrapping signed bytes x).map .int)
  | .real p, some [x] => refused ((HostNumber.real x).map fun x => .number (x.narrow p.format))
  | _, _ => refused (.error .type)

/-- The content of a cell after the host assigns a value to it. The cell stands alone if its
array has no axes. -/
def assign (w : World) (t : CellType) (alone : Bool) (v : Value) : Except HostFault Value :=
  if t.isObject then .ok v
  else match v.content with
    | .scalar source x => castTo source t x
    | .array r =>
      let win := w.arrays.get r
      match win.shape, w.cells win with
      | [], [x] => if win.type.isObject then assignPlain w t x else castTo win.type t x
      | _, cells => assignParts w t alone (some cells) v
    | .list _ | .tuple _ | .view _ => assignParts w t alone none v
    | _ => assignPlain w t v

end CellType

/-- An array whose cells the host assigns one by one. -/
def buildArray (type : CellType) (shape : List Nat) (vs : List Value) : Action (Ref .array) := do
  let w ← get
  let t := type.allocated
  newArray t shape (← orFail (vs.mapM (t.assign w shape.isEmpty)))

/-- The room that a value takes as a text. -/
def textRoom (w : World) (v : Value) : Nat :=
  match v.item with
  | .bytes b => b.length
  | _ => (w.display v).length

/-- The type with the room that some values take, if it leaves the capacity of texts open. -/
def CellType.roomy (w : World) (t : CellType) (vs : List Value) : CellType :=
  let room := (vs.map (textRoom w)).foldl max 0
  match t.content with
  | .text 0 => { t with content := .text room }
  | .bytes 0 => { t with content := .bytes room }
  | _ => t

/-- What a cell of a new array of the given type holds after a value is put into it; a
sequence gives a row of cells. -/
def typedValue (type : CellType) (v : Value) : Action Value := do
  let w ← get
  let rows : Action Value := do
    let (shape, values) ← if type.isObject then
        let shape := w.looseShape greatestRank v
        pure (shape, w.looseCells shape v)
      else orFail (w.layout greatestRank v)
    let t := (type.roomy w values).allocated
    return .array (← newArray t shape (← orFail (values.mapM (t.assign w false))))
  match v.content with
  | .list _ | .tuple _ | .view _ => rows
  | .array r => do
    if (w.arrays.get r).shape.isEmpty then
      return type.itemValue (← orFail ((type.roomy w [v]).assign w false v))
    else rows
  | _ => return type.itemValue (← orFail ((type.roomy w [v]).assign w false v))

/-- The window at a position along the first axes. -/
def windowAt (win : Window) : List Int → Except HostFault Window
  | [] => .ok win
  | i :: rest =>
    let k := if i < 0 then i + win.length else i
    if win.shape.isEmpty ∨ k < 0 ∨ (win.length : Int) ≤ k then .error .index
    else windowAt (win.row k.toNat) rest

/-- Assign values to the cells of a window in order; those before a refused one are written. -/
def assignEach (win : Window) (written : List Value) : List Value → Action Unit
  | [] => modify (·.setCells win written)
  | v :: vs => do
    match win.type.assign (← get) false v with
    | .ok x => assignEach win (written ++ [x]) vs
    | .error f => do
      modify (·.setCells win written)
      failHost f

/-- Write cells of one shape to a window, repeated where needed. -/
def writeFitted (win : Window) (shape : List Nat) (cells : List Value) : Action Unit := do
  match Shape.fitted? shape win.shape cells with
  | some cells => modify (·.setCells win cells)
  | none => failHost .value

/-- Assign a sequence to a row. One that is laid out like the row is written as it is read,
and any other is read first. -/
def assignSequence (win : Window) (v : Value) : Action Unit := do
  let w ← get
  let rank := win.shape.length
  let (shape, values) ← if win.type.isObject then
      let shape := w.looseShape rank v
      pure (shape, w.looseCells shape v)
    else orFail (w.layout rank v)
  if shape = win.shape then assignEach win [] values
  else do
    let cells ← orFail (values.mapM (win.type.assign w false))
    writeFitted win shape cells

/-- Assign a value to the cells of a row. -/
def assignRow (win : Window) (v : Value) : Action Unit := do
  let w ← get
  match v.content with
  | .array r => do
    let source := w.arrays.get r
    let cast (x : Value) : Except HostFault Value :=
      if win.type.isObject then .ok x
      else if source.type.isObject then win.type.assign w false x
      else source.type.castTo win.type x
    match Shape.fitted? source.shape win.shape (w.cells source) with
    | none => failHost .value
    | some cells => do writeFitted win win.shape (← orFail (cells.mapM cast))
  | .list _ | .tuple _ | .view _ => assignSequence win v
  | _ => do
    let x ← orFail (win.type.assign w false v)
    writeFitted win [] [x]

/-- Assign a value to what lies at a position of an array: a cell or a row of cells. -/
def assignAt (array : Ref .array) (position : List Int) (v : Value) : Action Unit := do
  let whole ← look (·.arrays.get array)
  let win ← orFail (windowAt whole position)
  let v ← keep v
  if win.shape.isEmpty then do
    let x ← orFail (win.type.assign (← get) whole.shape.isEmpty v)
    modify (·.setCells win [x])
  else assignRow win v

end ScriptedArrays
