import ScriptedArrays.Cell.Type
import ScriptedArrays.Number.Quantity

/-! Values that scripts and hosts exchange. Primitive values are held directly; whatever
has an identity is a reference into a store of the world, and the kind of the reference
says which store that is. -/

namespace ScriptedArrays

/-- The kinds of objects with an identity. -/
inductive Species
  | list | tuple | record | buffer | array | function | view | box | scope | presenter
  deriving DecidableEq, Repr

structure Ref (s : Species) where
  index : Nat
  deriving DecidableEq, Repr

instance {s : Species} : Inhabited (Ref s) := ⟨⟨0⟩⟩

/-- Protocol keys of objects. -/
inductive Symbol
  | isConcatSpreadable | iterator
  deriving DecidableEq, Repr

def Symbol.name : Symbol → String
  | isConcatSpreadable => "Symbol.isConcatSpreadable"
  | iterator => "Symbol.iterator"

inductive Value
  | undefined
  /-- The answer of an own lookup that misses. -/
  | missing
  | null
  | bool (b : Bool)
  | int (i : Int)
  | number (x : Double)
  | complex (re im : Double)
  | text (s : String)
  | bytes (b : List UInt8)
  /-- A cell content that still carries its cell type. -/
  | scalar (type : CellType) (item : Value)
  /-- Days since the first of January 1970. -/
  | date (days : Int)
  | duration (seconds : Int)
  | symbol (s : Symbol)
  | cellType (t : CellType)
  | slotType (t : SlotType)
  | list (r : Ref .list)
  | tuple (r : Ref .tuple)
  | record (r : Ref .record)
  | array (r : Ref .array)
  | function (r : Ref .function)
  | view (r : Ref .view)
  | box (r : Ref .box)
  | scope (r : Ref .scope)
  /-- A method of a host value, bound to its owner. -/
  | method (owner : Value) (name : String)
  /-- A value that the host keeps as an object of its own, apart from others like it. -/
  | kept (id : Nat) (value : Value)
  /-- A value that an owner holds ready under a name, the same object whenever it is asked
  for. -/
  | member (owner : Value) (name : String) (value : Value)
  deriving DecidableEq

namespace Value

instance : Inhabited Value := ⟨.undefined⟩

/-- A value without regard to which object it is. -/
def content : Value → Value
  | kept _ v | member _ _ v => v
  | v => v

/-- A cell content without its cell type. -/
def item (v : Value) : Value :=
  match v.content with
  | scalar _ x => x
  | x => x

/-- A cell content without its cell type; any other value stays the object that it is. -/
def opened (v : Value) : Value :=
  match v.content with
  | scalar _ x => x
  | _ => v

/-- Standard widths of numbers, texts and bytes are plain host values that merely carry a
type, so that they count as numbers, texts and bytes. -/
def plain (v : Value) : Value :=
  match v.content with
  | scalar ⟨.real .double, _⟩ x => x
  | scalar ⟨.complex .double, _⟩ x => x
  | scalar ⟨.text _, _⟩ x => x
  | scalar ⟨.bytes _, _⟩ x => x
  | x => x

/-- How scripts test a value: the empty ones are false, and so is NaN. -/
def truth (v : Value) : Bool :=
  match v.plain with
  | undefined | null => false
  | bool b => b
  | int i => i != 0
  | number x => !(x.isZero || x.isNaN)
  | text s => s != ""
  | _ => true

/-- The outcome of a test as a value. A typed zero is told by its comparison with zero,
whose outcome is typed itself. -/
def tested (v : Value) : Value :=
  match v.content with
  | scalar ⟨.real .double, _⟩ (number x) => if x.isZero then scalar (.native .bool) (bool false)
    else bool v.truth
  | _ => bool v.truth

def quantity? (v : Value) : Option Quantity :=
  match v.item with
  | bool b => some (.int (if b then 1 else 0))
  | int i => some (.int i)
  | number x => some (.real x)
  | complex re im => some (.complex re im)
  | _ => none

/-- Attributes that a function holds ready, in contrast to methods bound when asked for. -/
def isAttribute (owner : Value) (name : String) : Bool :=
  match owner with
  | function _ => ["native_impl", "make_array", "predicate"].contains name
  | _ => false

/-- The host keeps a single object for all values like this one, or the value is an object
by itself. -/
def isObject : Value → Bool
  | int i => decide (-5 ≤ i ∧ i ≤ 256)
  | text s => match s.toList with
    | [] => true
    | [c] => c.toNat < 256
    | _ => false
  | bytes b => b.length ≤ 1
  | number _ | complex .. | date _ | duration _ | slotType _ => false
  | scalar t _ => t.content == .bool
  | cellType t => match t.content with
    | .text _ | .bytes _ | .raw _ | .date _ | .duration _ => false
    | _ => !t.bigEndian
  | method owner name => owner.isAttribute name
  | _ => true

/-- A value that an owner holds ready under a name. -/
def heldBy (v owner : Value) (name : String) : Value :=
  if v.isObject then v else member owner name v

/-- A value that the library itself holds ready. -/
def literal (v : Value) : Value := v.heldBy null ""

/-- The very same object. -/
def same (a b : Value) : Bool := a.isObject && a == b

/-- The value with other views in the place of its own. -/
def rename (f : Ref .view → Ref .view) : Value → Value
  | view r => view (f r)
  | scalar t x => scalar t (x.rename f)
  | method owner name => method (owner.rename f) name
  | kept id v => kept id (v.rename f)
  | member owner name v => member (owner.rename f) name (v.rename f)
  | v => v

end Value

/-- Entries under names, in the order of their first assignment. -/
abbrev Entries := List (String × Value)

namespace Entries

def get? (e : Entries) (name : String) : Option Value := (e.find? (·.1 == name)).map (·.2)

def has (e : Entries) (name : String) : Bool := e.any (·.1 == name)

def set : Entries → String → Value → Entries
  | [], name, v => [(name, v)]
  | (k, old) :: rest, name, v => if k = name then (k, v) :: rest else (k, old) :: set rest name v

def getD (e : Entries) (name : String) (v : Value) : Value := (e.get? name).getD v

theorem has_eq_isSome (e : Entries) (name : String) : e.has name = (e.get? name).isSome := by
  induction e with
  | nil => rfl
  | cons p rest ih =>
    simp only [has, get?] at ih
    by_cases hp : p.1 = name <;> simp [has, get?, hp, ih]

@[simp] theorem get?_set_self (e : Entries) (name : String) (v : Value) :
    (e.set name v).get? name = some v := by
  induction e with
  | nil => simp [set, get?]
  | cons p rest ih =>
    obtain ⟨k, old⟩ := p
    by_cases hk : k = name
    · simp [set, get?, hk]
    · simp only [get?] at ih
      simp [set, get?, hk, ih]

theorem get?_set_of_ne (e : Entries) {name other : String} (v : Value) (h : other ≠ name) :
    (e.set name v).get? other = e.get? other := by
  induction e with
  | nil => simp [set, get?, h.symm]
  | cons p rest ih =>
    obtain ⟨k, old⟩ := p
    simp only [get?] at ih
    by_cases hk : k = name
    · subst hk
      simp [set, get?, h.symm]
    · by_cases ho : k = other
      · subst ho
        simp [set, get?, hk]
      · simp [set, get?, hk, ho, ih]

/-- The names in order. -/
def names (e : Entries) : List String := e.map (·.1)

end Entries
end ScriptedArrays
