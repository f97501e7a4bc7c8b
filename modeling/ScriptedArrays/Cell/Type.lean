import ScriptedArrays.Number.Double

/-! Types of array cells. A type says what its cells hold and in which byte order they
are stored; the order changes the name of a type and nothing else. -/

namespace ScriptedArrays

/-- Widths of floating point cells. -/
inductive Precision
  | half | single | double
  deriving DecidableEq, Repr

namespace Precision

def format : Precision → Format
  | half => .half
  | single => .single
  | double => .double

def bytes : Precision → Nat
  | half => 2
  | single => 4
  | double => 8

end Precision

/-- What one cell holds. Integers have a width in bytes, texts a number of characters. -/
inductive Content
  | bool
  | int (signed : Bool) (bytes : Nat)
  | real (p : Precision)
  | complex (p : Precision)
  | text (capacity : Nat)
  | bytes (capacity : Nat)
  | object
  | date (unit : String)
  | duration (unit : String)
  | raw (size : Nat)
  deriving DecidableEq, Repr

structure CellType where
  content : Content
  /-- The bytes of a cell are stored with the most significant one first. -/
  bigEndian : Bool
  deriving DecidableEq, Repr

namespace Content

/-- Bytes per cell. -/
def size : Content → Nat
  | bool => 1
  | int _ n => n
  | real p => p.bytes
  | complex p => 2 * p.bytes
  | text n => 4 * n
  | bytes n => n
  | object | date _ | duration _ => 8
  | raw n => n

/-- The letter that classifies a type. -/
def kind : Content → Char
  | bool => 'b'
  | int true _ => 'i'
  | int false _ => 'u'
  | real _ => 'f'
  | complex _ => 'c'
  | text _ => 'U'
  | bytes _ => 'S'
  | object => 'O'
  | date _ => 'M'
  | duration _ => 'm'
  | raw _ => 'V'

/-- The family of cell values, apart from the capacity of texts. -/
def family : Content → String
  | bool => "bool"
  | int true n => "int" ++ toString (8 * n)
  | int false n => "uint" ++ toString (8 * n)
  | real p => "float" ++ toString (8 * p.bytes)
  | complex p => "complex" ++ toString (16 * p.bytes)
  | text _ => "str"
  | bytes _ => "bytes"
  | object => "object"
  | date _ => "datetime64"
  | duration _ => "timedelta64"
  | raw _ => "void"

/-- The bounds of an integer cell. -/
def least (signed : Bool) (bytes : Nat) : Int := if signed then -(twoTo (8 * bytes - 1) : Int) else 0

def greatest (signed : Bool) (bytes : Nat) : Int :=
  if signed then (twoTo (8 * bytes - 1) : Int) - 1 else (twoTo (8 * bytes) : Int) - 1

end Content

namespace CellType

def native (c : Content) : CellType := ⟨c, false⟩

instance : Inhabited CellType := ⟨native .bool⟩

def kind (t : CellType) : Char := t.content.kind

def isObject (t : CellType) : Bool := t.content == .object

/-- The name of a type: the family for ordinary types, and a code with byte order,
letter and size where the family alone does not tell the type. -/
def name (t : CellType) : String :=
  let order := if t.bigEndian then ">" else "<"
  match t.content with
  | .text n => order ++ "U" ++ toString n
  | .bytes n => "|S" ++ toString n
  | .raw n => "|V" ++ toString n
  | .date u => if t.bigEndian then ">M8[" ++ u ++ "]" else "datetime64[" ++ u ++ "]"
  | .duration u => if t.bigEndian then ">m8[" ++ u ++ "]" else "timedelta64[" ++ u ++ "]"
  | c => if t.bigEndian then ">" ++ String.singleton c.kind ++ toString c.size else c.family

/-- The type of the cells of a new array, which have room for one character at least. -/
def allocated (t : CellType) : CellType :=
  match t.content with
  | .text 0 => { t with content := .text 1 }
  | .bytes 0 => { t with content := .bytes 1 }
  | _ => t

/-- The element type of the standard types, whose names are left out of an array's text. -/
def isStandard (t : CellType) : Bool :=
  !t.bigEndian && match t.content with
    | .bool | .int true 8 | .real .double | .complex .double => true
    | _ => false

/-- The name as part of an array's text; names that are no plain word are quoted. -/
def shortName (t : CellType) : String :=
  match t.content with
  | .text _ | .bytes _ | .raw _ | .date _ | .duration _ => "'" ++ t.name ++ "'"
  | _ => if t.bigEndian then "'" ++ t.name ++ "'" else t.name

end CellType

/-- The type of one slot of an array: the cell type and the shape of the rows, empty
where a slot is a single cell. -/
structure SlotType where
  cell : CellType
  shape : List Nat
  deriving DecidableEq, Repr

/-- The number of cells of an array of the given shape. -/
def cellCount : List Nat → Nat
  | [] => 1
  | n :: shape => n * cellCount shape

@[simp] theorem cellCount_nil : cellCount [] = 1 := rfl

@[simp] theorem cellCount_cons (n : Nat) (shape : List Nat) :
    cellCount (n :: shape) = n * cellCount shape := rfl

namespace SlotType

instance : Inhabited SlotType := ⟨⟨default, []⟩⟩

def isNested (t : SlotType) : Bool := !t.shape.isEmpty

def name (t : SlotType) : String :=
  t.cell.name ++ String.join (t.shape.map fun n => "[" ++ toString n ++ "]")

end SlotType
end ScriptedArrays
