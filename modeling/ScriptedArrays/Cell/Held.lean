import ScriptedArrays.Value

/-! What cells hold. A text cell has room for a number of characters and does not tell
trailing NULs from none. A new cell is zero, or empty. -/

namespace ScriptedArrays

def dropNulBytes (b : List UInt8) : List UInt8 := (b.reverse.dropWhile (· == 0)).reverse

def dropNuls (s : String) : String :=
  String.ofList ((s.toList.reverse.dropWhile (·.toNat == 0)).reverse)

namespace CellType

/-- What a cell holds after a converted value is written to it: texts lose trailing NULs. -/
def stored (t : CellType) (v : Value) : Value :=
  if t.isObject then v
  else match v.item with
    | .text s => .text (dropNuls s)
    | .bytes b => .bytes (dropNulBytes b)
    | v => v

/-- A text cut to a capacity, without trailing NULs. -/
def cutText (capacity : Nat) (s : String) : Value :=
  .text (dropNuls (String.ofList (s.toList.take capacity)))

def cutBytes (capacity : Nat) (b : List UInt8) : Value := .bytes (dropNulBytes (b.take capacity))

/-- What a cell keeps of a content that is put into it. -/
def held (t : CellType) (v : Value) : Value :=
  match t.content, v with
  | .text n, .text s => cutText n s
  | .bytes n, .bytes b => cutBytes n b
  | _, v => v

/-- What the cells of a new array hold. -/
def zero (t : CellType) : Value :=
  match t.content with
  | .bool => .bool false
  | .int .. => .int 0
  | .real _ => .number .zero
  | .complex _ => .complex .zero .zero
  | .text _ => .text ""
  | .bytes _ => .bytes []
  | .object => .int 0
  | .date _ => .date 0
  | .duration _ => .duration 0
  | .raw n => .bytes (List.replicate n 0)

/-- The cells of a new array of the given size, the first of which are given. -/
def filled (t : CellType) (count : Nat) (vs : List Value) : List Value :=
  vs.map t.held ++ List.replicate (count - vs.length) t.zero

theorem le_length_filled (t : CellType) (count : Nat) (vs : List Value) :
    count ≤ (t.filled count vs).length := by
  simp only [filled, List.length_append, List.length_map, List.length_replicate]
  omega

theorem filled_of_length {t : CellType} {count : Nat} {vs : List Value} (h : vs.length = count) :
    t.filled count vs = vs.map t.held := by
  simp [filled, h]

end CellType
end ScriptedArrays
