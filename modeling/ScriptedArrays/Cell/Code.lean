import ScriptedArrays.Cell.Type

/-! Reading the names and codes of cell types. A code is an optional byte order, a letter
and a size; dates and durations carry a unit in brackets. -/

namespace ScriptedArrays
namespace CellType

/-- Types named by a word. -/
def words : List (String × Content) := [
  ("bool", .bool), ("object", .object),
  ("int8", .int true 1), ("int16", .int true 2), ("int32", .int true 4), ("int64", .int true 8),
  ("uint8", .int false 1), ("uint16", .int false 2), ("uint32", .int false 4),
  ("uint64", .int false 8), ("float16", .real .half), ("float32", .real .single),
  ("float64", .real .double), ("complex64", .complex .single), ("complex128", .complex .double),
  ("int", .int true 8), ("float", .real .double), ("complex", .complex .double),
  ("str", .text 0), ("bytes", .bytes 0), ("?", .bool), ("O", .object)]

def precisionOf? : Nat → Option Precision
  | 2 => some .half
  | 4 => some .single
  | 8 => some .double
  | _ => none

/-- The unit in brackets after a date or duration. -/
def unitOf? (s : List Char) : Option String :=
  match s with
  | '[' :: rest => if rest.getLast? = some ']' then some (String.ofList rest.dropLast) else none
  | [] => some "generic"
  | _ => none

def contentOf? (letter : Char) (rest : List Char) : Option Content :=
  match letter, (String.ofList rest).toNat? with
  | 'b', some 1 => some .bool
  | 'i', some n => if n ∈ [1, 2, 4, 8] then some (.int true n) else none
  | 'u', some n => if n ∈ [1, 2, 4, 8] then some (.int false n) else none
  | 'f', some n => (precisionOf? n).map .real
  | 'c', some n => if n ∈ [8, 16] then (precisionOf? (n / 2)).map .complex else none
  | 'U', some n => some (.text n)
  | 'U', none => if rest.isEmpty then some (.text 0) else none
  | 'S', some n => some (.bytes n)
  | 'S', none => if rest.isEmpty then some (.bytes 0) else none
  | 'V', some n => some (.raw n)
  | 'M', none => if rest.take 1 = ['8'] then (unitOf? (rest.drop 1)).map .date else none
  | 'm', none => if rest.take 1 = ['8'] then (unitOf? (rest.drop 1)).map .duration else none
  | _, _ => none

/-- Byte order does not apply to cells of a single byte and to cells without a number in them. -/
def ofContent (big : Bool) (c : Content) : CellType :=
  match c with
  | .bool | .object | .bytes _ | .raw _ | .int _ 1 => native c
  | _ => ⟨c, big⟩

def ofCode? (big : Bool) : List Char → Option CellType
  | letter :: rest => (contentOf? letter rest).map (ofContent big)
  | [] => none

def ofName? (s : String) : Option CellType :=
  match words.find? (·.1 == s) with
  | some (_, c) => some (native c)
  | none =>
    if s.startsWith "datetime64" then (unitOf? (s.toList.drop 10)).map (native ∘ .date)
    else if s.startsWith "timedelta64" then (unitOf? (s.toList.drop 11)).map (native ∘ .duration)
    else match s.toList with
      | '>' :: rest => ofCode? true rest
      | '<' :: rest | '=' :: rest | '|' :: rest => ofCode? false rest
      | rest => ofCode? false rest

end CellType
end ScriptedArrays
