import ScriptedArrays.Cell.Cast

/-! Joint types: the type that takes the cells of two. Integers of both signs go up to a
wider signed one, or to doubles where there is none, and numbers beside texts are written
as text. -/

namespace ScriptedArrays
namespace Content

def isNumeric (c : Content) : Bool := c.rank?.isSome

def isInteger : Content → Bool
  | bool | int _ _ => true
  | _ => false

def isComplex : Content → Bool
  | complex _ => true
  | _ => false

/-- The narrowest floating point width that takes the numbers of a type. -/
def needed : Content → Precision
  | int _ 1 | bool => .half
  | int _ 2 => .single
  | int _ _ => .double
  | real p | complex p => p
  | _ => .half

/-- The narrowest width that takes two numeric types, at least one of which is no integer. -/
def commonPrecision (c d : Content) : Precision :=
  match c.needed, d.needed with
  | .double, _ | _, .double => .double
  | .single, _ | _, .single => .single
  | _, _ => .half

theorem commonPrecision_comm (c d : Content) : c.commonPrecision d = d.commonPrecision c := by
  unfold commonPrecision
  cases c.needed <;> cases d.needed <;> rfl

/-- The type for an unsigned and a signed integer of the given widths. -/
def mixedInteger (unsigned signed : Nat) : Content :=
  if unsigned < signed then int true signed
  else if unsigned < 8 then int true (2 * unsigned)
  else real .double

/-- The type that takes the cells of two. -/
def joint (c d : Content) : Content :=
  match c, d with
  | bool, bool => bool
  | bool, int s n | int s n, bool => int s n
  | int true m, int true n => int true (max m n)
  | int false m, int false n => int false (max m n)
  | int true m, int false n | int false n, int true m => mixedInteger n m
  | bytes m, bytes n => bytes (max m n)
  | c, d =>
    if c.isNumeric && d.isNumeric then
      if c.isComplex || d.isComplex then complex (c.commonPrecision d)
      else real (c.commonPrecision d)
    else match c.textWidth?, d.textWidth? with
      | some m, some n => match c, d with
        | text _, _ | _, text _ => text (max m n)
        | _, _ => bytes (max m n)
      | _, _ => if c = d then c else object

/-- The type of an integer as a cell of an array: the first that has room for it. -/
def ofInt (i : Int) : Content :=
  if -(twoTo 63 : Int) ≤ i ∧ i < twoTo 63 then int true 8
  else if 0 ≤ i ∧ i < twoTo 64 then int false 8
  else object

end Content
end ScriptedArrays
