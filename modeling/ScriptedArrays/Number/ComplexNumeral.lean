import ScriptedArrays.Number.Numeral

/-! Complex numbers read from text: a real part, an imaginary part marked by `j`, or both,
with or without parentheses around them. -/

namespace ScriptedArrays
namespace Numeral

/-- The longest numeral at the front, and what follows it. -/
def longest? (s : List Char) : Option (Double × List Char) :=
  (List.range (s.length + 1)).reverse.findSome? fun k =>
    (float? (s.take k)).map fun x => (x, s.drop k)

def isUnit : List Char → Bool
  | [c] => c = 'j' || c = 'J'
  | _ => false

/-- The imaginary part after a real one. A sign alone stands for one unit. -/
def imaginary? (s : List Char) : Option Double :=
  match longest? s with
  | some (y, rest) => if isUnit rest then some y else none
  | none => match s with
    | '+' :: rest => if isUnit rest then some (Double.ofInt 1) else none
    | '-' :: rest => if isUnit rest then some (Double.ofInt (-1)) else none
    | rest => if isUnit rest then some (Double.ofInt 1) else none

/-- Both parts of a number without blanks and parentheses. -/
def parts? (s : List Char) : Option (Double × Double) :=
  match longest? s with
  | some (x, []) => some (x, .zero)
  | some (x, '+' :: rest) => (imaginary? ('+' :: rest)).map fun y => (x, y)
  | some (x, '-' :: rest) => (imaginary? ('-' :: rest)).map fun y => (x, y)
  | _ => (imaginary? s).map fun y => (.zero, y)

/-- The complex number of a text, which has to be one. -/
def complex? (s : String) : Option (Double × Double) := do
  let s ← joinDigits ' ' ((strip s.toList).map plainDigit)
  match s with
  | '(' :: rest => match rest.getLast? with
    | some ')' => parts? (strip rest.dropLast)
    | _ => none
  | s => parts? s

end Numeral
end ScriptedArrays
