import ScriptedArrays.Number.Double
import ScriptedArrays.Text.Blank
import ScriptedArrays.Text.DecimalDigit

/-! Numbers read from text. A numeral is a decimal with optional sign, fraction and
exponent, a word for infinity or NaN, or a hexadecimal integer. Digits of every script
count, and single underscores may stand between digits. -/

namespace ScriptedArrays
namespace Numeral

def isDigit (c : Char) : Bool := decide ('0' ≤ c) && decide (c ≤ '9')

def digit (c : Char) : Nat := c.toNat - '0'.toNat

/-- Write the decimal digits of all scripts with the ASCII ones. -/
def plainDigit (c : Char) : Char :=
  match digitValue? c with
  | some d => Nat.digitChar d
  | none => c

/-- Remove underscores, each of which has to stand between two digits. -/
def joinDigits (previous : Char) : List Char → Option (List Char)
  | [] => if previous = '_' then none else some []
  | c :: rest =>
    if c = '_' then (if isDigit previous then joinDigits c rest else none)
    else if previous = '_' && !isDigit c then none
    else (joinDigits c rest).map (c :: ·)

def natOf (digits : List Char) : Nat := digits.foldl (fun n c => 10 * n + digit c) 0

/-- Split a sign from the front. -/
def sign : List Char → Bool × List Char
  | '-' :: rest => (true, rest)
  | '+' :: rest => (false, rest)
  | s => (false, s)

/-- An exponent part: a mark, an optional sign and digits, or nothing at all. -/
def exponent? : List Char → Option Int
  | [] => some 0
  | c :: rest =>
    let (negative, digits) := sign rest
    if (c = 'e' || c = 'E') && !digits.isEmpty && digits.all isDigit then
      some (if negative then -(natOf digits : Int) else natOf digits)
    else none

/-- The fraction after a point and what follows it. -/
def fraction : List Char → List Char × List Char
  | '.' :: rest => (rest.takeWhile isDigit, rest.dropWhile isDigit)
  | s => ([], s)

/-- The number `digits * 10 ^ e`, rounded once. The bounds keep hopeless exponents from
being computed. -/
def scaled (negative : Bool) (digits : Nat) (e : Int) : Double :=
  let size : Int := (toString digits).length
  if digits = 0 ∨ e + size < -400 then .ofUnits negative 0 1
  else if 400 < e + size then .infinite negative
  else .ofUnits negative (digits * tenTo e.toNat * Double.one) (tenTo (-e).toNat)

/-- An unsigned decimal: digits with an optional fraction, at least one digit in all, and
an optional exponent. -/
def decimal? (negative : Bool) (s : List Char) : Option Double :=
  let whole := s.takeWhile isDigit
  let (places, rest) := fraction (s.dropWhile isDigit)
  if whole.isEmpty && places.isEmpty then none
  else (exponent? rest).map fun e => scaled negative (natOf (whole ++ places)) (e - places.length)

/-- The words for values that are no decimals, in any case. -/
def word? (negative : Bool) (s : List Char) : Option Double :=
  let lower := s.map Char.toLower
  if lower = "inf".toList ∨ lower = "infinity".toList then some (.infinite negative)
  else if lower = "nan".toList then some .nan
  else none

def float? (s : List Char) : Option Double := do
  let (negative, rest) := sign (← joinDigits ' ' (s.map plainDigit))
  (word? negative rest).or (decimal? negative rest)

def hexDigit? (c : Char) : Option Nat :=
  if isDigit c then some (digit c)
  else if 'a' ≤ c ∧ c ≤ 'f' then some (c.toNat - 'a'.toNat + 10)
  else if 'A' ≤ c ∧ c ≤ 'F' then some (c.toNat - 'A'.toNat + 10)
  else none

/-- Hexadecimal digits after the value `n` of those before; an underscore has to stand
before a digit. -/
def hexFrom (n : Nat) : List Char → Option Nat
  | [] => some n
  | ['_'] => none
  | '_' :: c :: rest => match hexDigit? c with
    | some d => hexFrom (16 * n + d) rest
    | none => none
  | c :: rest => match hexDigit? c with
    | some d => hexFrom (16 * n + d) rest
    | none => none

/-- The digits after `0x`, which may be set off by an underscore. -/
def hex? (s : List Char) : Option Nat :=
  match s.map plainDigit with
  | [] => none
  | s => hexFrom 0 s

/-- What a text reads as: a number, or a hexadecimal integer beyond all numbers. -/
inductive Reading
  | number (x : Double)
  | tooLarge

def ofHex (s : List Char) : Reading :=
  match hex? s with
  | none => .number .nan
  | some n => if (Double.ofInt n).isFinite then .number (Double.ofInt n) else .tooLarge

/-- The number of a text without surrounding white space. A text that is no numeral is
NaN and the empty one is zero. -/
def readStripped : List Char → Reading
  | [] => .number .zero
  | '0' :: 'x' :: s => ofHex s
  | '0' :: 'X' :: s => ofHex s
  | s => .number ((float? s).getD .nan)

def read (s : String) : Reading := readStripped (strip s.toList)

/-- The decimal number of a text, which has to be one. -/
def real? (s : String) : Option Double := float? (strip s.toList)

/-- The integer of a text: an optional sign and digits, of which there may not be too many. -/
def whole? (s : String) : Option Int := do
  let (negative, digits) := sign (← joinDigits ' ' ((strip s.toList).map plainDigit))
  if digits.isEmpty || !digits.all isDigit || digitLimit < digits.length then none
  else some (Double.signed negative (natOf digits))

end Numeral
end ScriptedArrays
