import ScriptedArrays.Text.Printable

/-! Quoted texts. A text is written between single quotes, or between double quotes if
it holds a single quote and no double one; a backslash, the quote, line ends, tabs and
characters that are not printable are escaped. -/

namespace ScriptedArrays
namespace Quoted

def hexDigit (n : Nat) : Char := (Nat.digitChar n)

/-- The last `width` hexadecimal digits of `n`. -/
def hex : (width : Nat) → Nat → List Char
  | 0, _ => []
  | width + 1, n => hex width (n / 16) ++ [hexDigit (n % 16)]

@[simp] theorem length_hex (width n : Nat) : (hex width n).length = width := by
  induction width generalizing n with
  | zero => rfl
  | succ width ih => simp [hex, ih]

/-- The quote that surrounds a text. -/
def quoteFor (s : List Char) : Char := if s.contains '\'' && !s.contains '"' then '"' else '\''

def escapeCode (n : Nat) : List Char :=
  if n ≤ 0xff then '\\' :: 'x' :: hex 2 n
  else if n ≤ 0xffff then '\\' :: 'u' :: hex 4 n
  else '\\' :: 'U' :: hex 8 n

def escapeChar (printable : Char → Bool) (quote c : Char) : List Char :=
  if c = '\\' || c = quote then ['\\', c]
  else if c = '\n' then ['\\', 'n']
  else if c = '\r' then ['\\', 'r']
  else if c = '\t' then ['\\', 't']
  else if printable c then [c]
  else escapeCode c.toNat

def quoteWith (printable : Char → Bool) (s : List Char) : List Char :=
  let quote := quoteFor s
  quote :: s.flatMap (escapeChar printable quote) ++ [quote]

def text (s : String) : String := String.ofList (quoteWith isPrintable s.toList)

/-- Bytes are quoted as the characters they number, all beyond ASCII escaped. -/
def bytes (b : List UInt8) : String :=
  String.ofList ('b' :: quoteWith (fun c => 0x20 ≤ c.toNat && c.toNat < 0x7f)
    (b.map fun x => Char.ofNat x.toNat))

end Quoted
end ScriptedArrays
