/-! White space: the separators and the control characters that count as blank. -/

namespace ScriptedArrays

/-- Ranges of code points that are white space. -/
def blankRanges : List (Nat × Nat) := [
  (0x9, 0xd), (0x1c, 0x20), (0x85, 0x85), (0xa0, 0xa0), (0x1680, 0x1680), (0x2000, 0x200a),
  (0x2028, 0x2029), (0x202f, 0x202f), (0x205f, 0x205f), (0x3000, 0x3000)]

def isBlank (c : Char) : Bool := blankRanges.any fun r => r.1 ≤ c.toNat && c.toNat ≤ r.2

/-- Remove white space at both ends. -/
def strip (s : List Char) : List Char :=
  ((s.dropWhile isBlank).reverse.dropWhile isBlank).reverse

def stripText (s : String) : String := String.ofList (strip s.toList)

@[simp] theorem strip_nil : strip [] = [] := rfl

end ScriptedArrays
