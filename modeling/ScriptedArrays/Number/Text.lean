import ScriptedArrays.Number.Shortest

/-! Texts of numbers. The digits come from `Shortest`; this module places the point and
the exponent. -/

namespace ScriptedArrays
namespace NumberText

/-- How a number is laid out: the exponents of the value's leading digit that are written
with a plain point, and whether a whole number keeps a zero after the point. -/
structure Layout where
  plainFrom : Int
  plainBelow : Int
  keepPoint : Bool

/-- Values from `10^-4` up to `10^16` are written plainly and whole ones end in `.0`. -/
def valueLayout : Layout := ⟨-4, 16, true⟩

/-- The parts of a complex number drop the point of a whole part. -/
def partLayout : Layout := ⟨-4, 16, false⟩

def zeros (n : Nat) : String := String.ofList (List.replicate n '0')

/-- An exponent has a sign and at least `width` digits. -/
def exponent (width : Nat) (e : Int) : String :=
  let digits := toString e.natAbs
  (if e < 0 then "e-" else "e+") ++ zeros (width - digits.length) ++ digits

def plain (keepPoint : Bool) (d : Decimal) : String :=
  let text := d.text
  if 0 ≤ d.exponent then text ++ zeros d.exponent.toNat ++ (if keepPoint then ".0" else "")
  else
    let places := (-d.exponent).toNat
    let padded := zeros (places + 1 - text.length) ++ text
    String.ofList (padded.toList.take (padded.length - places)) ++ "." ++
      String.ofList (padded.toList.drop (padded.length - places))

def scientific (d : Decimal) : String :=
  let text := d.text.toList
  String.ofList (text.take 1) ++
    (if text.length = 1 then "" else "." ++ String.ofList (text.drop 1)) ++
    exponent 2 d.leading

/-- A positive or zero magnitude. -/
def magnitude (layout : Layout) (f : Format) (n : Nat) : String :=
  if n = 0 then (if layout.keepPoint then "0.0" else "0")
  else
    let d := Shortest.ofUnits f n
    let e := Shortest.leading n
    if layout.plainFrom ≤ e ∧ e < layout.plainBelow then plain layout.keepPoint d
    else scientific d

def signText (negative : Bool) : String := if negative then "-" else ""

/-- The text of a number of the given format. -/
def render (layout : Layout) (f : Format) : Double → String
  | .nan => "nan"
  | .infinite s => signText s ++ "inf"
  | .finite s n _ => signText s ++ magnitude layout f n

def ofDouble (x : Double) : String := render valueLayout .double x

/-- A complex number; one on the positive imaginary axis is written without its real part. -/
def ofComplex (f : Format) (re im : Double) : String :=
  let part := render partLayout f
  if re.isZero && !re.isNegative then part im ++ "j"
  else "(" ++ part re ++ (if im.isNegative then "" else "+") ++ part im ++ "j)"

end NumberText
end ScriptedArrays
