import ScriptedArrays.Number.Text
import ScriptedArrays.Text.Quoted
import ScriptedArrays.Value

/-! The cells of an array in columns. All numbers of an array share one form: integers
are aligned on the right, floating point numbers on the point, and these change to
exponents together when the magnitudes are far apart. -/

namespace ScriptedArrays
namespace Column

def padLeft (width : Nat) (s : String) : String :=
  String.ofList (List.replicate (width - s.length) ' ') ++ s

def padRight (width : Nat) (s : String) : String :=
  s ++ String.ofList (List.replicate (width - s.length) ' ')

/-- The most digits after the point. -/
def places : Nat := 8

/-- The parts of a number around its point. -/
structure Parts where
  whole : String
  fraction : String
  exponent : Int

def sign (plus negative : Bool) : String := if negative then "-" else if plus then "+" else ""

/-- A magnitude with a plain point: enough digits to tell the number, at most eight places,
and all digits before the point if `full`. -/
def fixedParts (f : Format) (full : Bool) (n : Nat) : Parts :=
  if n = 0 then ⟨"0", "", 0⟩
  else
    let atLeast := if full then some (min 0 (Shortest.leading n)) else none
    let d := Shortest.decimal f n atLeast (some (-(places : Int)))
    match (NumberText.plain false d).splitOn "." with
    | [whole, fraction] => ⟨whole, fraction, 0⟩
    | _ => ⟨NumberText.plain false d, "", 0⟩

/-- A magnitude with one digit before the point. With `exact` places the digits are those of
the value, otherwise as many as tell the number, at most eight. -/
def scientificParts (f : Format) (exact : Option Nat) (n : Nat) : Parts :=
  if n = 0 then ⟨"0", "", 0⟩
  else
    let most : Int := exact.getD places
    let atLeast := exact.map fun p => Shortest.leading n - (p : Int)
    let d := Shortest.decimal f n atLeast (some (Shortest.leading n - most))
    let text := d.text.toList
    { whole := String.ofList (text.take 1)
      fraction := String.ofList (text.drop 1)
      exponent := d.leading }

/-- The common form of the floating point numbers of an array. -/
structure RealForm where
  format : Format
  plus : Bool
  scientific : Bool
  left : Nat
  right : Nat
  fraction : Nat
  exponent : Nat

def exponentText (width : Nat) (e : Int) : String :=
  let digits := toString e.natAbs
  (if e < 0 then "-" else "+") ++ NumberText.zeros (width - digits.length) ++ digits

def maximum (ns : List Nat) : Nat := ns.foldl max 0

/-- The magnitudes are so large, so small or so far apart that exponents are written. -/
def wantsExponent (f : Format) (magnitudes : List Nat) : Bool :=
  match magnitudes.filter (· != 0) with
  | [] => false
  | n :: ns =>
    let largest := ns.foldl max n
    let smallest := ns.foldl min n
    let huge := f.round (tenTo 8 * Double.one) 1
    let tiny := f.round Double.one (tenTo 4)
    (decide (huge < f.limit) && decide (huge ≤ largest)) || decide (smallest < tiny) ||
      decide (1000 * Double.one < f.round (largest * Double.one) smallest)

def finiteParts : List Double → List (Bool × Nat)
  | [] => []
  | .finite s n _ :: rest => (s, n) :: finiteParts rest
  | _ :: rest => finiteParts rest

def RealForm.ofNumbers (f : Format) (plus : Bool) (xs : List Double) : RealForm :=
  let finite := finiteParts xs
  let scientific := wantsExponent f (finite.map (·.2))
  let form : RealForm :=
    if finite.isEmpty then ⟨f, plus, false, 0, 0, 0, 0⟩
    else if scientific then
      let parts := finite.map fun p => (p.1, scientificParts f none p.2)
      let fraction := maximum (parts.map fun p => p.2.fraction.length)
      let exponent := maximum (parts.map fun p => (exponentText 2 p.2.exponent).length) - 1
      let left := maximum (parts.map fun p => ((sign plus p.1) ++ p.2.whole).length)
      ⟨f, plus, true, left, exponent + 2 + fraction, fraction, exponent⟩
    else
      let parts := finite.map fun p => (p.1, fixedParts f false p.2)
      let fraction := maximum (parts.map fun p => p.2.fraction.length)
      let left := maximum (parts.map fun p => ((sign plus p.1) ++ p.2.whole).length)
      ⟨f, plus, false, left, fraction, fraction, 0⟩
  if finite.length = xs.length then form
  else
    let negative := plus || xs.any fun x => !x.isFinite && x.isNegative
    let offset := form.right + 1
    { form with left := max form.left (3 + negative.toNat - offset) }

def RealForm.text (form : RealForm) : Double → String
  | .nan => padLeft (form.left + form.right + 1) ((if form.plus then "+" else "") ++ "nan")
  | .infinite s => padLeft (form.left + form.right + 1) (sign form.plus s ++ "inf")
  | .finite s n _ =>
    if form.scientific then
      let p := scientificParts form.format (some form.fraction) n
      padLeft form.left (sign form.plus s ++ p.whole) ++ "." ++ p.fraction ++
        NumberText.zeros (form.fraction - p.fraction.length) ++ "e" ++
        exponentText form.exponent p.exponent
    else
      let p := fixedParts form.format true n
      padLeft form.left (sign form.plus s ++ p.whole) ++ "." ++ padRight form.right p.fraction

def realOf : Value → Double
  | .number x => x
  | _ => .zero

def complexOf : Value → Double × Double
  | .complex re im => (re, im)
  | _ => (.zero, .zero)

/-- A complex number: its parts in columns, with the unit before the padding. -/
def complexText (re im : RealForm) (v : Value) : String :=
  let imText := (im.text (complexOf v).2).toList
  let kept := (imText.reverse.dropWhile (· == ' ')).reverse
  re.text (complexOf v).1 ++ String.ofList kept ++ "j" ++ String.ofList (imText.drop kept.length)

def integerText : Value → String
  | .int i => toString i
  | .duration s => toString s
  | _ => "0"

/-- Calendar date of a day count, in the proleptic Gregorian calendar. -/
def civil (days : Int) : Int × Nat × Nat :=
  let z := days + 719468
  let era := z.fdiv 146097
  let doe := (z - era * 146097).toNat
  let yoe := (doe - doe / 1460 + doe / 36524 - doe / 146096) / 365
  let doy := doe - (365 * yoe + yoe / 4 - yoe / 100)
  let mp := (5 * doy + 2) / 153
  let month := if mp < 10 then mp + 3 else mp - 9
  (yoe + era * 400 + (if month ≤ 2 then 1 else 0), month, doy - (153 * mp + 2) / 5 + 1)

def digits (width n : Nat) : String :=
  NumberText.zeros (width - (toString n).length) ++ toString n

def dateText (days : Int) : String :=
  let (y, m, d) := civil days
  (if y < 0 then "-" else "") ++ digits 4 y.natAbs ++ "-" ++ digits 2 m ++ "-" ++ digits 2 d

/-- A duration as days, hours, minutes and seconds. -/
def durationText (seconds : Int) : String :=
  let days := seconds.fdiv 86400
  let rest := (seconds.fmod 86400).toNat
  let clock := toString (rest / 3600) ++ ":" ++ digits 2 (rest / 60 % 60) ++ ":" ++ digits 2 (rest % 60)
  if days = 0 then clock
  else toString days ++ (if days.natAbs = 1 then " day, " else " days, ") ++ clock

def rawText (b : List UInt8) : String :=
  "b'" ++ String.join (b.map fun x =>
    "\\x" ++ String.ofList ((Quoted.hex 2 x.toNat).map Char.toUpper)) ++ "'"

/-- How the cells of an array are written: the form is settled by the cells in sight.
Cells that hold objects are written by `object`. -/
def cellText (c : Content) (single : Bool) (object : Value → String) (inSight : List Value) :
    Value → String :=
  match c with
  | .bool => fun v => match v with
    | .bool true => if single then "True" else " True"
    | _ => "False"
  | .int _ _ | .duration _ =>
    let width := maximum (inSight.map fun v => (integerText v).length)
    fun v => padLeft width (integerText v)
  | .real p =>
    let form := RealForm.ofNumbers p.format false (inSight.map realOf)
    fun v => form.text (realOf v)
  | .complex p =>
    let re := RealForm.ofNumbers p.format false (inSight.map fun v => (complexOf v).1)
    let im := RealForm.ofNumbers p.format true (inSight.map fun v => (complexOf v).2)
    complexText re im
  | .raw _ => fun v => match v with
    | .bytes b => rawText b
    | v => object v
  | .date _ => fun v => match v with
    | .date d => "'" ++ dateText d ++ "'"
    | v => object v
  | _ => object

end Column
end ScriptedArrays
