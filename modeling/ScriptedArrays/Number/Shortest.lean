import ScriptedArrays.Number.Double

/-! Decimal digits of a binary number. The digits of the exact value are taken from the
leading one downwards until what has been written reads back as the same number of the
format, and the last digit is rounded to the nearer neighbour. A caller may ask for more
digits than that, or for fewer. -/

namespace ScriptedArrays

/-- The number `digits * 10 ^ exponent`. -/
structure Decimal where
  digits : Nat
  exponent : Int
  deriving DecidableEq, Repr

namespace Decimal

/-- Drop trailing zeros of the digits, at most `count` of them. -/
def stripZeros : (count : Nat) → Decimal → Decimal
  | 0, d => d
  | count + 1, d =>
    if d.digits % 10 = 0 ∧ d.digits ≠ 0 then stripZeros count ⟨d.digits / 10, d.exponent + 1⟩
    else d

def text (d : Decimal) : String := toString d.digits

/-- The exponent of the leading digit. -/
def leading (d : Decimal) : Int := d.exponent + (d.text.length : Int) - 1

end Decimal

namespace Shortest

/-- Ten to the power of a non-negative exponent, and one for a negative one. -/
def up (e : Int) : Nat := tenTo e.toNat

/-- The exponent of the leading decimal digit of `n` units. -/
def leading (n : Nat) : Int :=
  let guess := (((n.log2 : Int) - 1074) * 30103).fdiv 100000
  let reaches (e : Int) : Bool := decide (Double.one * up e ≤ n * up (-e))
  if reaches (guess + 1) then guess + 1 else if reaches guess then guess else guess - 1

/-- How a digit position is settled: the digits so far, whether they or their successor
read back as `n` units, and which of the two is nearer. -/
structure Step where
  floor : Nat
  low : Bool
  high : Bool
  upper : Bool

/-- Cut the exact value of `n` units at the digit of weight `10 ^ e`. -/
def step (f : Format) (n : Nat) (e : Int) : Step :=
  let den := Double.one * up e
  let num := n * up (-e)
  let rest := num % den
  let above := f.spacing n * up (-e)
  let below := f.spacing (n - 1) * up (-e)
  let closed := n / f.spacing n % 2 == 0
  let within (distance margin : Nat) : Bool :=
    decide (distance < margin) || closed && distance == margin
  let q := num / den
  { floor := q
    low := within (2 * rest) below
    high := within (2 * (den - rest)) above
    upper := decide (den < 2 * rest) || (2 * rest == den && q % 2 == 1) }

/-- The digits kept at a position: the only neighbour that reads back, or the nearer. -/
def Step.digits (s : Step) : Nat :=
  if s.low == s.high then (if s.upper then s.floor + 1 else s.floor)
  else if s.low then s.floor else s.floor + 1

/-- Go down from weight `10 ^ e` until the digits read back and weight `atLeast` is
reached, or until weight `atMost`. -/
def digitsFrom (f : Format) (n : Nat) (atLeast : Int) (atMost : Option Int) :
    (fuel : Nat) → Int → Decimal
  | 0, e => ⟨(step f n e).digits, e⟩
  | fuel + 1, e =>
    let s := step f n e
    if ((s.low || s.high) && decide (e ≤ atLeast)) || atMost == some e then ⟨s.digits, e⟩
    else digitsFrom f n atLeast atMost fuel (e - 1)

/-- The decimal of a positive magnitude with at least the digit of weight `10 ^ atLeast`
and none below weight `10 ^ atMost`, without trailing zeros. No value has digits below
`10 ^ (-1074)`. -/
def decimal (f : Format) (n : Nat) (atLeast : Option Int) (atMost : Option Int) : Decimal :=
  let start := leading n
  let fuel := (start + 1080).toNat + (start - atLeast.getD start).toNat
  (digitsFrom f n (atLeast.getD start) atMost fuel start).stripZeros 1500

/-- The fewest digits that read back as the same number of the format. -/
def ofUnits (f : Format) (n : Nat) : Decimal := decimal f n none none

end Shortest
end ScriptedArrays
