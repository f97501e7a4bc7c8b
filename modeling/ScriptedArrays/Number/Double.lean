import ScriptedArrays.Number.Rounding
import ScriptedArrays.Number.Power

/-! Binary floating point numbers with exact values. Every finite magnitude is a whole
number of units of `2^-1074`, the least positive double, and the narrower formats are
the magnitudes with fewer significant bits among these, so one type serves all widths
and all arithmetic below is arithmetic of naturals followed by one rounding. -/

namespace ScriptedArrays

/-- A binary format: significant bits, the exponent of the finest step (negated), and
the exponent at which magnitudes overflow. -/
structure Format where
  precision : Nat
  finest : Nat
  top : Nat
  deriving DecidableEq, Repr

namespace Format

def half : Format := ⟨11, 24, 16⟩
def single : Format := ⟨24, 149, 128⟩
def double : Format := ⟨53, 1074, 1024⟩

/-- Distance between neighbouring numbers of the format around `n` units. -/
def spacing (f : Format) (n : Nat) : Nat :=
  twoTo (max (1074 - f.finest) (n.log2 + 1 - f.precision))

def limit (f : Format) : Nat := twoTo (f.top + 1074)

/-- `n` units are a finite magnitude of the format. -/
def Holds (f : Format) (n : Nat) : Prop := n % f.spacing n = 0 ∧ n < f.limit

instance (f : Format) (n : Nat) : Decidable (f.Holds n) :=
  inferInstanceAs (Decidable (_ ∧ _))

/-- The magnitude of the format nearest to `n / d` units, before overflow is considered. -/
def round (f : Format) (n d : Nat) : Nat :=
  Rounding.nearest n (d * f.spacing (n / d)) * f.spacing (n / d)

theorem spacing_pos (f : Format) (n : Nat) : 0 < f.spacing n := twoTo_pos _

theorem round_eq_self {f : Format} {n : Nat} (h : f.Holds n) : f.round n 1 = n := by
  obtain ⟨q, hq⟩ := Nat.dvd_of_mod_eq_zero h.1
  have hp := f.spacing_pos n
  rw [Nat.mul_comm] at hq
  rw [round, Nat.div_one, Nat.one_mul]
  generalize f.spacing n = s at hq hp
  subst hq
  rw [Rounding.nearest_mul q hp]

@[simp] theorem holds_zero (f : Format) : f.Holds 0 :=
  ⟨Nat.zero_mod _, twoTo_pos _⟩

end Format

/-- A number as scripts compute with it. -/
inductive Double
  | nan
  | infinite (negative : Bool)
  | finite (negative : Bool) (units : Nat) (fits : Format.double.Holds units)
  deriving DecidableEq

namespace Double

/-- The number of units in one. -/
def one : Nat := twoTo 1074

def signed (negative : Bool) (n : Nat) : Int := if negative then -(n : Int) else n

/-- The double nearest to `n / d` units with the given sign. What no finite double holds
after rounding lies at or beyond `2^1024`. -/
def ofUnits (negative : Bool) (n d : Nat) : Double :=
  if h : Format.double.Holds (Format.double.round n d) then .finite negative _ h
  else .infinite negative

@[simp] theorem ofUnits_one {n : Nat} (negative : Bool) (h : Format.double.Holds n) :
    ofUnits negative n 1 = .finite negative n h := by
  simp [ofUnits, Format.round_eq_self h, h]

def zero : Double := .finite false 0 (Format.holds_zero _)

instance : Inhabited Double := ⟨zero⟩

def ofInt (i : Int) : Double := ofUnits (decide (i < 0)) (i.natAbs * one) 1

/-- Round into a narrower format; beyond its range lie the infinities. -/
def narrow (f : Format) : Double → Double
  | .finite s n _ => if f.round n 1 < f.limit then ofUnits s (f.round n 1) 1 else .infinite s
  | x => x

/-- The value is a number of the format. -/
def Fits (f : Format) : Double → Prop
  | .finite _ n _ => f.Holds n
  | _ => True

theorem narrow_eq_self {f : Format} {x : Double} (h : x.Fits f) : x.narrow f = x := by
  cases x with
  | nan => rfl
  | infinite s => rfl
  | finite s n hn => simp [narrow, Format.round_eq_self (f := f) h, h.2, hn]

def isNaN : Double → Bool
  | .nan => true
  | _ => false

def isFinite : Double → Bool
  | .finite .. => true
  | _ => false

def isNegative : Double → Bool
  | .nan => false
  | .infinite s => s
  | .finite s .. => s

def isZero : Double → Bool
  | .finite _ n _ => n == 0
  | _ => false

/-- A finite value without a fractional part. -/
def isWhole : Double → Bool
  | .finite _ n _ => n % one == 0
  | _ => false

/-- The whole part, for finite values. -/
def truncate? : Double → Option Int
  | .finite s n _ => some (signed s (n / one))
  | _ => none

/-- Numeric equality: the two zeros are equal and NaN equals nothing. -/
def equal : Double → Double → Bool
  | .finite a m _, .finite b n _ => signed a m == signed b n
  | .infinite a, .infinite b => a == b
  | _, _ => false

def equalInt (x : Double) (i : Int) : Bool :=
  match x with
  | .finite a m _ => signed a m == i * one
  | _ => false

def less : Double → Double → Bool
  | .finite a m _, .finite b n _ => decide (signed a m < signed b n)
  | .infinite a, .infinite b => a && !b
  | .infinite a, .finite .. => a
  | .finite .., .infinite b => !b
  | _, _ => false

def lessInt (x : Double) (i : Int) : Bool :=
  match x with
  | .finite a m _ => decide (signed a m < i * one)
  | .infinite a => a
  | .nan => false

def intLess (i : Int) (x : Double) : Bool :=
  match x with
  | .finite a m _ => decide (i * one < signed a m)
  | .infinite a => !a
  | .nan => false

/-- The sum, rounded once. An exact zero is negative only for two negative operands. -/
def add : Double → Double → Double
  | .finite a m _, .finite b n _ =>
    let sum := signed a m + signed b n
    if sum = 0 then ofUnits (a && b) 0 1 else ofUnits (decide (sum < 0)) sum.natAbs 1
  | .infinite a, .infinite b => if a = b then .infinite a else .nan
  | .infinite a, .finite .. => .infinite a
  | .finite .., .infinite b => .infinite b
  | _, _ => .nan

/-- The remainder by two, taken with the sign of the divisor, is one. -/
def isOdd : Double → Bool
  | .finite a m _ => (ofUnits false ((signed a m).fmod (2 * one)).toNat 1).equalInt 1
  | _ => false

theorem equal_comm (x y : Double) : x.equal y = y.equal x := by
  cases x <;> cases y <;> simp [equal, Bool.beq_comm]

theorem equal_self {x : Double} (h : x.isNaN = false) : x.equal x = true := by
  cases x <;> simp_all [equal, isNaN]

end Double
end ScriptedArrays
