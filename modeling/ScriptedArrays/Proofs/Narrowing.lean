import ScriptedArrays.Cell.Type
import ScriptedArrays.Number.Quantity

/-! Rounding ends in the format. A magnitude rounded to a format is a number of that format
unless it is beyond the range, so what is narrowed once fits, and narrowing it again changes
nothing. For integers and doubles the magnitudes beyond the range are told exactly. -/

namespace ScriptedArrays
namespace Format

def step (f : Format) (n : Nat) : Nat := max (1074 - f.finest) (n.log2 + 1 - f.precision)

theorem spacing_eq (f : Format) (n : Nat) : f.spacing n = twoTo (f.step n) := rfl

theorem twoTo_le {j k : Nat} (h : j ≤ k) : twoTo j ≤ twoTo k := Nat.pow_le_pow_right (by decide) h

theorem lt_twoTo_log2 (n : Nat) : n < twoTo (n.log2 + 1) := Nat.lt_log2_self

theorem log2_lt_of_lt_twoTo {n k : Nat} (hn : n ≠ 0) (h : n < twoTo k) : n.log2 < k :=
  (Nat.log2_lt hn).mpr h

@[simp] theorem log2_twoTo (k : Nat) : (twoTo k).log2 = k := Nat.log2_two_pow

theorem round_le (f : Format) (n : Nat) : f.round n 1 ≤ twoTo (max (f.step n) (n.log2 + 1)) := by
  have hs := f.spacing_pos n
  have hdvd : f.spacing n ∣ twoTo (max (f.step n) (n.log2 + 1)) := by
    rw [spacing_eq]
    exact twoTo_dvd (Nat.le_max_left _ _)
  have hn : n < twoTo (max (f.step n) (n.log2 + 1)) :=
    Nat.lt_of_lt_of_le (lt_twoTo_log2 n) (twoTo_le (Nat.le_max_right _ _))
  obtain ⟨q, hq⟩ := hdvd
  rw [hq] at hn ⊢
  have hq' : n / f.spacing n < q := (Nat.div_lt_iff_lt_mul hs).mpr (by rwa [Nat.mul_comm] at hn)
  have hr := Rounding.nearest_le_floor_succ n (f.spacing n)
  rw [round, Nat.div_one, Nat.one_mul, Nat.mul_comm]
  exact Nat.mul_le_mul_left _ (by omega)

theorem spacing_dvd_round {f : Format} (hf : 0 < f.precision) (n : Nat) :
    f.spacing (f.round n 1) ∣ f.round n 1 := by
  have hstep : twoTo (f.step n) ∣ f.round n 1 := by
    rw [round, Nat.div_one, spacing_eq]
    exact Nat.dvd_mul_left _ _
  rw [spacing_eq]
  by_cases h0 : f.round n 1 = 0
  · rw [h0]
    exact Nat.dvd_zero _
  · rcases Nat.lt_or_eq_of_le (f.round_le n) with hlt | heq
    · -- below the next power of two the steps are those around `n`
      refine Nat.dvd_trans (twoTo_dvd ?_) hstep
      have hl := log2_lt_of_lt_twoTo h0 hlt
      simp only [step] at hl ⊢
      omega
    · rw [heq]
      apply twoTo_dvd
      simp only [step, log2_twoTo]
      omega

theorem holds_round {f : Format} (hf : 0 < f.precision) {n : Nat} (h : f.round n 1 < f.limit) :
    f.Holds (f.round n 1) :=
  ⟨Nat.mod_eq_zero_of_dvd (spacing_dvd_round hf n), h⟩

theorem two_mul_round_le (f : Format) (n : Nat) : 2 * f.round n 1 ≤ 2 * n + f.spacing n := by
  rw [round, Nat.div_one, Nat.one_mul]
  exact Rounding.two_mul_nearest_mul_le n (f.spacing n)

theorem nearest_of_half_le {n s q : Nat} (hq : q % 2 = 1) (hlo : q * s ≤ n) (hhi : n < (q + 1) * s)
    (hhalf : s ≤ 2 * (n - q * s)) : Rounding.nearest n s = q + 1 := by
  have hdiv : n / s = q := Nat.div_eq_of_lt_le hlo hhi
  have hmod : n % s = n - q * s := by
    rw [Nat.mod_eq_sub_mul_div, hdiv, Nat.mul_comm]
  rw [Rounding.nearest, hdiv, hmod, hq, if_neg (by omega), ite_self]

theorem step_double (n : Nat) : double.step n = n.log2 + 1 - 53 := Nat.max_eq_right (Nat.zero_le _)

theorem twoTo_halfStep (k : Nat) : twoTo (k + 54) = 9007199254740992 * twoTo (k + 1) ∧
    twoTo (k + 54) = twoTo (k + 53) * 2 ∧ twoTo (k + 1) = twoTo k * 2 ∧ 0 < twoTo k := by
  refine ⟨?_, twoTo_succ _, twoTo_succ k, twoTo_pos k⟩
  have h53 : twoTo 53 = 9007199254740992 := by decide
  rw [← h53, ← twoTo_add]
  exact congrArg twoTo (by omega)

/-- From half a step below a power of two on, rounding reaches it. -/
theorem twoTo_le_round_double {n k : Nat} (hn : twoTo (k + 54) - twoTo k ≤ n) :
    twoTo (k + 54) ≤ double.round n 1 := by
  obtain ⟨htop, htwo, hhalf, hpos⟩ := twoTo_halfStep k
  have hlog : k + 53 ≤ n.log2 := by
    refine (Nat.le_log2 (by omega)).mpr ?_
    show twoTo (k + 53) ≤ n
    omega
  rw [round, Nat.div_one, Nat.one_mul, spacing_eq, step_double]
  rcases Nat.lt_or_eq_of_le hlog with hlt | heq
  · have hpow : twoTo n.log2 = twoTo 52 * twoTo (n.log2 + 1 - 53) := by
      rw [← twoTo_add]
      exact congrArg twoTo (by omega)
    have hle : twoTo 52 * twoTo (n.log2 + 1 - 53) ≤ n := by
      rw [← hpow]
      exact Nat.log2_self_le (by omega)
    have hdiv := (Nat.le_div_iff_mul_le (twoTo_pos (n.log2 + 1 - 53))).mpr hle
    calc twoTo (k + 54) ≤ twoTo n.log2 := twoTo_le (by omega)
      _ = twoTo 52 * twoTo (n.log2 + 1 - 53) := hpow
      _ ≤ _ := Nat.mul_le_mul_right _ (Nat.le_trans hdiv (Rounding.floor_le_nearest _ _))
  · have hlt : n < twoTo (k + 54) := by
      have h := lt_twoTo_log2 n
      rwa [← heq] at h
    have hstep : n.log2 + 1 - 53 = k + 1 := by omega
    rw [hstep, nearest_of_half_le (q := 9007199254740991) (by decide) (by omega) (by omega)
      (by omega)]
    exact Nat.le_of_eq htop

theorem round_double_lt_twoTo {n k : Nat} (hn : n < twoTo (k + 54) - twoTo k) :
    double.round n 1 < twoTo (k + 54) := by
  obtain ⟨htop, htwo, hhalf, hpos⟩ := twoTo_halfStep k
  have hs : double.spacing n ≤ twoTo (k + 1) := by
    rw [spacing_eq, step_double]
    apply twoTo_le
    by_cases h0 : n = 0
    · rw [h0, Nat.log2_zero]
      omega
    · have hlog := log2_lt_of_lt_twoTo (k := k + 54) h0 (by omega)
      omega
  have h := two_mul_round_le double n
  omega

end Format

namespace Precision

theorem precision_pos (p : Precision) : 0 < p.format.precision := by
  cases p <;> decide

theorem holds_double {p : Precision} {n : Nat} (h : p.format.Holds n) : Format.double.Holds n := by
  have htop : p.format.top ≤ Format.double.top := by
    cases p <;> simp only [format, Format.half, Format.single, Format.double] <;> omega
  refine ⟨?_, Nat.lt_of_lt_of_le h.2 (Format.twoTo_le (Nat.add_le_add_right htop _))⟩
  have hdvd : Format.double.spacing n ∣ p.format.spacing n := by
    rw [Format.spacing_eq, Format.spacing_eq]
    apply twoTo_dvd
    cases p <;> simp only [Format.step, format, Format.half, Format.single, Format.double] <;> omega
  exact Nat.mod_eq_zero_of_dvd (Nat.dvd_trans hdvd (Nat.dvd_of_mod_eq_zero h.1))

end Precision

namespace Double

theorem narrow_of_lt {f : Format} {n : Nat} (h : f.round n 1 < f.limit) (s : Bool)
    (hn : Format.double.Holds n) :
    narrow f (.finite s n hn) = ofUnits s (f.round n 1) 1 := by
  simp only [narrow]
  exact if_pos h

theorem narrow_of_le {f : Format} {n : Nat} (h : f.limit ≤ f.round n 1) (s : Bool)
    (hn : Format.double.Holds n) : narrow f (.finite s n hn) = .infinite s := by
  simp only [narrow]
  exact if_neg (Nat.not_lt.mpr h)

theorem fits_narrow (p : Precision) (x : Double) : (x.narrow p.format).Fits p.format := by
  cases x with
  | nan => exact True.intro
  | infinite s => exact True.intro
  | finite s n hn =>
    have h := Nat.lt_or_ge (p.format.round n 1) p.format.limit
    cases h with
    | inl h =>
      have hf := Format.holds_round p.precision_pos h
      rw [narrow_of_lt h, ofUnits_one s (Precision.holds_double hf)]
      exact hf
    | inr h =>
      rw [narrow_of_le h]
      exact True.intro

@[simp] theorem fits_zero (f : Format) : zero.Fits f := f.holds_zero

@[simp] theorem narrow_zero (p : Precision) : zero.narrow p.format = zero :=
  narrow_eq_self (fits_zero _)

@[simp] theorem fits_nan (f : Format) : nan.Fits f := True.intro

theorem fits_zero_add {f : Format} {x : Double} (h : x.Fits f) : (zero.add x).Fits f := by
  cases x with
  | nan => exact True.intro
  | infinite s => exact True.intro
  | finite s n hn =>
    have hsum : signed false 0 + signed s n = signed s n := by simp [signed]
    by_cases h0 : signed s n = 0
    · simp only [zero, add, hsum, if_pos h0, ofUnits_one _ (Format.holds_zero _)]
      exact f.holds_zero
    · have habs : (signed s n).natAbs = n := by cases s <;> simp [signed]
      simp only [zero, add, hsum, if_neg h0, habs, ofUnits_one _ hn]
      exact h

/-- The least magnitude of an integer that is rounded beyond all finite doubles. -/
def bound : Nat := twoTo 1024 - twoTo 970

theorem twoTo_le_bound {k : Nat} (hk : k ≤ 1023) : twoTo k ≤ bound := by
  have htop : twoTo 1024 = twoTo 1023 * 2 := twoTo_succ 1023
  have hhalf : twoTo 970 ≤ twoTo 1023 := Format.twoTo_le (by decide)
  have hle : twoTo k ≤ twoTo 1023 := Format.twoTo_le hk
  rw [bound]
  omega

theorem isFinite_ofInt_iff (i : Int) : (ofInt i).isFinite = true ↔ i.natAbs < bound := by
  have hscale : bound * one = twoTo (2044 + 54) - twoTo 2044 := by
    have htop : twoTo (2044 + 54) = twoTo 1024 * twoTo 1074 := twoTo_add 1024 1074
    have hhalf : twoTo 2044 = twoTo 970 * twoTo 1074 := twoTo_add 970 1074
    rw [bound, one, Nat.sub_mul, htop, hhalf]
  have hone : i.natAbs * one < bound * one ↔ i.natAbs < bound :=
    Nat.mul_lt_mul_right (twoTo_pos 1074)
  rw [ofInt, ofUnits, ← hone, hscale]
  split
  · next h =>
    refine iff_of_true rfl (Nat.lt_of_not_le fun hle => ?_)
    exact Nat.not_le.mpr h.2 (Format.twoTo_le_round_double (k := 2044) hle)
  · next h =>
    refine iff_of_false Bool.false_ne_true fun hlt => h ?_
    exact Format.holds_round (Precision.precision_pos .double)
      (Format.round_double_lt_twoTo (k := 2044) hlt)

end Double
end ScriptedArrays
