import ScriptedArrays.Proofs.FirstMatches
import ScriptedArrays.Proofs.LastingTexts
import ScriptedArrays.Proofs.NumberRange
import ScriptedArrays.Proofs.Numerals

/-! The starts of searches. A start is the number of a value, cut to its whole part and to 32 bits.
A boxed value is taken out of its box before it is asked for its number, so that a boxed integer
starts a search like the integer itself. What has no number without its box, a typed integer for
one, then starts at zero, whatever its number is in the box. -/

namespace ScriptedArrays

open World

/-- The integer is the whole part of the number, or the end of the range of 32 bits that is nearest
to it. That of NaN is zero. -/
inductive Double.SaturatesTo : Double → Int → Prop
  | nan : SaturatesTo .nan 0
  | below : SaturatesTo (.infinite true) (-2 ^ 31)
  | above : SaturatesTo (.infinite false) (2 ^ 31 - 1)
  | whole {x : Double} {k : Int} (h : x.TruncatesTo k) :
      SaturatesTo x (max (-2 ^ 31) (min k (2 ^ 31 - 1)))

namespace Double

theorem truncatesTo_zero : zero.TruncatesTo 0 := by
  refine ⟨false, 0, Format.holds_zero _, rfl, ?_, ?_, nofun, nofun⟩
  · rw [Int.natAbs_zero, Nat.zero_mul]
  · rw [Int.natAbs_zero, Nat.zero_add, Nat.one_mul]
    exact twoTo_pos 1074

theorem SaturatesTo.zero : SaturatesTo .zero 0 := .whole truncatesTo_zero

theorem clampInt_eq (k : Int) : clampInt k = max (-2 ^ 31) (min k (2 ^ 31 - 1)) := by
  rw [clampInt, min_comm]
  rfl

theorem clampInt_of_mem {k : Int} (hlow : -2 ^ 31 ≤ k) (hhigh : k ≤ 2 ^ 31 - 1) : clampInt k = k := by
  rw [clampInt_eq, min_eq_left hhigh, max_eq_right hlow]

theorem saturatesTo_iff {x : Double} {n : Int} : x.SaturatesTo n ↔ x.wholeClamped = n := by
  constructor
  · intro h
    cases h with
    | nan | below | above => rfl
    | whole h =>
      rw [← clampInt_eq]
      rw [← truncate?_eq_some_iff] at h
      cases x with
      | finite negative m hm => exact congrArg clampInt (Option.some.inj h)
      | _ => simp [truncate?] at h
  · rintro rfl
    cases x with
    | nan => exact .nan
    | infinite negative => cases negative with
      | true => exact .below
      | false => exact .above
    | finite negative m hm =>
      rw [wholeClamped, clampInt_eq]
      exact .whole (truncate?_eq_some_iff.mp rfl)

theorem natAbs_lt_of_mem {k : Int} (hlow : -2 ^ 31 ≤ k) (hhigh : k ≤ 2 ^ 31 - 1) :
    k.natAbs < twoTo 32 := by
  have hpower : twoTo 32 = 4294967296 := by decide
  omega

theorem wholeClamped_ofInt {k : Int} (hlow : -2 ^ 31 ≤ k) (hhigh : k ≤ 2 ^ 31 - 1) :
    (ofInt k).wholeClamped = k := by
  have hsmall : k.natAbs < twoTo 53 :=
    Nat.lt_of_lt_of_le (natAbs_lt_of_mem hlow hhigh) (Format.twoTo_le (by decide))
  have hwhole : (ofInt k).TruncatesTo k := truncate?_eq_some_iff.mp (truncate?_ofInt_of_lt hsmall)
  have hsaturated : (ofInt k).SaturatesTo (clampInt k) := by
    rw [clampInt_eq]
    exact .whole hwhole
  rw [clampInt_of_mem hlow hhigh] at hsaturated
  exact saturatesTo_iff.mp hsaturated

theorem ofInt?_of_mem {k : Int} (hlow : -2 ^ 31 ≤ k) (hhigh : k ≤ 2 ^ 31 - 1) :
    ofInt? k = .ok (ofInt k) :=
  ofInt?_of_lt (Nat.lt_of_lt_of_le (natAbs_lt_of_mem hlow hhigh) (twoTo_le_bound (by decide)))

end Double

theorem Double.SaturatesTo.mem {x : Double} {n : Int} (h : x.SaturatesTo n) :
    -2 ^ 31 ≤ n ∧ n ≤ 2 ^ 31 - 1 := by
  cases h with
  | nan | below | above => decide
  | whole => exact ⟨le_max_left .., max_le (by decide) (min_le_right ..)⟩

def Value.IsConvertible (v : Value) : Prop :=
  match v.plain with
  | .undefined | .null | .bool _ | .int _ | .number _ | .text _ | .box _ => True
  | _ => False

theorem Value.content_of_plain {v u : Value} (h : v.plain = u) :
    v.content = u ∨ ∃ t, v.content = .scalar t u := by
  rw [plain] at h
  split at h
  all_goals rename_i hc
  · exact .inr ⟨_, h ▸ hc⟩
  · exact .inr ⟨_, h ▸ hc⟩
  · exact .inr ⟨_, h ▸ hc⟩
  · exact .inr ⟨_, h ▸ hc⟩
  · exact .inl h

namespace World

variable {w : World} {v u : Value} {x : Double} {r s : Ref .box}

theorem display_of_text {text : String} (hv : v.plain = .text text) : w.display v = text := by
  rcases Value.content_of_plain hv with hc | ⟨t, hc⟩
  · rw [display, displayFrom, hc]
  · rw [display_of_scalar hc, Display.numberText]

theorem displayable_of_text {text : String} (hv : v.plain = .text text) : w.displayable v = true := by
  rcases Value.content_of_plain hv with hc | ⟨t, hc⟩
  · rw [displayable, displayableFrom, hc]
    rfl
  · rw [displayable, displayableFrom, hc]
    rfl

theorem textNumber_of_boxedNumber (hint : ∀ i, v.plain ≠ .int i) (hnumber : ∀ x, v.plain ≠ .number x)
    (hx : w.boxedNumber v = .ok x) : textNumber (w.display v) = .ok x := by
  rw [boxedNumber_of_text hint hnumber, display?] at hx
  cases hd : w.displayable v with
  | false =>
    rw [hd] at hx
    cases hx
  | true =>
    rw [hd] at hx
    exact hx

end World

namespace Numeral

theorem exists_strip {c : Char} (hc : isBlank c = false) (s : List Char) :
    ∃ t, strip (c :: s) = c :: t := by
  have hblank : ¬ isBlank c = true := by simp [hc]
  rw [strip, List.dropWhile_cons_of_neg hblank, List.reverse_cons, List.dropWhile_append]
  split
  · rw [List.dropWhile_cons_of_neg hblank]
    exact ⟨[], rfl⟩
  · rw [List.reverse_append]
    exact ⟨_, rfl⟩

theorem float?_angle (s : List Char) : float? ('<' :: s) = none := by
  have hjoin : joinDigits ' ' ('<' :: s.map plainDigit) =
      (joinDigits '<' (s.map plainDigit)).map ('<' :: ·) := rfl
  rw [float?, List.map_cons, show plainDigit '<' = '<' by decide, hjoin]
  cases joinDigits '<' (s.map plainDigit) with
  | none => rfl
  | some t => rfl

end Numeral

theorem textNumber_angle {s : String} {t : List Char} (hs : s.toList = '<' :: t) :
    textNumber s = .ok .nan := by
  obtain ⟨u, hu⟩ := Numeral.exists_strip (c := '<') (by decide) t
  have hread : Numeral.read s = .number .nan := by
    rw [Numeral.read, hs, hu, Numeral.readStripped.eq_def]
    split
    · next h => cases h
    · next h => cases h
    · next h => cases h
    · rw [Numeral.float?_angle]
      rfl
  rw [textNumber, hread]

def IsWordless (text : String) : Prop :=
  text ∈ ["", "undefined", "None", "True", "False"] ∨ ∃ rest, text = "<HostObject " ++ rest

theorem IsWordless.saturatesTo {text : String} {x : Double} (h : IsWordless text)
    (hx : textNumber text = .ok x) : x.SaturatesTo 0 := by
  rcases h with h | h
  · have hnumbers : ∀ t ∈ ["", "undefined", "None", "True", "False"],
        textNumber t = .ok .zero ∨ textNumber t = .ok .nan := by decide
    rcases hnumbers text h with hzero | hnan
    · obtain rfl := Except.ok.inj (hzero.symm.trans hx)
      exact .zero
    · obtain rfl := Except.ok.inj (hnan.symm.trans hx)
      exact .nan
  · obtain ⟨rest, rfl⟩ := h
    have hangle : ("<HostObject " ++ rest).toList = '<' :: ("HostObject ".toList ++ rest.toList) := by
      rw [String.toList_append]
      rfl
    obtain rfl := Except.ok.inj ((textNumber_angle hangle).symm.trans hx)
    exact .nan

namespace World

variable {w : World} {v u : Value} {x : Double} {r s : Ref .box}

theorem isWordless_display (hu : v.plain = .undefined ∨ v.plain = .null ∨
    (∃ b, v.plain = .bool b) ∨ ∃ s, v.plain = .box s) : IsWordless (w.display v) := by
  rcases Value.content_of_plain (v := v) rfl with hc | ⟨t, hc⟩
  · rw [display, displayFrom, hc]
    rcases hu with hu | hu | ⟨b, hu⟩ | ⟨s, hu⟩ <;> rw [hu]
    · show IsWordless "undefined"
      exact .inl (by decide)
    · show IsWordless "None"
      exact .inl (by decide)
    · show IsWordless (Display.boolText b)
      cases b <;> exact .inl (by decide)
    · exact .inr ⟨_, String.append_assoc⟩
  · rw [display_of_scalar hc]
    rcases hu with hu | hu | ⟨b, hu⟩ | ⟨s, hu⟩ <;> rw [hu]
    · exact .inl List.mem_cons_self
    · exact .inl List.mem_cons_self
    · rw [Display.numberText]
      cases b <;> exact .inl (by decide)
    · exact .inl List.mem_cons_self

theorem saturatesTo_zero (hu : v.plain = .undefined ∨ v.plain = .null ∨
    (∃ b, v.plain = .bool b) ∨ ∃ s, v.plain = .box s) (hx : w.boxedNumber v = .ok x) :
    x.SaturatesTo 0 := by
  refine (isWordless_display (w := w) hu).saturatesTo (textNumber_of_boxedNumber ?_ ?_ hx)
  · intro i hi
    rw [hi] at hu
    simp at hu
  · intro y hy
    rw [hy] at hu
    simp at hu

/-- The start that a box gives is not the one that its number gives. A boxed truth value counts as
one if it is true, a box in a box by what is in the inner one, and what scripts have no number for
as zero. -/
inductive Misread (w : World) (x : Double) : Value → Prop
  | truth {r : Ref .box} (h : (w.boxes.get r).value.plain = .bool true) : w.Misread x (.box r)
  | inner {r s : Ref .box} (h : (w.boxes.get r).value.plain = .box s)
      (hs : ∀ y, w.numberOf (.box s) = .ok y → ¬ y.SaturatesTo 0) : w.Misread x (.box r)
  | other {r : Ref .box} (h : ¬ (w.boxes.get r).value.IsConvertible) (hx : ¬ x.SaturatesTo 0) :
      w.Misread x (.box r)

theorem intValue_eq_ok_iff {n : Int} :
    w.intValue v = .ok n ↔ ∃ y, w.numberOf (w.hostValue v) = .ok y ∧ y.SaturatesTo n := by
  rw [intValue]
  cases hy : w.numberOf (w.hostValue v) with
  | error f => simp [Except.map]
  | ok y => simp [Except.map, Double.saturatesTo_iff]

theorem numberOf_eq_boxedNumber (hv : (∃ i, v.plain = .int i) ∨ (∃ y, v.plain = .number y) ∨
    ∃ text, v.plain = .text text) : w.numberOf v = w.boxedNumber v := by
  rcases hv with ⟨i, hi⟩ | ⟨y, hy⟩ | ⟨text, htext⟩
  · rw [numberOf, boxedNumber, hi]
  · rw [numberOf, boxedNumber, hy]
  · rw [numberOf, boxedNumber, htext]
    dsimp only
    rw [display?_of_displayable (displayable_of_text htext), display_of_text htext]
    rfl

def SameStart (w : World) (x : Double) (v : Value) : Prop :=
  ∃ n, x.SaturatesTo n ∧ ∃ y, w.numberOf v = .ok y ∧ y.SaturatesTo n

theorem sameStart_self (h : w.numberOf v = .ok x) : w.SameStart x v :=
  ⟨x.wholeClamped, Double.saturatesTo_iff.mpr rfl, x, h, Double.saturatesTo_iff.mpr rfl⟩

theorem sameStart_zero_iff (hx : x.SaturatesTo 0) :
    w.SameStart x v ↔ ∃ y, w.numberOf v = .ok y ∧ y.SaturatesTo 0 := by
  constructor
  · rintro ⟨n, hn, hv⟩
    rw [Double.saturatesTo_iff] at hx hn
    rwa [← hx.symm.trans hn] at hv
  · exact fun hv => ⟨0, hx, hv⟩

theorem sameStart_nan_iff (hv : w.numberOf v = .ok .nan) : w.SameStart x v ↔ x.SaturatesTo 0 := by
  constructor
  · rintro ⟨n, hn, y, hy, hyn⟩
    obtain rfl : Double.nan = y := Except.ok.inj (hv.symm.trans hy)
    cases hyn with
    | nan => exact hn
    | whole h => obtain ⟨_, _, _, h, -⟩ := h; cases h
  · exact fun hx => ⟨0, hx, .nan, hv, .nan⟩

theorem misread_iff : w.Misread x (.box r) ↔ (w.boxes.get r).value.plain = .bool true ∨
    (∃ s, (w.boxes.get r).value.plain = .box s ∧
      ∀ y, w.numberOf (.box s) = .ok y → ¬ y.SaturatesTo 0) ∨
    ¬ (w.boxes.get r).value.IsConvertible ∧ ¬ x.SaturatesTo 0 := by
  constructor
  · intro h
    cases h with
    | truth h => exact .inl h
    | inner h hs => exact .inr (.inl ⟨_, h, hs⟩)
    | other h hx => exact .inr (.inr ⟨h, hx⟩)
  · rintro (h | ⟨s, h, hs⟩ | ⟨h, hx⟩)
    · exact .truth h
    · exact .inner h hs
    · exact .other h hx

theorem numberOf_of_plain (h : v.plain = u.plain) : w.numberOf v = w.numberOf u := by
  rw [numberOf, numberOf, h]

/-- Taken out of its box, a value gives the start that it gives in it, unless it is misread. -/
theorem sameStart_iff (hx : w.boxedNumber (w.boxes.get r).value = .ok x) :
    w.SameStart x (w.boxes.get r).value ↔ ¬ w.Misread x (.box r) := by
  rw [misread_iff, Value.IsConvertible]
  generalize (w.boxes.get r).value = v at hx
  cases hv : v.plain with
  | int i =>
    exact iff_of_true (sameStart_self ((numberOf_eq_boxedNumber (.inl ⟨i, hv⟩)).trans hx)) (by simp)
  | number y =>
    have hsame := numberOf_eq_boxedNumber (w := w) (.inr (.inl ⟨y, hv⟩))
    exact iff_of_true (sameStart_self (hsame.trans hx)) (by simp)
  | text text =>
    have hsame := numberOf_eq_boxedNumber (w := w) (.inr (.inr ⟨text, hv⟩))
    exact iff_of_true (sameStart_self (hsame.trans hx)) (by simp)
  | undefined =>
    have hzero : x.SaturatesTo 0 := saturatesTo_zero (.inl hv) hx
    exact iff_of_true ((sameStart_nan_iff (numberOf_of_plain (u := .undefined) hv)).mpr hzero) (by simp)
  | null =>
    have hzero : x.SaturatesTo 0 := saturatesTo_zero (.inr (.inl hv)) hx
    refine iff_of_true ((sameStart_zero_iff hzero).mpr ⟨.zero, ?_, .zero⟩) (by simp)
    exact numberOf_of_plain (u := .null) hv
  | bool b =>
    have hzero : x.SaturatesTo 0 := saturatesTo_zero (.inr (.inr (.inl ⟨b, hv⟩))) hx
    have hnumber : w.numberOf v = .ok (Double.ofInt (if b then 1 else 0)) :=
      numberOf_of_plain (u := .bool b) hv
    rw [sameStart_zero_iff hzero, hnumber]
    cases b with
    | true =>
      have hone : ¬ (Double.ofInt 1).SaturatesTo 0 := by
        rw [Double.saturatesTo_iff, Double.wholeClamped_ofInt (by decide) (by decide)]
        decide
      simpa using hone
    | false =>
      have hnone : (Double.ofInt 0).SaturatesTo 0 :=
        Double.saturatesTo_iff.mpr (Double.wholeClamped_ofInt (by decide) (by decide))
      simpa using hnone
  | box s =>
    have hzero : x.SaturatesTo 0 := saturatesTo_zero (.inr (.inr (.inr ⟨s, hv⟩))) hx
    rw [sameStart_zero_iff hzero, numberOf_of_plain (u := .box s) hv]
    simp
  | _ =>
    have hnan : w.numberOf v = .ok .nan := by rw [numberOf, hv]
    rw [sameStart_nan_iff hnan]
    simp

theorem sameStart_hostValue_iff (h : w.numberOf v = .ok x) :
    w.SameStart x (w.hostValue v) ↔ ¬ w.Misread x v := by
  cases v with
  | box r => exact sameStart_iff h
  | _ =>
    refine iff_of_true (sameStart_self h) fun hmisread => ?_
    cases hmisread

theorem intValue_int {k : Int} (hlow : -2 ^ 31 ≤ k) (hhigh : k ≤ 2 ^ 31 - 1) :
    w.intValue (.int k) = .ok k := by
  refine intValue_eq_ok_iff.mpr ⟨_, Double.ofInt?_of_mem hlow hhigh, ?_⟩
  exact Double.saturatesTo_iff.mpr (Double.wholeClamped_ofInt hlow hhigh)

end World

namespace Search

variable {w : World} {v u : Value}

theorem callBy_congr_start (h : w.intValue v = w.intValue u) (kind : SearchKind) (array : Ref .array)
    (passes : Predicate) (sought : Value) (rest : List Value) :
    callBy kind array passes (sought :: v :: rest) w =
      callBy kind array passes (sought :: u :: rest) w := by
  have hstart : start w kind (sought :: v :: rest) = start w kind (sought :: u :: rest) := by
    rw [start, start, h]
    rfl
  have hscan : scanBy kind array passes (sought :: v :: rest) w =
      scanBy kind array passes (sought :: u :: rest) w := by
    simp only [scanBy, get_bind_apply, hstart]
  cases kind with
  | bare => rfl
  | indexOf => simp only [callBy_indexOf, bind, EStateM.bind, hscan]
  | includes => simp only [callBy_includes, bind, EStateM.bind, hscan]

/-- A search starts at the integer to which the number of its start saturates, and does what it does
from that integer. This holds of all values that have a number, but for the boxes that are misread.
The boxes of plain integers are not among these, but those of typed ones are. -/
theorem start_saturates (w : World) :
    (∀ v x, w.numberOf v = .ok x →
      ((∃ n, x.SaturatesTo n ∧ w.intValue v = .ok n ∧ ∀ kind array passes sought rest,
          callBy kind array passes (sought :: v :: rest) w =
            callBy kind array passes (sought :: .int n :: rest) w) ↔ ¬ w.Misread x v)) ∧
    ∀ r k, (w.boxes.get r).value.plain = .int k → -2 ^ 31 ≤ k → k ≤ 2 ^ 31 - 1 →
      ∀ kind array passes sought rest, callBy kind array passes (sought :: .box r :: rest) w =
        callBy kind array passes (sought :: .int k :: rest) w := by
  constructor
  · intro v x h
    rw [← sameStart_hostValue_iff h]
    constructor
    · rintro ⟨n, hn, hvalue, -⟩
      exact ⟨n, hn, intValue_eq_ok_iff.mp hvalue⟩
    · rintro ⟨n, hn, hvalue⟩
      have hstart : w.intValue v = .ok n := intValue_eq_ok_iff.mpr hvalue
      refine ⟨n, hn, hstart, callBy_congr_start ?_⟩
      rw [hstart, intValue_int hn.mem.1 hn.mem.2]
  · intro r k hk hlow hhigh
    have hnumber : w.numberOf (w.boxes.get r).value = w.numberOf (.int k) := numberOf_of_plain hk
    refine callBy_congr_start ?_
    rw [World.intValue, World.intValue, hostValue, hnumber]
    rfl

def tickets : World := World.empty.afterAll [
  .newPresenter .standard,
  .buildArray (.native (.int true 1)) [3] [.int 7, .int 8, .int 7],
  .newBox .null (.int 1) ⟨0⟩ none,
  .newBox .null (.scalar (.native (.int true 8)) (.int 1)) ⟨0⟩ none,
  .newBox .null (.bool true) ⟨0⟩ none]

/-- Only the plain integer is a start that passes over the first byte. The typed one counts as zero,
and the truth value, which is no number, as one. -/
theorem start_of_boxed_scalar :
    callBy .indexOf ⟨1⟩ (Search.passes · .equal) [.int 7, .box ⟨0⟩] tickets =
        callBy .indexOf ⟨1⟩ (Search.passes · .equal) [.int 7, .int 1] tickets ∧
      (tickets.numberOf (.box ⟨1⟩) = .ok (Double.ofInt 1) ∧
        tickets.Misread (Double.ofInt 1) (.box ⟨1⟩) ∧ tickets.intValue (.box ⟨1⟩) = .ok 0) ∧
      tickets.numberOf (.box ⟨2⟩) = .ok .nan ∧ tickets.intValue (.box ⟨2⟩) = .ok 1 := by
  obtain ⟨hvalues, hboxes⟩ := start_saturates tickets
  have htyped : tickets.numberOf (.box ⟨1⟩) = .ok (Double.ofInt 1) := by decide +kernel
  have hzero : tickets.intValue (.box ⟨1⟩) = .ok 0 := by decide +kernel
  refine ⟨hboxes ⟨0⟩ 1 rfl (by decide) (by decide) .indexOf ⟨1⟩ _ (.int 7) [],
    ⟨htyped, ?_, hzero⟩, by decide +kernel, by decide +kernel⟩
  by_contra hread
  obtain ⟨n, hn, hvalue, -⟩ := (hvalues _ _ htyped).mpr hread
  rw [Double.saturatesTo_iff, Double.wholeClamped_ofInt (by decide) (by decide)] at hn
  rw [hzero, ← hn] at hvalue
  exact absurd hvalue (by decide)

end Search
end ScriptedArrays
