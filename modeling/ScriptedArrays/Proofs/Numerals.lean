import ScriptedArrays.Proofs.WholeNumbers
import ScriptedArrays.Proofs.NumberRange
import ScriptedArrays.Proofs.TextSlots

/-! Numerals in integer cells. The decimal numeral of an integer is read as the double nearest to
it, while the integer itself is taken exactly. So an integer cell makes of the numeral what it makes
of that double, which is the integer itself below 53 bits and may be a neighbour of it beyond. -/

namespace ScriptedArrays

open World

theorem twoTo_mul (j k : Nat) : twoTo (j * k) = twoTo j ^ k := Nat.pow_mul 2 j k

theorem Double.ofInt_of_bound_le {n : Int} (h : bound ≤ n.natAbs) :
    ofInt n = .infinite (decide (n < 0)) := by
  have hfinite : ¬ (ofInt n).isFinite = true := by
    rw [isFinite_ofInt_iff]
    exact Nat.not_lt.mpr h
  rw [ofInt, ofUnits] at hfinite ⊢
  split at hfinite
  · exact absurd rfl hfinite
  · rename_i hno
    rw [dif_neg hno]

namespace Numeral

variable {c : Char} {ds : List Char}

/-- The character is neither blank nor part of another notation, and stands for no other one. -/
def IsPlain (c : Char) : Prop :=
  isBlank c = false ∧ plainDigit c = c ∧ c ≠ '_' ∧ c ≠ 'x' ∧ c ≠ 'X'

instance (c : Char) : Decidable (IsPlain c) := inferInstanceAs (Decidable (_ ∧ _))

theorem plain_of_isDigit (h : c.isDigit = true) : IsPlain c ∧ c.toLower = c ∧ c ≠ '-' ∧ c ≠ '+' := by
  have hall : ∀ k < 10, IsPlain (Char.ofNat (48 + k)) ∧
      (Char.ofNat (48 + k)).toLower = Char.ofNat (48 + k) ∧ Char.ofNat (48 + k) ≠ '-' ∧
      Char.ofNat (48 + k) ≠ '+' := by decide
  have hrange : 48 ≤ c.toNat ∧ c.toNat ≤ 57 := Char.isDigit_iff_toNat.mp h
  have hc : Char.ofNat (48 + (c.toNat - 48)) = c := by
    rw [Nat.add_sub_cancel' hrange.1, Char.ofNat_toNat]
  rw [← hc]
  exact hall (c.toNat - 48) (by omega)

theorem toList_toString_int (n : Int) :
    (toString n).toList = (if n < 0 then ['-'] else []) ++ Nat.toDigits 10 n.natAbs := by
  rw [Int.toString_eq_repr]
  cases n with
  | ofNat m =>
    have hm : ¬ Int.ofNat m < 0 := Int.not_lt.mpr (Int.natCast_nonneg m)
    rw [if_neg hm]
    exact toList_toString m
  | negSucc m =>
    rw [if_pos (Int.negSucc_lt_zero m)]
    show ("-" ++ toString (m + 1)).toList = _
    rw [String.toList_append, toList_toString]
    rfl

theorem readStripped_of_plain {s : List Char} (hne : s ≠ []) (h : ∀ c ∈ s, IsPlain c) :
    readStripped s = .number ((float? s).getD .nan) := by
  rw [readStripped.eq_def]
  split
  · exact absurd rfl hne
  · exact absurd rfl (h 'x' (List.mem_cons_of_mem _ List.mem_cons_self)).2.2.2.1
  · exact absurd rfl (h 'X' (List.mem_cons_of_mem _ List.mem_cons_self)).2.2.2.2
  · rfl

theorem strip_of_plain {s : List Char} (h : ∀ c ∈ s, IsPlain c) : strip s = s := by
  have hdrop : ∀ t : List Char, (∀ c ∈ t, IsPlain c) → t.dropWhile isBlank = t := by
    intro t ht
    rw [List.dropWhile_eq_self_iff]
    intro hl
    simp [(ht _ (List.getElem_mem hl)).1]
  rw [strip, hdrop s h, hdrop _ fun c hc => h c (List.mem_reverse.mp hc), List.reverse_reverse]

theorem joinDigits_of_plain {s : List Char} (h : ∀ c ∈ s, IsPlain c) {previous : Char}
    (hp : previous ≠ '_') : joinDigits previous s = some s := by
  induction s generalizing previous with
  | nil => rw [joinDigits, if_neg hp]
  | cons c s ih =>
    have hc : c ≠ '_' := (h c List.mem_cons_self).2.2.1
    rw [joinDigits, if_neg hc, ih (fun d hd => h d (List.mem_cons_of_mem c hd)) hc]
    simp [hp]

theorem sign_of_ne (h : ∀ c ∈ ds, c ≠ '-' ∧ c ≠ '+') : sign ds = (false, ds) := by
  rw [sign.eq_def]
  split
  · exact absurd rfl (h '-' List.mem_cons_self).1
  · exact absurd rfl (h '+' List.mem_cons_self).2
  · rfl

theorem word?_of_digits (negative : Bool) (h : ∀ c ∈ ds, c.isDigit = true) :
    word? negative ds = none := by
  have hlower : ds.map Char.toLower = ds := by
    rw [List.map_congr_left fun c hc => (plain_of_isDigit (h c hc)).2.1, List.map_id']
  have hletter : ∀ (letter : Char) (word : List Char), letter ∈ word → letter.isDigit = false →
      ds ≠ word := by
    rintro letter word hmem hno rfl
    rw [h letter hmem] at hno
    cases hno
  have hinf : ds ≠ "inf".toList := hletter 'i' _ (by decide) rfl
  have hinfinity : ds ≠ "infinity".toList := hletter 'i' _ (by decide) rfl
  have hnan : ds ≠ "nan".toList := hletter 'n' _ (by decide) rfl
  rw [word?, hlower, if_neg (not_or.mpr ⟨hinf, hinfinity⟩), if_neg hnan]

theorem decimal?_of_digits (negative : Bool) (hne : ds ≠ []) (h : ∀ c ∈ ds, c.isDigit = true) :
    decimal? negative ds = some (scaled negative (Nat.ofDigitChars 10 ds 0) 0) := by
  have htake : ds.takeWhile isDigit = ds := List.takeWhile_eq_self_iff.mpr h
  have hdrop : ds.dropWhile isDigit = [] := List.dropWhile_eq_nil_iff.mpr h
  simp only [decimal?, htake, hdrop, fraction, exponent?]
  simp [hne]
  rfl

theorem pow_le_of_digits {m k : Nat} (hk : 0 < k) (h : k < (toString m).length) : 10 ^ k ≤ m := by
  rw [← String.length_toList, toList_toString] at h
  exact Nat.not_lt.mp fun hlt =>
    Nat.not_le.mpr h ((Nat.length_toDigits_le_iff (by decide) hk).mpr hlt)

theorem bound_le_of_digits {m : Nat} (h : 50 * 8 < (toString m).length) : Double.bound ≤ m :=
  calc Double.bound ≤ twoTo 1024 := Nat.sub_le _ _
    _ = twoTo 128 ^ 8 := twoTo_mul 128 8
    _ ≤ (10 ^ 50) ^ 8 := Nat.pow_le_pow_left (by decide) 8
    _ = 10 ^ (50 * 8) := (pow_mul 10 50 8).symm
    _ ≤ m := pow_le_of_digits (by decide) h

theorem scaled_natAbs (n : Int) : scaled (decide (n < 0)) n.natAbs 0 = Double.ofInt n := by
  have hsmall : ¬ (0 + ((toString n.natAbs).length : Int) < -400) := by omega
  simp only [scaled]
  by_cases h0 : n.natAbs = 0
  · rw [if_pos (.inl h0), Double.ofInt, h0, Nat.zero_mul]
  · rw [if_neg (not_or.mpr ⟨h0, hsmall⟩)]
    by_cases hlarge : 400 < 0 + ((toString n.natAbs).length : Int)
    · rw [if_pos hlarge, Double.ofInt_of_bound_le (bound_le_of_digits (by omega))]
    · rw [if_neg hlarge, Double.ofInt]
      simp

theorem isDigit_of_mem_toDigits (n : Nat) : ∀ c ∈ Nat.toDigits 10 n, c.isDigit = true := fun _ hc =>
  Nat.isDigit_of_mem_toDigits (by decide) (by decide) hc

theorem isPlain_of_mem_toString (n : Int) : ∀ c ∈ (toString n).toList, IsPlain c := by
  rw [toList_toString_int]
  intro c hc
  rcases List.mem_append.mp hc with hsign | hc
  · have hminus : c = '-' := by
      split at hsign
      · exact List.mem_singleton.mp hsign
      · cases hsign
    rw [hminus]
    decide
  · exact (plain_of_isDigit (isDigit_of_mem_toDigits _ c hc)).1

theorem toList_toString_ne_nil (n : Int) : (toString n).toList ≠ [] := by
  rw [toList_toString_int]
  exact List.append_ne_nil_of_right_ne_nil _ Nat.toDigits_ne_nil

theorem sign_toString (n : Int) :
    sign (toString n).toList = (decide (n < 0), Nat.toDigits 10 n.natAbs) := by
  rw [toList_toString_int]
  by_cases hn : n < 0
  · rw [if_pos hn, decide_eq_true hn]
    rfl
  · rw [if_neg hn, decide_eq_false hn]
    exact sign_of_ne fun c hc => (plain_of_isDigit (isDigit_of_mem_toDigits _ c hc)).2.2

theorem float?_toString (n : Int) : float? (toString n).toList = some (Double.ofInt n) := by
  have hplain := isPlain_of_mem_toString n
  have hmap : (toString n).toList.map plainDigit = (toString n).toList := by
    rw [List.map_congr_left fun c hc => (hplain c hc).2.1, List.map_id']
  have hjoin : joinDigits ' ' (toString n).toList = some (toString n).toList :=
    joinDigits_of_plain hplain (by decide)
  have hdigit := isDigit_of_mem_toDigits n.natAbs
  simp only [float?, hmap, hjoin, Option.bind_eq_bind, Option.bind_some, sign_toString]
  rw [word?_of_digits _ hdigit, decimal?_of_digits _ Nat.toDigits_ne_nil hdigit,
    Nat.ofDigitChars_ten_toDigits, scaled_natAbs, Option.none_or]

theorem read_toString (n : Int) : read (toString n) = .number (Double.ofInt n) := by
  rw [read, strip_of_plain (isPlain_of_mem_toString n),
    readStripped_of_plain (toList_toString_ne_nil n) (isPlain_of_mem_toString n), float?_toString,
    Option.getD_some]

end Numeral

namespace Double

variable {n m : Int}

theorem truncate?_ofInt_of_lt (h : n.natAbs < twoTo 53) : (ofInt n).truncate? = some n := by
  rw [ofInt, one, ofUnits_one _ (Format.holds_whole h), truncate?, one,
    Nat.mul_div_cancel _ (twoTo_pos 1074)]
  exact congrArg some (signed_natAbs (fun hn => decide_eq_true hn) fun hn => decide_eq_false (by omega))

theorem le_natAbs_of_truncate? (h : twoTo 53 ≤ n.natAbs) (hm : (ofInt n).truncate? = some m) :
    twoTo 53 ≤ m.natAbs := by
  have hround : twoTo (1073 + 54) ≤ Format.double.round (n.natAbs * one) 1 := by
    refine Format.twoTo_le_round_double (Nat.le_trans (Nat.sub_le _ _) ?_)
    calc twoTo (53 + 1074) = twoTo 53 * twoTo 1074 := twoTo_add 53 1074
      _ ≤ n.natAbs * twoTo 1074 := Nat.mul_le_mul_right _ h
  rw [ofInt, ofUnits] at hm
  split at hm
  · obtain rfl := Option.some.inj hm
    rw [natAbs_signed, one, Nat.le_div_iff_mul_le (twoTo_pos 1074)]
    calc twoTo 53 * twoTo 1074 = twoTo (1073 + 54) := (twoTo_add 53 1074).symm
      _ ≤ _ := hround
  · cases hm

end Double

namespace Content

/-- What an integer cell makes of a number with this whole part: the whole part, if it is in range. -/
def taken? (signed : Bool) (bytes : Nat) (whole : Option Int) : Option Int :=
  whole.filter (inRange signed bytes)

theorem natAbs_lt_of_inRange {signed : Bool} {bytes : Nat} {n : Int} (hb : 8 * bytes ≤ 53)
    (h : inRange signed bytes n = true) : n.natAbs < twoTo 53 := by
  have hhalf : twoTo (8 * bytes - 1) ≤ twoTo 52 := Format.twoTo_le (by omega)
  have hfull : twoTo (8 * bytes) ≤ twoTo 53 := Format.twoTo_le hb
  have hdouble : twoTo 53 = twoTo 52 * 2 := twoTo_succ 52
  have hpos : 0 < twoTo 52 := twoTo_pos 52
  rw [inRange, decide_eq_true_eq] at h
  cases signed with
  | true =>
    simp only [least, greatest, if_true] at h
    omega
  | false =>
    simp only [least, greatest, Bool.false_eq_true, if_false] at h
    omega

theorem taken?_ofInt {signed : Bool} {bytes : Nat} {n : Int}
    (h : n.natAbs < twoTo 53 ∨ 8 * bytes ≤ 53) :
    taken? signed bytes (Double.ofInt n).truncate? = taken? signed bytes (some n) := by
  by_cases hn : n.natAbs < twoTo 53
  · rw [Double.truncate?_ofInt_of_lt hn]
  · have hb : 8 * bytes ≤ 53 := h.resolve_left hn
    have hnone : ∀ m : Int, twoTo 53 ≤ m.natAbs → taken? signed bytes (some m) = none := by
      intro m hm
      refine Option.filter_eq_none_iff.mpr fun k hk hrange => ?_
      obtain rfl := Option.some.inj hk
      exact Nat.not_lt.mpr hm (natAbs_lt_of_inRange hb hrange)
    rw [hnone n (Nat.not_lt.mp hn)]
    cases hm : (Double.ofInt n).truncate? with
    | none => rfl
    | some m => exact hnone m (Double.le_natAbs_of_truncate? (Nat.not_lt.mp hn) hm)

end Content

section Convert

variable {w : World} {truncates : Bool} {slot : SlotType} {signed : Bool} {bytes : Nat} {v : Value}

/-- An integer slot takes the value as the integer, or refuses it if there is none. -/
def World.TakesAs (w : World) (truncates : Bool) (slot : SlotType) (v : Value) : Option Int → Prop
  | some k => convert truncates slot v w = .ok (.scalar (.native slot.cell.content) (.int k)) w
  | none => w.Refuses truncates slot v

/-- The slot converts both values to the same one, or refuses both. -/
def World.AgreesOn (w : World) (truncates : Bool) (slot : SlotType) (v u : Value) : Prop :=
  (∃ x, convert truncates slot v w = .ok x w ∧ convert truncates slot u w = .ok x w) ∨
    (w.Refuses truncates slot v ∧ w.Refuses truncates slot u)

/-- What is converted by its whole part is taken as what the cell makes of it, or refused. -/
theorem toCell_of_wholeNumber (truncates : Bool) (hc : slot.cell.content = .int signed bytes)
    (whole : Option Int)
    (h : Conversion.wholeNumber w v (w.hostValue v).item slot.cell =
      whole.elim (Conversion.refuse v slot.cell "not a finite number") .ok) :
    (∀ k, Content.taken? signed bytes whole = some k → Conversion.toCell w truncates slot.cell v =
        .ok (.scalar (.native slot.cell.content) (.int k))) ∧
      (Content.taken? signed bytes whole = none →
        ∃ reason, Conversion.toCell w truncates slot.cell v = Conversion.refuse v slot.cell reason) := by
  have hcell : Conversion.toCell w truncates slot.cell v =
      Conversion.toInteger w v (w.hostValue v).item slot.cell signed bytes := by
    simp only [Conversion.toCell, hc]
  rw [hcell]
  cases whole with
  | none =>
    refine ⟨fun k hk => absurd hk (Option.some_ne_none k).symm, fun _ => ⟨"not a finite number", ?_⟩⟩
    rw [Conversion.toInteger, h]
    rfl
  | some k =>
    by_cases hk : Content.inRange signed bytes k = true
    · have htaken : Content.taken? signed bytes (some k) = some k :=
        Option.filter_eq_some_iff.mpr ⟨rfl, hk⟩
      rw [htaken]
      refine ⟨fun m hm => ?_, fun hno => absurd hno (Option.some_ne_none k)⟩
      obtain rfl := Option.some.inj hm
      simp only [Conversion.toInteger, h, Option.elim, bind, Except.bind, if_pos (of_decide_eq_true hk)]
    · have htaken : Content.taken? signed bytes (some k) = none := by
        simp [Content.taken?, hk]
      have hrange : ¬ (Content.least signed bytes ≤ k ∧ k ≤ Content.greatest signed bytes) :=
        fun hr => hk (decide_eq_true hr)
      rw [htaken]
      refine ⟨fun m hm => absurd hm (Option.some_ne_none m).symm, fun _ => ?_⟩
      simp only [Conversion.toInteger, h, Option.elim, bind, Except.bind, if_neg hrange]
      exact ⟨_, rfl⟩

theorem takesAs_of_wholeNumber (hc : slot.cell.content = .int signed bytes) (hn : slot.shape = [])
    (hq : w.quotable v = true) {whole : Option Int}
    (h : Conversion.wholeNumber w v (w.hostValue v).item slot.cell =
      whole.elim (Conversion.refuse v slot.cell "not a finite number") .ok) :
    w.TakesAs truncates slot v (Content.taken? signed bytes whole) := by
  obtain ⟨htakes, hrefuses⟩ := toCell_of_wholeNumber truncates hc whole h
  cases htaken : Content.taken? signed bytes whole with
  | none => exact refuses_of_toCell hq hn (hrefuses htaken)
  | some k =>
    have hplain : slot.isNested = false := by simp [SlotType.isNested, hn]
    rw [World.TakesAs, convert_plain (by simp [hplain]) (htakes k htaken),
      if_neg (by simp [CellType.isObject, hc])]
    rfl

theorem wholeNumber_int (slot : SlotType) {n : Int} (hv : (w.hostValue v).item = .int n) :
    Conversion.wholeNumber w v (w.hostValue v).item slot.cell = .ok n := by
  rw [hv]
  rfl

theorem takesAs_int (hc : slot.cell.content = .int signed bytes) (hn : slot.shape = []) {n : Int}
    (hv : (w.hostValue v).item = .int n) (hq : w.quotable v = true) :
    w.TakesAs truncates slot v (Content.taken? signed bytes (some n)) :=
  takesAs_of_wholeNumber hc hn hq (wholeNumber_int slot hv)

theorem fails_int (hc : slot.cell.content = .int signed bytes) {n : Int}
    (hv : (w.hostValue v).item = .int n) (hq : w.quotable v = false)
    (hout : slot.shape ≠ [] ∨ Content.taken? signed bytes (some n) = none) :
    convert truncates slot v w = .error (.host .value) w := by
  by_cases hn : slot.shape = []
  · have hwhole := wholeNumber_int slot hv
    exact fails_of_toCell hq hn ((toCell_of_wholeNumber truncates hc (some n) hwhole).2
      (hout.resolve_left (not_not.mpr hn)))
  · exact fails_of_isPrimitive hq (by simpa [SlotType.isNested] using hn) (hv ▸ True.intro)

theorem takesAs_text (hc : slot.cell.content = .int signed bytes) (hn : slot.shape = []) {s : String}
    {x : Double} (hv : (w.hostValue v).item = .text s) (hx : Numeral.read s = .number x) :
    w.TakesAs truncates slot v (Content.taken? signed bytes x.truncate?) := by
  have hnumber : w.numberOf (.text s) = .ok x := by
    show textNumber s = _
    rw [textNumber, hx]
  refine takesAs_of_wholeNumber hc hn (quotable_of_text hv) ?_
  rw [hv, Conversion.wholeNumber, hnumber]
  cases htruncate : x.truncate? <;>
    simp only [Conversion.lift, bind, Except.bind, htruncate, Option.elim]

theorem World.TakesAs.refuses_iff {j : Option Int} (hv : w.TakesAs truncates slot v j) :
    w.Refuses truncates slot v ↔ j = none := by
  cases j with
  | none => exact iff_of_true hv rfl
  | some k =>
    refine iff_of_false ?_ nofun
    rintro ⟨_, _, hf⟩
    rw [World.TakesAs, hf] at hv
    cases hv

theorem World.TakesAs.ok_iff {j : Option Int} (hv : w.TakesAs truncates slot v j) {x : Value} :
    convert truncates slot v w = .ok x w ↔
      ∃ k, j = some k ∧ x = .scalar (.native slot.cell.content) (.int k) := by
  cases j with
  | none =>
    obtain ⟨_, _, hf⟩ := hv
    rw [hf]
    exact iff_of_false nofun nofun
  | some k =>
    rw [World.TakesAs] at hv
    rw [hv]
    constructor
    · intro h
      cases h
      exact ⟨k, rfl, rfl⟩
    · rintro ⟨_, ⟨⟩, rfl⟩
      rfl

theorem agreesOn_iff {u : Value} {j k : Option Int} (hv : w.TakesAs truncates slot v j)
    (hu : w.TakesAs truncates slot u k) : w.AgreesOn truncates slot v u ↔ j = k := by
  simp only [World.AgreesOn, hv.ok_iff, hu.ok_iff, hv.refuses_iff, hu.refuses_iff]
  constructor
  · rintro (⟨x, ⟨a, rfl, rfl⟩, b, rfl, hx⟩ | ⟨rfl, rfl⟩)
    · cases hx
      rfl
    · rfl
  · rintro rfl
    cases j with
    | none => exact .inr ⟨rfl, rfl⟩
    | some a => exact .inl ⟨_, ⟨a, rfl, rfl⟩, a, rfl, rfl⟩

end Convert

/-- The numeral of an integer is taken as the whole part of the nearest double, and the integer as
itself. They are converted alike if one of the integer and the type has at most 53 bits. An integer with
too many digits to be written has a numeral that is refused, and is not even refused itself. -/
theorem convert_numeral {w : World} (truncates : Bool) {slot : SlotType} {signed : Bool} {bytes : Nat}
    (hc : slot.cell.content = .int signed bytes) (n : Int) {s u : Value}
    (hs : (w.hostValue s).item = .text (toString n)) (hu : (w.hostValue u).item = .int n) :
    (slot.shape = [] →
      w.TakesAs truncates slot s (Content.taken? signed bytes (Double.ofInt n).truncate?)) ∧
    (w.quotable u = true →
      (slot.shape = [] → w.TakesAs truncates slot u (Content.taken? signed bytes (some n))) ∧
      (w.AgreesOn truncates slot s u ↔ slot.shape ≠ [] ∨
        Content.taken? signed bytes (Double.ofInt n).truncate? = Content.taken? signed bytes (some n)) ∧
      (n.natAbs < twoTo 53 ∨ 8 * bytes ≤ 53 → w.AgreesOn truncates slot s u)) ∧
    (w.quotable u = false → slot.shape ≠ [] ∨ Content.taken? signed bytes (some n) = none →
      convert truncates slot u w = .error (.host .value) w) ∧
    (n.natAbs < 10 ^ digitLimit → w.quotable u = true) := by
  have htext : slot.shape = [] →
      w.TakesAs truncates slot s (Content.taken? signed bytes (Double.ofInt n).truncate?) := fun hn =>
    takesAs_text hc hn hs (Numeral.read_toString n)
  refine ⟨htext, fun hq => ?_, fun hq hout => fails_int hc hu hq hout, quotable_of_int hu⟩
  have hagrees : w.AgreesOn truncates slot s u ↔ slot.shape ≠ [] ∨
      Content.taken? signed bytes (Double.ofInt n).truncate? = Content.taken? signed bytes (some n) := by
    by_cases hn : slot.shape = []
    · rw [or_iff_right (not_not.mpr hn)]
      exact agreesOn_iff (htext hn) (takesAs_int hc hn hu hq)
    · have hnested : slot.isNested = true := by simpa [SlotType.isNested] using hn
      refine iff_of_true (.inr ⟨?_, ?_⟩) (.inl hn)
      · exact refuses_of_isPrimitive (quotable_of_text hs) hnested (hs ▸ True.intro)
      · exact refuses_of_isPrimitive hq hnested (hu ▸ True.intro)
  exact ⟨fun hn => takesAs_int hc hn hu hq, hagrees,
    fun h => hagrees.mpr (.inr (Content.taken?_ofInt h))⟩

/-- The greatest integer of eight bytes is taken, and its numeral is refused: the nearest double is
out of range. The numeral of a small integer is converted like the integer. -/
theorem greatest_numeral_refused :
    convert false ⟨.native (.int true 8), []⟩ (.int 9223372036854775807) World.empty =
      .ok (.scalar (.native (.int true 8)) (.int 9223372036854775807)) World.empty ∧
    World.empty.Refuses false ⟨.native (.int true 8), []⟩ (.text "9223372036854775807") ∧
    World.empty.AgreesOn false ⟨.native (.int true 8), []⟩ (.text "-300") (.int (-300)) := by
  have hcell : (SlotType.mk (.native (.int true 8)) []).cell.content = .int true 8 := rfl
  have hgreatest : toString (9223372036854775807 : Int) = "9223372036854775807" := by decide +kernel
  have hsmall : toString (-300 : Int) = "-300" := by decide +kernel
  have hlimit : ∀ i : Int, i.natAbs < Double.bound → i.natAbs < 10 ^ digitLimit := fun i hi =>
    Nat.lt_of_lt_of_le hi Double.bound_le_pow
  have hbits : (-300 : Int).natAbs < twoTo 53 := by decide
  have hbound : (9223372036854775807 : Int).natAbs < Double.bound :=
    Nat.lt_of_lt_of_le (by decide) (Double.twoTo_le_bound (k := 63) (by decide))
  have hbound' : (-300 : Int).natAbs < Double.bound :=
    Nat.lt_of_lt_of_le hbits (Double.twoTo_le_bound (by decide))
  have hdouble : Content.taken? true 8 (Double.ofInt 9223372036854775807).truncate? = none := by
    decide +kernel
  obtain ⟨htext, hint, -, hquotable⟩ := convert_numeral (w := World.empty) false hcell
    9223372036854775807 (s := .text "9223372036854775807") (u := .int 9223372036854775807)
    (congrArg Value.text hgreatest.symm) rfl
  obtain ⟨-, hagrees, -, hquotable'⟩ := convert_numeral (w := World.empty) false hcell (-300)
    (s := .text "-300") (u := .int (-300)) (congrArg Value.text hsmall.symm) rfl
  rw [hdouble] at htext
  exact ⟨(hint (hquotable (hlimit _ hbound))).1 rfl, htext rfl,
    (hagrees (hquotable' (hlimit _ hbound'))).2.2 (.inl hbits)⟩

end ScriptedArrays
