import ScriptedArrays.Proofs.NumeralSpellings

/-! Numerals of scripts. A text is read as a number if it is blank or a numeric literal of scripts,
and an integer literal of up to 53 bits gives the integer. Two things stray from that. More is read
than the literals: words for infinity in other spellings, underscores between digits and digits of
other scripts. And a hexadecimal literal beyond all finite doubles is not read at all. -/

namespace ScriptedArrays
namespace Numeral

section

variable {s t u sgn : List Char} {negative : Bool}

theorem sign_append (hs : sgn ∈ signs) (h : ∀ c ∈ s.head?, c ≠ '-' ∧ c ≠ '+') :
    sign (sgn ++ s) = (decide (sgn = ['-']), s) := by
  simp only [signs, List.mem_cons, List.not_mem_nil, or_false] at hs
  rcases hs with rfl | rfl | rfl
  · cases s with
    | nil => rfl
    | cons c s =>
      obtain ⟨hminus, hplus⟩ := h c rfl
      rw [List.nil_append, sign.eq_def]
      split
      · next h => exact absurd (List.cons.inj h).1 hminus
      · next h => exact absurd (List.cons.inj h).1 hplus
      · rfl
  · rfl
  · rfl

theorem sign_spec (u : List Char) : ∃ sgn ∈ signs, u = sgn ++ (sign u).2 := by
  rw [sign.eq_def]
  split
  · exact ⟨['-'], by decide, rfl⟩
  · exact ⟨['+'], by decide, rfl⟩
  · exact ⟨[], by decide, rfl⟩

theorem IsDigits.head (h : IsDigits s) : ∀ c ∈ s.head?, c ≠ '-' ∧ c ≠ '+' := fun c hc =>
  (plain_of_isDigit (h.2 c (List.mem_of_mem_head? hc))).2.2

theorem exponent?_isSome_iff : (exponent? s).isSome ↔ IsExponent s := by
  constructor
  · intro h
    cases s with
    | nil => exact .absent
    | cons mark rest =>
      obtain ⟨sgn, hs, hrest⟩ := sign_spec rest
      simp only [exponent?] at h
      split at h
      · next hcond =>
        simp only [Bool.and_eq_true, Bool.or_eq_true, decide_eq_true_eq, Bool.not_eq_true',
          List.isEmpty_eq_false_iff, List.all_eq_true] at hcond
        rw [hrest]
        exact .written hcond.1.1 hs ⟨hcond.1.2, hcond.2⟩
      · cases h
  · rintro (- | ⟨hmark, hs, hd⟩)
    · rfl
    · have hall : (List.all _ isDigit) = true := List.all_eq_true.mpr hd.2
      simp only [exponent?, sign_append hs hd.head, hall, List.isEmpty_eq_false_iff.mpr hd.1]
      rw [if_pos (by simpa using hmark)]
      rfl

theorem IsExponent.head (h : IsExponent s) : ∀ c ∈ s.head?, isDigit c = false ∧ c ≠ '.' := by
  cases h with
  | absent => nofun
  | written hmark =>
    intro c hc
    obtain rfl := Option.some.inj hc
    rcases hmark with rfl | rfl <;> decide

theorem span_append {a : List Char} (ha : ∀ c ∈ a, c.isDigit = true)
    (hs : ∀ c ∈ s.head?, isDigit c = false) :
    (a ++ s).takeWhile isDigit = a ∧ (a ++ s).dropWhile isDigit = s := by
  have hdigits : ∀ c ∈ a, isDigit c = true := ha
  rw [List.takeWhile_append_of_pos hdigits, List.dropWhile_append_of_pos hdigits]
  cases s with
  | nil => simp
  | cons c s =>
    have hc : ¬ isDigit c = true := by simp [hs c rfl]
    rw [List.takeWhile_cons_of_neg hc, List.dropWhile_cons_of_neg hc]
    simp

theorem fraction_of_ne (h : ∀ c ∈ s.head?, c ≠ '.') : fraction s = ([], s) := by
  rw [fraction.eq_def]
  split
  · exact absurd rfl (h '.' rfl)
  · rfl

theorem decimal?_whole {a : List Char} (ha : IsDigits a) (he : IsExponent s) :
    decimal? negative (a ++ s) = (exponent? s).map (scaled negative (natOf a)) := by
  obtain ⟨htake, hdrop⟩ := span_append ha.2 fun c hc => (he.head c hc).1
  have hfraction : fraction s = ([], s) := fraction_of_ne fun c hc => (he.head c hc).2
  simp [decimal?, htake, hdrop, hfraction, ha.1]

theorem decimal?_point {a b : List Char} (ha : ∀ c ∈ a, c.isDigit = true)
    (hb : ∀ c ∈ b, c.isDigit = true) (hne : a ≠ [] ∨ b ≠ []) (he : IsExponent s) :
    decimal? negative (a ++ '.' :: (b ++ s)) =
      (exponent? s).map fun e => scaled negative (natOf (a ++ b)) (e - b.length) := by
  have hpoint : ∀ c ∈ ('.' :: (b ++ s)).head?, isDigit c = false := by
    rintro _ ⟨⟩
    decide
  obtain ⟨htake, hdrop⟩ := span_append ha hpoint
  obtain ⟨hplaces, hrest⟩ := span_append hb fun c hc => (he.head c hc).1
  have hsome : ¬ (a.isEmpty && b.isEmpty) = true := by
    rw [Bool.and_eq_true, List.isEmpty_iff, List.isEmpty_iff]
    exact fun h => hne.elim (absurd h.1) (absurd h.2)
  simp only [decimal?, htake, hdrop, fraction, hplaces, hrest]
  rw [if_neg hsome]

/-- The decimals that are read. -/
theorem decimal?_isSome_iff (negative : Bool) (s : List Char) :
    (decimal? negative s).isSome ↔ IsDecimal s := by
  constructor
  · intro h
    have hs : s.takeWhile isDigit ++ s.dropWhile isDigit = s := List.takeWhile_append_dropWhile
    have ha : ∀ c ∈ s.takeWhile isDigit, isDigit c = true := fun c hc => List.mem_takeWhile_imp hc
    simp only [decimal?] at h
    generalize s.takeWhile isDigit = a at hs ha h
    generalize s.dropWhile isDigit = rest at hs h
    subst hs
    split at h
    · cases h
    · next hne =>
      rw [Option.isSome_map, exponent?_isSome_iff] at h
      rw [Bool.and_eq_true, List.isEmpty_iff, List.isEmpty_iff, not_and_or] at hne
      by_cases hpoint : ∃ r, rest = '.' :: r
      · obtain ⟨r, rfl⟩ := hpoint
        have hb : ∀ c ∈ r.takeWhile isDigit, c.isDigit = true := fun c hc =>
          List.mem_takeWhile_imp hc
        have hdecimal := IsDecimal.point ha hb hne h
        rwa [show (fraction ('.' :: r)).2 = r.dropWhile isDigit from rfl,
          List.takeWhile_append_dropWhile] at hdecimal
      · have hfraction : fraction rest = ([], rest) := by
          refine fraction_of_ne ?_
          rintro c hc rfl
          obtain ⟨r, hr⟩ := List.head?_eq_some_iff.mp hc
          exact hpoint ⟨r, hr⟩
        rw [hfraction] at h hne
        exact .whole ⟨hne.resolve_right (absurd rfl), ha⟩ h
  · rintro (⟨ha, he⟩ | ⟨ha, hb, hne, he⟩)
    · rw [decimal?_whole ha he, Option.isSome_map, exponent?_isSome_iff]
      exact he
    · rw [decimal?_point ha hb hne he, Option.isSome_map, exponent?_isSome_iff]
      exact he

theorem isNaN_ofUnits (n d : Nat) : (Double.ofUnits negative n d).isNaN = false := by
  rw [Double.ofUnits]
  split <;> rfl

theorem isNaN_ofInt (i : Int) : (Double.ofInt i).isNaN = false := by
  rw [Double.ofInt]
  exact isNaN_ofUnits _ _

theorem isNaN_scaled (n : Nat) (e : Int) : (scaled negative n e).isNaN = false := by
  simp only [scaled]
  split
  · exact isNaN_ofUnits 0 1
  · split
    · rfl
    · exact isNaN_ofUnits _ _

theorem isNaN_decimal? {x : Double} (h : decimal? negative s = some x) : x.isNaN = false := by
  simp only [decimal?] at h
  split at h
  · cases h
  · obtain ⟨e, -, rfl⟩ := Option.map_eq_some_iff.mp h
    exact isNaN_scaled _ _

end

section

variable {c : Char} {s sgn : List Char} {negative : Bool}

theorem isAlpha_bounds (h : c.isAlpha = true) : 65 ≤ c.toNat ∧ c.toNat ≤ 122 := by
  simp only [Char.isAlpha, Char.isUpper, Char.isLower, Bool.or_eq_true, Bool.and_eq_true,
    decide_eq_true_eq, ge_iff_le, UInt32.le_iff_toNat_le] at h
  rcases h with ⟨hlow, hhigh⟩ | ⟨hlow, hhigh⟩
  · exact ⟨hlow, Nat.le_trans hhigh (by decide)⟩
  · exact ⟨Nat.le_trans (by decide) hlow, hhigh⟩

theorem isOwn_of_isAlpha (h : c.isAlpha = true) : IsOwn c := by
  refine isOwn_of_lt (Nat.lt_of_le_of_lt (isAlpha_bounds h).2 (by decide)) ?_
  rintro rfl
  cases h

theorem not_isDigit_of_isAlpha (h : c.isAlpha = true) : c.isDigit = false := by
  by_contra hno
  have hrange : 48 ≤ c.toNat ∧ c.toNat ≤ 57 :=
    Char.isDigit_iff_toNat.mp (Bool.eq_true_of_not_eq_false hno)
  have := (isAlpha_bounds h).1
  omega

theorem IsWord.letters (h : IsWord s) : ∀ c ∈ s, c.isAlpha = true ∧ c ≠ 'x' ∧ c ≠ 'X' := by
  intro c hc
  have hmem : c.toLower ∈ s.map Char.toLower := List.mem_map_of_mem hc
  have hletter : c.toLower ∈ "infinity".toList := by
    rcases h with h | h
    · rw [h] at hmem
      exact (show "inf".toList ⊆ "infinity".toList by decide) hmem
    · rwa [h] at hmem
  have hall : ∀ d ∈ "infinity".toList, d.isLower = true := List.all_eq_true.mp (by decide)
  refine ⟨?_, ?_, ?_⟩
  · rw [← Char.isLower_toLower_eq_isAlpha]
    exact hall _ hletter
  · rintro rfl
    revert hletter
    decide
  · rintro rfl
    revert hletter
    decide

theorem IsWord.head (h : IsWord s) : ∃ c r, s = c :: r ∧ c.isAlpha = true := by
  cases s with
  | nil => rcases h with h | h <;> cases h
  | cons c r => exact ⟨c, r, rfl, (h.letters c List.mem_cons_self).1⟩

theorem IsWord.sign_append (h : IsWord s) (hs : sgn ∈ signs) :
    sign (sgn ++ s) = (decide (sgn = ['-']), s) := by
  refine Numeral.sign_append hs fun c hc => ?_
  have hletter := (h.letters c (List.mem_of_mem_head? hc)).1
  constructor <;> rintro rfl <;> cases hletter

theorem word?_of_isWord (h : IsWord s) : word? negative s = some (.infinite negative) := by
  rw [word?]
  exact if_pos h

theorem isWord_of_word? {x : Double} (h : word? negative s = some x) (hx : x.isNaN = false) :
    IsWord s := by
  rw [word?] at h
  split at h
  · next hword => exact hword
  · split at h
    · cases h
      cases hx
    · cases h

theorem IsDecimal.head (h : IsDecimal s) : ∃ c r, s = c :: r ∧ (c.isDigit = true ∨ c = '.') := by
  rcases h with ⟨⟨hne, ha⟩, he⟩ | ⟨ha, hb, hne, he⟩
  · obtain ⟨c, a, rfl⟩ := List.exists_cons_of_ne_nil hne
    exact ⟨c, _, rfl, .inl (ha c List.mem_cons_self)⟩
  · rename_i a b e
    cases a with
    | nil => exact ⟨'.', _, rfl, .inr rfl⟩
    | cons c a => exact ⟨c, _, rfl, .inl (ha c List.mem_cons_self)⟩

theorem IsDecimal.sign_append (h : IsDecimal s) (hs : sgn ∈ signs) :
    sign (sgn ++ s) = (decide (sgn = ['-']), s) := by
  refine Numeral.sign_append hs fun c hc => ?_
  obtain ⟨d, r, rfl, hd⟩ := h.head
  obtain rfl := Option.some.inj hc
  rcases hd with hd | rfl
  · exact (plain_of_isDigit hd).2.2
  · decide

theorem IsDecimal.word?_eq_none (h : IsDecimal s) : word? negative s = none := by
  obtain ⟨c, r, rfl, hc⟩ := h.head
  have hlower : c.toLower = c ∧ c ≠ 'i' ∧ c ≠ 'n' := by
    rcases hc with hc | rfl
    · refine ⟨(plain_of_isDigit hc).2.1, ?_, ?_⟩ <;> rintro rfl <;> cases hc
    · decide
  have hne : ∀ d rest, c ≠ d → (c :: r).map Char.toLower ≠ d :: rest := by
    intro d rest hd h
    rw [List.map_cons, hlower.1] at h
    exact hd (List.cons.inj h).1
  have hinf : (c :: r).map Char.toLower ≠ "inf".toList := hne 'i' _ hlower.2.1
  have hinfinity : (c :: r).map Char.toLower ≠ "infinity".toList := hne 'i' _ hlower.2.1
  have hnan : (c :: r).map Char.toLower ≠ "nan".toList := hne 'n' _ hlower.2.2
  rw [word?, if_neg (not_or.mpr ⟨hinf, hinfinity⟩), if_neg hnan]

end

inductive Reads : List Char → Prop
  | blank : Reads []
  | decimal {t sgn s : List Char} (ht : Respells t (sgn ++ s)) (hs : sgn ∈ signs) (h : IsDecimal s) :
      Reads t
  | word {sgn s : List Char} (hs : sgn ∈ signs) (h : IsWord s) : Reads (sgn ++ s)
  | hexadecimal {x : Char} {h u : List Char} {n : Nat} (hx : x = 'x' ∨ x = 'X') (hne : h ≠ [])
      (hu : RespellsHex h u) (hn : Denotes 16 u n) (hlt : n < Double.bound) : Reads ('0' :: x :: h)

section

variable {c x : Char} {s t h sgn : List Char} {n : Nat}

/-- A decimal has no other characters. -/
theorem IsDecimal.not_mem (hd : IsDecimal s) (hx : x = 'x' ∨ x = 'X') (hs : sgn ∈ signs) :
    x ∉ sgn ++ s := by
  have hdigit : ∀ ds : List Char, (∀ c ∈ ds, c.isDigit = true) → x ∉ ds := by
    intro ds hds hmem
    rcases hx with rfl | rfl <;> cases hds _ hmem
  have hsign : ∀ sgn ∈ signs, x ∉ sgn := by
    intro sgn hs hmem
    rcases hx with rfl | rfl <;> revert hmem <;> revert sgn <;> decide
  have hexponent : ∀ e, IsExponent e → x ∉ e := by
    rintro _ (- | ⟨hmark, hs, hds⟩) hmem
    · cases hmem
    · rcases List.mem_cons.mp hmem with rfl | hmem
      · rcases hx with rfl | rfl <;> rcases hmark with h | h <;> cases h
      · exact (List.mem_append.mp hmem).elim (hsign _ hs) (hdigit _ hds.2)
  intro hmem
  rcases List.mem_append.mp hmem with hmem | hmem
  · exact hsign sgn hs hmem
  rcases hd with ⟨ha, he⟩ | ⟨ha, hb, -, he⟩
  · exact (List.mem_append.mp hmem).elim (hdigit _ ha.2) (hexponent _ he)
  · rcases List.mem_append.mp hmem with hmem | hmem
    · exact hdigit _ ha hmem
    rcases List.mem_cons.mp hmem with rfl | hmem
    · rcases hx with h | h <;> cases h
    · exact (List.mem_append.mp hmem).elim (hdigit _ hb) (hexponent _ he)

theorem isOwn_of_isWord (hs : sgn ∈ signs) (h : IsWord s) : ∀ c ∈ sgn ++ s, IsOwn c := by
  intro c hc
  rcases List.mem_append.mp hc with hc | hc
  · exact isOwn_of_mem_signs hs c hc
  · exact isOwn_of_isAlpha (h.letters c hc).1

theorem not_isDigit_of_isWord (hs : sgn ∈ signs) (h : IsWord s) :
    ∀ c ∈ sgn ++ s, c.isDigit = false := by
  have hsign : ∀ sgn ∈ signs, sgn.all (·.isDigit = false) = true := by decide
  intro c hc
  rcases List.mem_append.mp hc with hc | hc
  · exact of_decide_eq_true (List.all_eq_true.mp (hsign sgn hs) c hc)
  · exact not_isDigit_of_isAlpha (h.letters c hc).1

theorem float?_of_respells (ht : Respells t (sgn ++ s)) :
    float? t = (word? (sign (sgn ++ s)).1 (sign (sgn ++ s)).2).or
      (decimal? (sign (sgn ++ s)).1 (sign (sgn ++ s)).2) := by
  rw [float?, joinDigits_eq_some_iff.mpr ht]
  rfl

theorem float?_of_isWord (hs : sgn ∈ signs) (hw : IsWord s) :
    float? (sgn ++ s) = some (.infinite (decide (sgn = ['-']))) := by
  rw [float?_of_respells (respells_self (isOwn_of_isWord hs hw)), hw.sign_append hs,
    word?_of_isWord hw, Option.some_or]

theorem exists_respells_of_float? {y : Double} (h : float? t = some y) : ∃ u, Respells t u ∧
    (word? (sign u).1 (sign u).2).or (decimal? (sign u).1 (sign u).2) = some y := by
  obtain ⟨u, hu, h⟩ := Option.bind_eq_some_iff.mp h
  exact ⟨u, joinDigits_eq_some_iff.mp hu, h⟩

/-- What is read without a prefix: a decimal in some spelling, or a word. -/
theorem float?_reads : (∃ y, float? t = some y ∧ y.isNaN = false) ↔
    (∃ sgn s, Respells t (sgn ++ s) ∧ sgn ∈ signs ∧ IsDecimal s) ∨
      ∃ sgn s, t = sgn ++ s ∧ sgn ∈ signs ∧ IsWord s := by
  constructor
  · rintro ⟨y, hy, hnan⟩
    obtain ⟨u, ht, hy⟩ := exists_respells_of_float? hy
    obtain ⟨sgn, hs, hu⟩ := sign_spec u
    cases hword : word? (sign u).1 (sign u).2 with
    | some z =>
      rw [hword] at hy
      obtain rfl : z = y := Option.some.inj hy
      have hw := isWord_of_word? hword hnan
      have hown : t = u := ht.eq_of_not_isDigit (hu ▸ not_isDigit_of_isWord hs hw)
      exact .inr ⟨sgn, _, hown.trans hu, hs, hw⟩
    | none =>
      rw [hword, Option.none_or] at hy
      have hd := (decimal?_isSome_iff _ _).mp (Option.isSome_iff_exists.mpr ⟨y, hy⟩)
      exact .inl ⟨sgn, _, hu ▸ ht, hs, hd⟩
  · rintro (⟨sgn, s, ht, hs, hd⟩ | ⟨sgn, s, rfl, hs, hw⟩)
    · obtain ⟨y, hy⟩ := Option.isSome_iff_exists.mp
        ((decimal?_isSome_iff (decide (sgn = ['-'])) s).mpr hd)
      refine ⟨y, ?_, isNaN_decimal? hy⟩
      rw [float?_of_respells ht, hd.sign_append hs, hd.word?_eq_none, Option.none_or, hy]
    · exact ⟨_, float?_of_isWord hs hw, rfl⟩

theorem readStripped_hex (hx : x = 'x' ∨ x = 'X') : readStripped ('0' :: x :: h) = ofHex h := by
  rcases hx with rfl | rfl <;> rfl

theorem readStripped_of_ne (hne : t ≠ []) (hx : ∀ x h, (x = 'x' ∨ x = 'X') → t ≠ '0' :: x :: h) :
    readStripped t = .number ((float? t).getD .nan) := by
  rw [readStripped.eq_def]
  split
  · exact absurd rfl hne
  · exact absurd rfl (hx 'x' _ (.inl rfl))
  · exact absurd rfl (hx 'X' _ (.inr rfl))
  · rfl

theorem ofHex_isNumber : (∃ y, ofHex h = .number y ∧ y.isNaN = false) ↔
    ∃ n, hex? h = some n ∧ n < Double.bound := by
  cases hn : hex? h with
  | none =>
    rw [ofHex_of_none hn]
    constructor
    · rintro ⟨_, ⟨⟩, hnan⟩
      cases hnan
    · rintro ⟨_, ⟨⟩, -⟩
  | some n =>
    rw [ofHex_of_some hn]
    by_cases hlt : n < Double.bound
    · rw [if_pos hlt]
      exact iff_of_true ⟨_, rfl, isNaN_ofInt n⟩ ⟨n, rfl, hlt⟩
    · rw [if_neg hlt]
      constructor
      · rintro ⟨_, ⟨⟩, -⟩
      · rintro ⟨_, ⟨⟩, hlt'⟩
        exact absurd hlt' hlt

/-- A text with the prefix is read only by its digits. -/
theorem reads_hex_iff (hx : x = 'x' ∨ x = 'X') :
    Reads ('0' :: x :: h) ↔ ∃ n, hex? h = some n ∧ n < Double.bound := by
  constructor
  · intro hreads
    have hmem : x ∈ '0' :: x :: h := List.mem_cons_of_mem _ List.mem_cons_self
    have hown : IsOwn x := by rcases hx with rfl | rfl <;> exact isOwn_of_lt (by decide) (by decide)
    generalize ht : '0' :: x :: h = t at hreads hmem
    cases hreads with
    | blank => cases ht
    | decimal hu hs hd => exact absurd (hu.mem hmem hown) (hd.not_mem hx hs)
    | word hs hw =>
      rcases List.mem_append.mp hmem with hmem | hmem
      · have hsign : ∀ sgn ∈ signs, 'x' ∉ sgn ∧ 'X' ∉ sgn := by decide
        rcases hx with rfl | rfl
        · exact absurd hmem (hsign _ hs).1
        · exact absurd hmem (hsign _ hs).2
      · have hletters := (hw.letters x hmem).2
        exact absurd hx (not_or.mpr hletters)
    | hexadecimal hx' hne hu hn hlt =>
      cases ht
      exact ⟨_, hex?_eq_some_iff.mpr ⟨hne, _, hu, hn⟩, hlt⟩
  · rintro ⟨n, hn, hlt⟩
    obtain ⟨hne, u, hu, hn⟩ := hex?_eq_some_iff.mp hn
    exact .hexadecimal hx hne hu hn hlt

/-- What is read as a number. -/
theorem readStripped_isNumber :
    (∃ y, readStripped t = .number y ∧ y.isNaN = false) ↔ Reads t := by
  by_cases hne : t = []
  · subst hne
    exact iff_of_true ⟨.zero, rfl, rfl⟩ .blank
  by_cases hhex : ∃ x h, (x = 'x' ∨ x = 'X') ∧ t = '0' :: x :: h
  · obtain ⟨x, h, hx, rfl⟩ := hhex
    rw [readStripped_hex hx, ofHex_isNumber, reads_hex_iff hx]
  · rw [readStripped_of_ne hne fun x h hx ht => hhex ⟨x, h, hx, ht⟩]
    have hfloat : (∃ y, Reading.number ((float? t).getD .nan) = .number y ∧ y.isNaN = false) ↔
        ∃ y, float? t = some y ∧ y.isNaN = false := by
      cases float? t with
      | none =>
        constructor
        · rintro ⟨_, ⟨⟩, hnan⟩
          cases hnan
        · rintro ⟨_, ⟨⟩, -⟩
      | some y =>
        constructor
        · rintro ⟨_, ⟨⟩, hnan⟩
          exact ⟨y, rfl, hnan⟩
        · rintro ⟨_, ⟨⟩, hnan⟩
          exact ⟨y, rfl, hnan⟩
    rw [hfloat, float?_reads]
    constructor
    · rintro (⟨sgn, s, ht, hs, hd⟩ | ⟨sgn, s, rfl, hs, hw⟩)
      · exact .decimal ht hs hd
      · exact .word hs hw
    · rintro (- | ⟨ht, hs, hd⟩ | ⟨hs, hw⟩ | ⟨hx, -, -, -, -⟩)
      · exact absurd rfl hne
      · exact .inl ⟨_, _, ht, hs, hd⟩
      · exact .inr ⟨_, _, rfl, hs, hw⟩
      · exact absurd ⟨_, _, hx, rfl⟩ hhex

end

section

variable {c x : Char} {s t h u sgn : List Char} {n : Nat}

theorem IsDigits.isOwn (hd : IsDigits s) : ∀ c ∈ s, IsOwn c := fun c hc =>
  isOwn_of_isDigit (hd.2 c hc)

theorem IsExponent.isOwn (he : IsExponent s) : ∀ c ∈ s, IsOwn c := by
  cases he with
  | absent => nofun
  | written hmark hs hd =>
    refine List.forall_mem_cons.mpr ⟨?_, List.forall_mem_append.mpr
      ⟨isOwn_of_mem_signs hs, hd.isOwn⟩⟩
    rcases hmark with rfl | rfl <;> exact isOwn_of_lt (by decide) (by decide)

theorem IsDecimal.isOwn (hd : IsDecimal s) : ∀ c ∈ s, IsOwn c := by
  cases hd with
  | whole ha he => exact List.forall_mem_append.mpr ⟨ha.isOwn, he.isOwn⟩
  | point ha hb hne he =>
    have hpoint : IsOwn '.' := isOwn_of_lt (by decide) (by decide)
    have hrest := List.forall_mem_append.mpr ⟨fun c hc => isOwn_of_isDigit (hb c hc), he.isOwn⟩
    exact List.forall_mem_append.mpr ⟨fun c hc => isOwn_of_isDigit (ha c hc),
      List.forall_mem_cons.mpr ⟨hpoint, hrest⟩⟩

theorem isWord_infinity : IsWord "Infinity".toList := .inr (by decide)

theorem isOwn_prefix (hx : x = 'x' ∨ x = 'X') (hh : ∀ c ∈ h, IsOwn c) :
    ∀ c ∈ '0' :: x :: h, IsOwn c := by
  have hzero : IsOwn '0' := isOwn_of_lt (by decide) (by decide)
  have hown : IsOwn x := by rcases hx with rfl | rfl <;> exact isOwn_of_lt (by decide) (by decide)
  exact List.forall_mem_cons.mpr ⟨hzero, List.forall_mem_cons.mpr ⟨hown, hh⟩⟩

theorem IsLiteral.isOwn (hl : IsLiteral t) : ∀ c ∈ t, IsOwn c := by
  cases hl with
  | decimal hs hd => exact List.forall_mem_append.mpr ⟨isOwn_of_mem_signs hs, hd.isOwn⟩
  | infinity hs => exact isOwn_of_isWord hs isWord_infinity
  | hexadecimal hx hne hn => exact isOwn_prefix hx hn.isOwn

theorem IsLiteral.ne_nil (hl : IsLiteral t) : t ≠ [] := by
  cases hl with
  | decimal hs hd =>
    obtain ⟨c, r, rfl, -⟩ := hd.head
    exact List.append_ne_nil_of_right_ne_nil _ (List.cons_ne_nil c r)
  | infinity hs => exact List.append_ne_nil_of_right_ne_nil _ (by decide)
  | hexadecimal => exact List.cons_ne_nil _ _

/-- The only word among the literals is that for infinity in its proper spelling. -/
theorem IsLiteral.eq_infinity (hs : sgn ∈ signs) (hw : IsWord s) (hl : IsLiteral (sgn ++ s)) :
    s = "Infinity".toList := by
  obtain ⟨c, r, hcons, hletter⟩ := hw.head
  have hsign := hw.sign_append hs
  generalize ht : sgn ++ s = t at hl hsign
  cases hl with
  | decimal hs' hd =>
    rw [hd.sign_append hs'] at hsign
    obtain ⟨-, rfl⟩ := Prod.mk.inj hsign
    obtain ⟨d, r', hcons', hd⟩ := hd.head
    obtain ⟨rfl, -⟩ := List.cons.inj (hcons.symm.trans hcons')
    rcases hd with hd | rfl
    · rw [not_isDigit_of_isAlpha hletter] at hd
      cases hd
    · cases hletter
  | infinity hs' =>
    rw [isWord_infinity.sign_append hs'] at hsign
    exact (Prod.mk.inj hsign).2.symm
  | hexadecimal hx =>
    -- no sign is split off a prefix, so the word would begin with its zero
    obtain ⟨-, rfl⟩ := Prod.mk.inj hsign
    obtain ⟨rfl, -⟩ := List.cons.inj hcons
    cases hletter

theorem hex?_of_denotes (hne : h ≠ []) (hn : Denotes 16 h n) : hex? h = some n :=
  hex?_eq_some_iff.mpr ⟨hne, h, respellsHex_self hn.isOwn, hn⟩

/-- What is read is what scripts take for a number, but for the texts that stray from it. -/
theorem reads_iff_isLiteral : (Reads t ↔ t = [] ∨ IsLiteral t) ↔ ¬ Strays t := by
  constructor
  · intro hiff hstrays
    cases hstrays with
    | word hs hw hne =>
      rcases hiff.mp (.word hs hw) with hnil | hl
      · obtain ⟨c, r, rfl, -⟩ := hw.head
        exact List.append_ne_nil_of_right_ne_nil _ (List.cons_ne_nil c r) hnil
      · exact hne (hl.eq_infinity hs hw)
    | spelling ht hne hs hd =>
      rcases hiff.mp (.decimal ht hs hd) with rfl | hl
      · exact hne (ht.eq_of_isOwn nofun).symm
      · exact hne (ht.eq_of_isOwn hl.isOwn).symm
    | hexSpelling hx hne hu hspelt hn hlt =>
      rcases hiff.mp (.hexadecimal hx hne hu hn hlt) with hnil | hl
      · cases hnil
      · have hown := hl.isOwn
        simp only [List.forall_mem_cons] at hown
        exact hspelt (hu.eq_of_isOwn hown.2.2).symm
    | tooLarge hx hne hn hle =>
      obtain ⟨m, hm, hlt⟩ := (reads_hex_iff hx).mp (hiff.mpr (.inr (.hexadecimal hx hne hn)))
      obtain rfl := Option.some.inj ((hex?_of_denotes hne hn).symm.trans hm)
      exact absurd hlt (Nat.not_lt.mpr hle)
  · intro hno
    constructor
    · intro hreads
      cases hreads with
      | blank => exact .inl rfl
      | @decimal t sgn s ht hs hd =>
        by_cases hspelt : t = sgn ++ s
        · exact .inr (hspelt ▸ .decimal hs hd)
        · exact absurd (.spelling ht hspelt hs hd) hno
      | @word sgn s hs hw =>
        by_cases hspelt : s = "Infinity".toList
        · exact .inr (hspelt ▸ .infinity hs)
        · exact absurd (.word hs hw hspelt) hno
      | @hexadecimal x h u n hx hne hu hn hlt =>
        by_cases hspelt : h = u
        · exact .inr (.hexadecimal hx hne (hspelt ▸ hn))
        · exact absurd (.hexSpelling hx hne hu hspelt hn hlt) hno
    · rintro (rfl | hl)
      · exact .blank
      · cases hl with
        | decimal hs hd =>
          exact .decimal (respells_self (IsLiteral.decimal hs hd).isOwn) hs hd
        | infinity hs => exact .word hs isWord_infinity
        | @hexadecimal x h n hx hne hn =>
          have hlt : n < Double.bound :=
            Nat.lt_of_not_le fun hle => hno (.tooLarge hx hne hn hle)
          exact .hexadecimal hx hne (respellsHex_self hn.isOwn) hn hlt

end

section

variable {t ds : List Char} {n : Nat} {i : Int}

theorem holds_of_le (h : n ≤ twoTo 53) : Format.double.Holds (n * Double.one) := by
  rcases Nat.lt_or_eq_of_le h with hlt | rfl
  · exact Format.holds_whole hlt
  · decide +kernel

theorem equalInt_ofUnits (h : n ≤ twoTo 53) (negative : Bool) :
    (Double.ofUnits negative (n * Double.one) 1).equalInt (Double.signed negative n) = true := by
  rw [Double.ofUnits_one negative (holds_of_le h), Double.equalInt, beq_iff_eq]
  exact Double.signed_mul negative n Double.one

theorem equalInt_ofInt (h : i.natAbs ≤ twoTo 53) : (Double.ofInt i).equalInt i = true := by
  have hi : Double.signed (decide (i < 0)) i.natAbs = i :=
    Double.signed_natAbs (fun hn => decide_eq_true hn) fun hn => decide_eq_false (by omega)
  have heq := equalInt_ofUnits h (decide (i < 0))
  rwa [hi] at heq

theorem equalInt_scaled (h : n ≤ twoTo 53) (negative : Bool) :
    (scaled negative n 0).equalInt (Double.signed negative n) = true := by
  have hlength : (toString n).length ≤ 400 := by
    by_contra hno
    have hbound : Double.bound ≤ n := bound_le_of_digits (by omega)
    have hlt : twoTo 53 < Double.bound := by decide +kernel
    omega
  have hsmall : ¬ (0 + ((toString n).length : Int) < -400) := by omega
  simp only [scaled]
  have hequal := equalInt_ofUnits h negative
  by_cases h0 : n = 0
  · subst h0
    rw [Nat.zero_mul] at hequal
    rwa [if_pos (.inl rfl)]
  · rw [if_neg (not_or.mpr ⟨h0, hsmall⟩), if_neg (by omega)]
    show (Double.ofUnits negative (n * tenTo 0 * Double.one) (tenTo 0)).equalInt _ = true
    rwa [tenTo_zero, Nat.mul_one]

theorem ofDigitChars_of_denotes (hd : ∀ c ∈ ds, c.isDigit = true) (hn : Denotes 10 ds n) :
    Nat.ofDigitChars 10 ds 0 = n := by
  obtain ⟨ks, hks, rfl⟩ := hn
  rw [← foldl_eq_ofDigits]
  generalize 0 = m
  induction hks generalizing m with
  | nil => rfl
  | @cons c k ds ks hk hks ih =>
    obtain ⟨hc, hds⟩ := List.forall_mem_cons.mp hd
    have hc : isDigit c = true := hc
    have hdigit : digit c = k := by
      rw [hexDigit?, if_pos hc] at hk
      exact Option.some.inj hk
    rw [Nat.ofDigitChars_cons, ih hds, ← hdigit]
    rfl

/-- An integer literal of up to 53 bits is read as the integer. -/
theorem readStripped_of_denotesInteger (h : DenotesInteger t i) (hi : i.natAbs ≤ twoTo 53) :
    ∃ y, readStripped t = .number y ∧ y.equalInt i = true := by
  cases h with
  | @decimal sgn ds n hs hd hn =>
    have hdecimal : IsDecimal ds := List.append_nil ds ▸ .whole hd .absent
    have hsigned : (if sgn = ['-'] then -(n : Int) else n) =
        Double.signed (decide (sgn = ['-'])) n := by
      by_cases hsgn : sgn = ['-'] <;> simp [Double.signed, hsgn]
    rw [hsigned] at hi ⊢
    rw [Double.natAbs_signed] at hi
    refine ⟨scaled (decide (sgn = ['-'])) n 0, ?_, equalInt_scaled hi _⟩
    have hliteral := IsLiteral.decimal hs hdecimal
    have hfloat : float? (sgn ++ ds) = some (scaled (decide (sgn = ['-'])) n 0) := by
      rw [float?_of_respells (respells_self hliteral.isOwn), hdecimal.sign_append hs,
        hdecimal.word?_eq_none, Option.none_or, decimal?_of_digits _ hd.1 hd.2,
        ofDigitChars_of_denotes hd.2 hn]
    rw [readStripped_of_ne hliteral.ne_nil, hfloat]
    · rfl
    · intro x h hx ht
      have hmem : x ∈ sgn ++ ds := ht ▸ List.mem_cons_of_mem _ List.mem_cons_self
      exact hdecimal.not_mem hx hs hmem
  | @hexadecimal x h n hx hne hn =>
    have hlt : n < Double.bound := Nat.lt_of_le_of_lt hi (by decide +kernel)
    refine ⟨Double.ofInt n, ?_, equalInt_ofInt hi⟩
    rw [readStripped_hex hx, ofHex_of_some (hex?_of_denotes hne hn), if_pos hlt]

end

end Numeral

/-- A text is read as a number exactly if it is blank or a numeric literal of scripts, but for the
texts that stray from the grammar. An integer literal of up to 53 bits gives the integer. -/
theorem World.numberOf_iff_isLiteral (w : World) {v : Value} {s : String} (hv : v.plain = .text s) :
    (((∃ x, w.numberOf v = .ok x ∧ x.isNaN = false) ↔
        strip s.toList = [] ∨ Numeral.IsLiteral (strip s.toList)) ↔
      ¬ Numeral.Strays (strip s.toList)) ∧
    ∀ i : Int, Numeral.DenotesInteger (strip s.toList) i → i.natAbs ≤ twoTo 53 →
      ∃ x, w.numberOf v = .ok x ∧ x.equalInt i = true := by
  have hnumber : ∀ x, w.numberOf v = .ok x ↔ Numeral.readStripped (strip s.toList) = .number x := by
    intro x
    rw [numberOf, hv]
    show textNumber s = _ ↔ _
    rw [textNumber, Numeral.read]
    cases Numeral.readStripped (strip s.toList) with
    | number y => simp
    | tooLarge => simp
  constructor
  · rw [← Numeral.reads_iff_isLiteral, ← Numeral.readStripped_isNumber]
    simp only [hnumber]
  · intro i hi hle
    obtain ⟨x, hx, heq⟩ := Numeral.readStripped_of_denotesInteger hi hle
    exact ⟨x, (hnumber x).mpr hx, heq⟩

/-- A thousand with an underscore is read, though it is no literal, and a hexadecimal literal among
blanks gives its integer. -/
theorem World.numberOf_underscored :
    ¬ ((∃ x, World.empty.numberOf (.text "1_000") = .ok x ∧ x.isNaN = false) ↔
      strip "1_000".toList = [] ∨ Numeral.IsLiteral (strip "1_000".toList)) ∧
    ∃ x, World.empty.numberOf (.text " 0x1F ") = .ok x ∧ x.equalInt 31 = true := by
  have hspelt : Numeral.Respells "1_000".toList ([] ++ "1000".toList) :=
    Numeral.joinDigits_eq_some_iff.mp (by decide)
  have hdigits : Numeral.IsDigits "1000".toList :=
    ⟨by decide, List.all_eq_true.mp (show "1000".toList.all Char.isDigit = true by decide)⟩
  have hstrays : Numeral.Strays (strip "1_000".toList) :=
    .spelling hspelt (by decide) (by decide) (.whole hdigits .absent)
  have hhex : Numeral.DenotesInteger (strip " 0x1F ".toList) (31 : Nat) :=
    .hexadecimal (h := "1F".toList) (.inl rfl) (by decide) ⟨[1, 15], .cons rfl (.cons rfl .nil), rfl⟩
  exact ⟨fun hiff => (World.empty.numberOf_iff_isLiteral rfl).1.mp hiff hstrays,
    (World.empty.numberOf_iff_isLiteral rfl).2 31 hhex (by decide)⟩

end ScriptedArrays
