import ScriptedArrays.Proofs.Numerals

/-! The grammar of numeric literals of scripts, and the other spellings that are read: digits of other
scripts stand for the ASCII ones, and underscores between digits, or before a hexadecimal one, do not
count. -/

namespace ScriptedArrays
namespace Numeral

def signs : List (List Char) := [[], ['+'], ['-']]

def IsDigits (ds : List Char) : Prop := ds ≠ [] ∧ ∀ c ∈ ds, c.isDigit = true

inductive IsExponent : List Char → Prop
  | absent : IsExponent []
  | written {mark : Char} {sgn ds : List Char} (hmark : mark = 'e' ∨ mark = 'E') (hs : sgn ∈ signs)
      (hd : IsDigits ds) : IsExponent (mark :: (sgn ++ ds))

inductive IsDecimal : List Char → Prop
  | whole {a e : List Char} (ha : IsDigits a) (he : IsExponent e) : IsDecimal (a ++ e)
  | point {a b e : List Char} (ha : ∀ c ∈ a, c.isDigit = true) (hb : ∀ c ∈ b, c.isDigit = true)
      (hne : a ≠ [] ∨ b ≠ []) (he : IsExponent e) : IsDecimal (a ++ '.' :: (b ++ e))

def Denotes (base : Nat) (ds : List Char) (n : Nat) : Prop :=
  ∃ ks, List.Forall₂ (fun c k => hexDigit? c = some k) ds ks ∧ n = Nat.ofDigits base ks.reverse

/-- The numeric literals of scripts. -/
inductive IsLiteral : List Char → Prop
  | decimal {sgn s : List Char} (hs : sgn ∈ signs) (h : IsDecimal s) : IsLiteral (sgn ++ s)
  | infinity {sgn : List Char} (hs : sgn ∈ signs) : IsLiteral (sgn ++ "Infinity".toList)
  | hexadecimal {x : Char} {h : List Char} {n : Nat} (hx : x = 'x' ∨ x = 'X') (hne : h ≠ [])
      (hn : Denotes 16 h n) : IsLiteral ('0' :: x :: h)

/-- The literals without fraction and exponent, and the integers that they denote. -/
inductive DenotesInteger : List Char → Int → Prop
  | decimal {sgn ds : List Char} {n : Nat} (hs : sgn ∈ signs) (hd : IsDigits ds)
      (hn : Denotes 10 ds n) : DenotesInteger (sgn ++ ds) (if sgn = ['-'] then -n else n)
  | hexadecimal {x : Char} {h : List Char} {n : Nat} (hx : x = 'x' ∨ x = 'X') (hne : h ≠ [])
      (hn : Denotes 16 h n) : DenotesInteger ('0' :: x :: h) n

/-- The second text is the first one with digits of all scripts written in ASCII and without the
underscores, each of which stands between two digits. -/
inductive Respells : List Char → List Char → Prop
  | nil : Respells [] []
  | char {c : Char} {s u : List Char} (hc : c ≠ '_') (h : Respells s u) :
      Respells (c :: s) (plainDigit c :: u)
  | joined {c d : Char} {s u : List Char} (hc : (digitValue? c).isSome) (hd : (digitValue? d).isSome)
      (h : Respells (d :: s) u) : Respells (c :: '_' :: d :: s) (plainDigit c :: u)

inductive RespellsHex : List Char → List Char → Prop
  | nil : RespellsHex [] []
  | char {c : Char} {s u : List Char} (hc : c ≠ '_') (h : RespellsHex s u) :
      RespellsHex (c :: s) (plainDigit c :: u)
  | joined {c : Char} {s u : List Char} (hc : c ≠ '_') (h : RespellsHex s u) :
      RespellsHex ('_' :: c :: s) (plainDigit c :: u)

def IsWord (s : List Char) : Prop :=
  s.map Char.toLower = "inf".toList ∨ s.map Char.toLower = "infinity".toList

/-- Texts that scripts and the library read differently. The library takes the first three for
numbers, which are no literals of scripts, and fails on the last one, which is. -/
inductive Strays : List Char → Prop
  | word {sgn s : List Char} (hs : sgn ∈ signs) (h : IsWord s) (hne : s ≠ "Infinity".toList) :
      Strays (sgn ++ s)
  | spelling {t sgn s : List Char} (ht : Respells t (sgn ++ s)) (hne : t ≠ sgn ++ s)
      (hs : sgn ∈ signs) (h : IsDecimal s) : Strays t
  | hexSpelling {x : Char} {h u : List Char} {n : Nat} (hx : x = 'x' ∨ x = 'X') (hne : h ≠ [])
      (hu : RespellsHex h u) (hspelt : h ≠ u) (hn : Denotes 16 u n) (hlt : n < Double.bound) :
      Strays ('0' :: x :: h)
  | tooLarge {x : Char} {h : List Char} {n : Nat} (hx : x = 'x' ∨ x = 'X') (hne : h ≠ [])
      (hn : Denotes 16 h n) (hle : Double.bound ≤ n) : Strays ('0' :: x :: h)

section

variable {c : Char} {s t u : List Char}

theorem digitValue?_of_isDigit (h : c.isDigit = true) : (digitValue? c).isSome := by
  have hrange : 48 ≤ c.toNat ∧ c.toNat ≤ 57 := Char.isDigit_iff_toNat.mp h
  rw [digitValue?, Option.isSome_map, List.find?_isSome]
  refine ⟨0x30, by decide, ?_⟩
  simp only [Bool.and_eq_true, decide_eq_true_eq]
  omega

theorem isDigit_plainDigit (c : Char) : isDigit (plainDigit c) = (digitValue? c).isSome := by
  rw [plainDigit]
  cases hd : digitValue? c with
  | none =>
    rw [Option.isSome_none]
    by_contra hno
    have hdigit := digitValue?_of_isDigit (c := c) (Bool.eq_true_of_not_eq_false hno)
    rw [hd] at hdigit
    cases hdigit
  | some d =>
    have hlt : d < 10 := by
      obtain ⟨z, hz, rfl⟩ := Option.map_eq_some_iff.mp hd
      have hrange := List.find?_some hz
      simp only [Bool.and_eq_true, decide_eq_true_eq] at hrange
      omega
    have hall : ∀ d < 10, isDigit (Nat.digitChar d) = true := by decide
    exact hall d hlt

theorem plainDigit_of_none (h : digitValue? c = none) : plainDigit c = c := by
  rw [plainDigit, h]

theorem plainDigit_eq_underscore_iff : plainDigit c = '_' ↔ c = '_' := by
  constructor
  · intro h
    have hdigit := isDigit_plainDigit c
    rw [h] at hdigit
    have hnone : digitValue? c = none :=
      Option.isNone_iff_eq_none.mp (Option.isSome_eq_false_iff.mp hdigit.symm)
    rwa [plainDigit_of_none hnone] at h
  · rintro rfl
    decide

def IsOwn (c : Char) : Prop := c ≠ '_' ∧ plainDigit c = c

theorem isOwn_of_lt (h : c.toNat < 0x660) (hne : c ≠ '_') : IsOwn c := by
  refine ⟨hne, ?_⟩
  by_cases hdigit : c.isDigit = true
  · exact (plain_of_isDigit hdigit).1.2.1
  · refine plainDigit_of_none ?_
    have hzeros : ∀ z ∈ zeroDigits, z = 0x30 ∨ 0x660 ≤ z := by decide
    rw [digitValue?, Option.map_eq_none_iff, List.find?_eq_none]
    intro z hz hrange
    simp only [Bool.and_eq_true, decide_eq_true_eq] at hrange
    rcases hzeros z hz with rfl | hle
    · have hdigits : 48 ≤ c.toNat ∧ c.toNat ≤ 57 := by omega
      exact hdigit (Char.isDigit_iff_toNat.mpr hdigits)
    · omega

theorem isOwn_of_isDigit (h : c.isDigit = true) : IsOwn c :=
  ⟨(plain_of_isDigit h).1.2.2.1, (plain_of_isDigit h).1.2.1⟩

theorem isOwn_of_mem_signs {sgn : List Char} (hs : sgn ∈ signs) : ∀ c ∈ sgn, IsOwn c := by
  intro c hc
  simp only [signs, List.mem_cons, List.not_mem_nil, or_false] at hs
  rcases hs with rfl | rfl | rfl
  · cases hc
  all_goals
    obtain rfl := List.mem_singleton.mp hc
    exact isOwn_of_lt (by decide) (by decide)

theorem isOwn_of_hexDigit {k : Nat} (h : hexDigit? c = some k) : IsOwn c := by
  have hne : c ≠ '_' := by
    rintro rfl
    cases h
  have hle : ∀ d : Char, c ≤ d → c.toNat ≤ d.toNat := fun d hd => hd
  rw [hexDigit?] at h
  split at h
  · next hdigit => exact isOwn_of_isDigit hdigit
  · split at h
    · next hrange => exact isOwn_of_lt (Nat.lt_of_le_of_lt (hle 'f' hrange.2) (by decide)) hne
    · split at h
      · next hrange => exact isOwn_of_lt (Nat.lt_of_le_of_lt (hle 'F' hrange.2) (by decide)) hne
      · cases h

end

section

variable {c p : Char} {s t u : List Char}

theorem respells_self (h : ∀ c ∈ t, IsOwn c) : Respells t t := by
  induction t with
  | nil => exact .nil
  | cons c t ih =>
    obtain ⟨hc, ht⟩ := List.forall_mem_cons.mp h
    have hchar : Respells (c :: t) (plainDigit c :: t) := .char hc.1 (ih ht)
    rwa [hc.2] at hchar

theorem Respells.eq_of_isOwn (h : Respells t u) (ht : ∀ c ∈ t, IsOwn c) : u = t := by
  induction h with
  | nil => rfl
  | char hc h ih =>
    obtain ⟨hown, hrest⟩ := List.forall_mem_cons.mp ht
    rw [hown.2, ih hrest]
  | joined hc hd h ih =>
    exact absurd rfl (ht '_' (List.mem_cons_of_mem _ List.mem_cons_self)).1

theorem Respells.eq_of_not_isDigit (h : Respells t u) (hu : ∀ c ∈ u, c.isDigit = false) : t = u := by
  induction h with
  | nil => rfl
  | @char c s u hc h ih =>
    obtain ⟨hdigit, hrest⟩ := List.forall_mem_cons.mp hu
    have hnone : digitValue? c = none := by
      have hsome : (digitValue? c).isSome = false := (isDigit_plainDigit c).symm.trans hdigit
      exact Option.isNone_iff_eq_none.mp (Option.isSome_eq_false_iff.mp hsome)
    rw [plainDigit_of_none hnone, ih hrest]
  | @joined c d s u hc hd h ih =>
    have hdigit : isDigit (plainDigit c) = false := hu _ List.mem_cons_self
    rw [isDigit_plainDigit, hc] at hdigit
    cases hdigit

theorem Respells.mem (h : Respells t u) (hc : c ∈ t) (hown : IsOwn c) : c ∈ u := by
  induction h with
  | nil => cases hc
  | char hd h ih =>
    rcases List.mem_cons.mp hc with rfl | hc
    · rw [hown.2]
      exact List.mem_cons_self
    · exact List.mem_cons_of_mem _ (ih hc)
  | joined hd hd' h ih =>
    rcases List.mem_cons.mp hc with rfl | hc
    · rw [hown.2]
      exact List.mem_cons_self
    rcases List.mem_cons.mp hc with rfl | hc
    · exact absurd rfl hown.1
    · exact List.mem_cons_of_mem _ (ih hc)

theorem joinDigits_cons (hc : c ≠ '_') (hp : p ≠ '_') :
    joinDigits p (c :: s) = (joinDigits c s).map (c :: ·) := by
  rw [joinDigits, if_neg hc]
  simp [hp]

theorem joinDigits_of_respells (h : Respells t u) (hp : p ≠ '_') :
    joinDigits p (t.map plainDigit) = some u := by
  induction h generalizing p with
  | nil => rw [List.map_nil, joinDigits, if_neg hp]
  | @char c s u hc h ih =>
    have hplain : plainDigit c ≠ '_' := mt plainDigit_eq_underscore_iff.mp hc
    rw [List.map_cons, joinDigits_cons hplain hp, ih hplain]
    rfl
  | @joined c d s u hc hd h ih =>
    have hne : ∀ e, (digitValue? e).isSome → plainDigit e ≠ '_' := by
      rintro e he hunderscore
      rw [plainDigit_eq_underscore_iff.mp hunderscore] at he
      cases he
    have hrest := ih (hne c hc)
    rw [List.map_cons, joinDigits_cons (hne d hd) (hne c hc)] at hrest
    have hunderscore : plainDigit '_' = '_' := plainDigit_eq_underscore_iff.mpr rfl
    rw [List.map_cons, List.map_cons, List.map_cons, hunderscore, joinDigits_cons (hne c hc) hp,
      joinDigits, if_pos rfl, if_pos ((isDigit_plainDigit c).trans hc), joinDigits, if_neg (hne d hd),
      if_neg (by simp [isDigit_plainDigit, hd]), hrest]
    rfl

/-- An underscore is read if it stands between digits, as if it were not there. -/
theorem joinDigits_underscore (h : joinDigits p (('_' :: t).map plainDigit) = some u) :
    isDigit p = true ∧ ∃ d s, t = d :: s ∧ (digitValue? d).isSome ∧
      joinDigits ' ' ((d :: s).map plainDigit) = some u := by
  have hunderscore : plainDigit '_' = '_' := plainDigit_eq_underscore_iff.mpr rfl
  rw [List.map_cons, hunderscore, joinDigits, if_pos rfl] at h
  by_cases hp : isDigit p = true
  · rw [if_pos hp] at h
    refine ⟨hp, ?_⟩
    cases t with
    | nil => cases h
    | cons d s =>
      rw [List.map_cons, joinDigits] at h
      split at h
      · cases h
      · next hd =>
        split at h
        · cases h
        · next hno =>
          refine ⟨d, s, rfl, Option.isSome_iff_ne_none.mpr (by simpa [isDigit_plainDigit] using hno), ?_⟩
          rw [List.map_cons, joinDigits_cons hd (by decide)]
          exact h
  · rw [if_neg hp] at h
    cases h

/-- What is left when the underscores are removed. After a digit a text may begin with one. -/
theorem respells_of_joinDigits (hp : p ≠ '_') (h : joinDigits p (t.map plainDigit) = some u) :
    Respells t u ∨ isDigit p = true ∧
      ∃ d s, t = '_' :: d :: s ∧ (digitValue? d).isSome ∧ Respells (d :: s) u := by
  -- a text that begins with an underscore is taken up again behind it
  induction hlength : t.length using Nat.strong_induction_on generalizing p t u with
  | _ n ih =>
    subst hlength
    cases t with
    | nil =>
      rw [List.map_nil, joinDigits, if_neg hp] at h
      cases h
      exact .inl .nil
    | cons c t =>
      by_cases hc : c = '_'
      · subst hc
        obtain ⟨hdigit, d, s, rfl, hd, hrest⟩ := joinDigits_underscore h
        rcases ih _ (by simp) (by decide) hrest rfl with hrest | ⟨hblank, -⟩
        · exact .inr ⟨hdigit, d, s, rfl, hd, hrest⟩
        · cases hblank
      · have hplain : plainDigit c ≠ '_' := mt plainDigit_eq_underscore_iff.mp hc
        rw [List.map_cons, joinDigits_cons hplain hp] at h
        obtain ⟨v, hv, rfl⟩ := Option.map_eq_some_iff.mp h
        rcases ih _ (by simp) hplain hv rfl with hrest | ⟨hdigit, d, s, rfl, hd, hrest⟩
        · exact .inl (.char hc hrest)
        · exact .inl (.joined ((isDigit_plainDigit c).symm.trans hdigit) hd hrest)

theorem joinDigits_eq_some_iff : joinDigits ' ' (t.map plainDigit) = some u ↔ Respells t u := by
  constructor
  · intro h
    rcases respells_of_joinDigits (by decide) h with h | ⟨hblank, -⟩
    · exact h
    · cases hblank
  · exact fun h => joinDigits_of_respells h (by decide)

end

section

variable {c : Char} {s t u : List Char} {n m : Nat}

theorem respellsHex_self (h : ∀ c ∈ t, IsOwn c) : RespellsHex t t := by
  induction t with
  | nil => exact .nil
  | cons c t ih =>
    obtain ⟨hc, ht⟩ := List.forall_mem_cons.mp h
    have hchar : RespellsHex (c :: t) (plainDigit c :: t) := .char hc.1 (ih ht)
    rwa [hc.2] at hchar

theorem RespellsHex.eq_of_isOwn (h : RespellsHex t u) (ht : ∀ c ∈ t, IsOwn c) : u = t := by
  induction h with
  | nil => rfl
  | char hc h ih =>
    obtain ⟨hown, hrest⟩ := List.forall_mem_cons.mp ht
    rw [hown.2, ih hrest]
  | joined hc h ih => exact absurd rfl (ht '_' List.mem_cons_self).1

theorem Denotes.isOwn {base : Nat} (h : Denotes base t n) : ∀ c ∈ t, IsOwn c := by
  obtain ⟨ks, hks, -⟩ := h
  intro c hc
  obtain ⟨i, hi, rfl⟩ := List.getElem_of_mem hc
  exact isOwn_of_hexDigit (hks.get hi (hks.length_eq ▸ hi))

theorem hexFrom_cons (hc : c ≠ '_') :
    hexFrom n (c :: s) = (hexDigit? c).bind fun k => hexFrom (16 * n + k) s := by
  rw [hexFrom.eq_def]
  split
  · next h => cases h
  · next h => exact absurd (List.cons.inj h).1 hc
  · next h => exact absurd (List.cons.inj h).1 hc
  · next h =>
    cases h
    cases hexDigit? c <;> rfl

theorem hexFrom_joined :
    hexFrom n ('_' :: c :: s) = (hexDigit? c).bind fun k => hexFrom (16 * n + k) s := by
  rw [hexFrom]
  cases hexDigit? c <;> rfl

theorem hexFrom_of_respellsHex (h : RespellsHex t u) {ks : List Nat}
    (hks : List.Forall₂ (fun c k => hexDigit? c = some k) u ks) :
    hexFrom n (t.map plainDigit) = some (ks.foldl (fun n k => 16 * n + k) n) := by
  induction h generalizing n ks with
  | nil =>
    cases hks
    rfl
  | @char c s u hc h ih =>
    cases hks with
    | cons hk hks =>
      rw [List.map_cons, hexFrom_cons (mt plainDigit_eq_underscore_iff.mp hc), hk, Option.bind_some,
        ih hks]
      rfl
  | @joined c s u hc h ih =>
    cases hks with
    | cons hk hks =>
      have hunderscore : plainDigit '_' = '_' := plainDigit_eq_underscore_iff.mpr rfl
      rw [List.map_cons, List.map_cons, hunderscore, hexFrom_joined, hk, Option.bind_some, ih hks]
      rfl

theorem respellsHex_of_hexFrom (h : hexFrom n (t.map plainDigit) = some m) : ∃ u ks,
    RespellsHex t u ∧ List.Forall₂ (fun c k => hexDigit? c = some k) u ks ∧
      m = ks.foldl (fun n k => 16 * n + k) n := by
  have hdigit : ∀ c k, hexDigit? (plainDigit c) = some k → c ≠ '_' := by
    rintro _ k hk rfl
    cases hk
  -- a character after an underscore is taken together with it
  induction hlength : t.length using Nat.strong_induction_on generalizing n t with
  | _ l ih =>
    subst hlength
    cases t with
    | nil =>
      cases h
      exact ⟨[], [], .nil, .nil, rfl⟩
    | cons c s =>
      by_cases hc : c = '_'
      · subst hc
        cases s with
        | nil => cases h
        | cons c s =>
          have hunderscore : plainDigit '_' = '_' := plainDigit_eq_underscore_iff.mpr rfl
          rw [List.map_cons, List.map_cons, hunderscore, hexFrom_joined] at h
          obtain ⟨k, hk, h⟩ := Option.bind_eq_some_iff.mp h
          obtain ⟨u, ks, hu, hks, rfl⟩ := ih _ (by simp) h rfl
          exact ⟨_, k :: ks, .joined (hdigit c k hk) hu, .cons hk hks, rfl⟩
      · rw [List.map_cons, hexFrom_cons (mt plainDigit_eq_underscore_iff.mp hc)] at h
        obtain ⟨k, hk, h⟩ := Option.bind_eq_some_iff.mp h
        obtain ⟨u, ks, hu, hks, rfl⟩ := ih _ (by simp) h rfl
        exact ⟨_, k :: ks, .char hc hu, .cons hk hks, rfl⟩

theorem foldl_eq_ofDigits (base : Nat) (ks : List Nat) :
    ks.foldl (fun n k => base * n + k) 0 = Nat.ofDigits base ks.reverse := by
  rw [Nat.ofDigits_eq_foldr, List.foldr_reverse]
  simp [Nat.add_comm]

theorem hex?_eq_some_iff :
    hex? t = some n ↔ t ≠ [] ∧ ∃ u, RespellsHex t u ∧ Denotes 16 u n := by
  cases t with
  | nil => simp [hex?]
  | cons c s =>
    show hexFrom 0 ((c :: s).map plainDigit) = some n ↔ _
    constructor
    · intro h
      obtain ⟨u, ks, hu, hks, hn⟩ := respellsHex_of_hexFrom h
      exact ⟨List.cons_ne_nil c s, u, hu, ks, hks, hn.trans (foldl_eq_ofDigits 16 ks)⟩
    · rintro ⟨-, u, hu, ks, hks, rfl⟩
      rw [hexFrom_of_respellsHex hu hks, foldl_eq_ofDigits]

end

end Numeral
end ScriptedArrays
