import Mathlib
import ScriptedArrays.Assign
import ScriptedArrays.Proofs.Narrowing
import ScriptedArrays.Sum

/-! What cells contain. A type admits the contents of its kind that are in its range, and a
cell accepts those that it keeps as they are. Whatever is put into a cell, by a conversion, by
a cast or by the host itself, is admitted by the type of the cell. -/

namespace ScriptedArrays

section Steps

variable {ε α β : Type}

theorem ok_of_bind {x : Except ε α} {f : α → Except ε β} {b : β} (h : x >>= f = .ok b) :
    ∃ a, x = .ok a ∧ f a = .ok b := by
  cases x with
  | error e => cases h
  | ok a => exact ⟨a, rfl, h⟩

theorem ok_of_map {x : Except ε α} {f : α → β} {b : β} (h : x.map f = .ok b) :
    ∃ a, x = .ok a ∧ f a = b := by
  cases x with
  | error e => cases h
  | ok a =>
    cases h
    exact ⟨a, rfl, rfl⟩

theorem forall₂_of_mapM {f : α → Except ε β} {xs : List α} {ys : List β}
    (h : xs.mapM f = .ok ys) : List.Forall₂ (fun x y => f x = .ok y) xs ys := by
  induction xs generalizing ys with
  | nil =>
    cases h
    exact .nil
  | cons x xs ih =>
    rw [List.mapM_cons] at h
    obtain ⟨y, hy, h⟩ := ok_of_bind h
    obtain ⟨zs, hzs, h⟩ := ok_of_bind h
    cases h
    exact .cons hy (ih hzs)

theorem exists_of_forall₂ {R : α → β → Prop} {xs : List α} {ys : List β} (h : List.Forall₂ R xs ys)
    {y : β} (hy : y ∈ ys) : ∃ x ∈ xs, R x y := by
  induction h with
  | nil => exact absurd hy List.not_mem_nil
  | cons hr _ ih =>
    rcases List.mem_cons.mp hy with rfl | hy
    · exact ⟨_, List.mem_cons_self, hr⟩
    · obtain ⟨x, hx, hxy⟩ := ih hy
      exact ⟨x, List.mem_cons_of_mem _ hx, hxy⟩

theorem mapM_of_forall₂ {f : α → Except ε β} {xs : List α} {ys : List β}
    (h : List.Forall₂ (fun x y => f x = .ok y) xs ys) : xs.mapM f = .ok ys := by
  induction h with
  | nil => rfl
  | cons hx _ ih =>
    rw [List.mapM_cons, hx, ih]
    rfl

end Steps

namespace Content

/-- The content may be put into cells of this kind; a text may still be cut. There is a date that
is none, and such a duration. -/
def Admits : Content → Value → Prop
  | bool, v => ∃ b, v = .bool b
  | int signed width, v => ∃ n, v = .int n ∧ inRange signed width n = true
  | real p, v => ∃ x, v = .number x ∧ x.Fits p.format
  | complex p, v => ∃ x y, v = .complex x y ∧ x.Fits p.format ∧ y.Fits p.format
  | text _, v => ∃ s, v = .text s
  | bytes _, v => ∃ b, v = .bytes b
  | object, _ => True
  | date _, v => v = .null ∨ ∃ d, v = .date d
  | duration _, v => v = .null ∨ ∃ s, v = .duration s
  | raw _, v => ∃ b, v = .bytes b

/-- An integer type has room for a digit. -/
def IsProper : Content → Prop
  | int _ width => 0 < width
  | _ => True

def HasRoomFor : Content → Value → Prop
  | text n, .text s => s.length ≤ n
  | bytes n, .bytes b => b.length ≤ n
  | _, _ => True

theorem Admits.ne_text {c : Content} {v : Value} (h : c.Admits v) (ht : ∀ n, c ≠ .text n)
    (ho : c ≠ .object) (s : String) : v ≠ .text s := by
  rintro rfl
  cases c with
  | text n => exact ht n rfl
  | object => exact ho rfl
  | _ => simp [Admits] at h

theorem Admits.ne_bytes {c : Content} {v : Value} (h : c.Admits v) (hb : ∀ n, c ≠ .bytes n)
    (hr : ∀ n, c ≠ .raw n) (ho : c ≠ .object) (b : List UInt8) : v ≠ .bytes b := by
  rintro rfl
  cases c with
  | bytes n => exact hb n rfl
  | raw n => exact hr n rfl
  | object => exact ho rfl
  | _ => simp [Admits] at h

end Content

namespace CellType

/-- A cell of this type keeps the content as it is. -/
def Accepts (t : CellType) (v : Value) : Prop := t.content.Admits v ∧ t.held v = v

def IsRegular (t : CellType) : Prop := t.allocated = t ∧ t.content.IsProper

def single (t : CellType) : Value → Value
  | .int n => .scalar (.native t.content) (.int n)
  | .number x => .scalar (.native t.content) (.number x)
  | .complex re im => .scalar (.native t.content) (.complex re im)
  | v => v

theorem single_cases (t : CellType) (v : Value) :
    t.single v = v ∨ t.single v = .scalar (.native t.content) v := by
  cases v with
  | int n => exact .inr rfl
  | number x => exact .inr rfl
  | complex re im => exact .inr rfl
  | _ => exact .inl rfl

end CellType

theorem toList_dropNuls (s : String) :
    (dropNuls s).toList = s.toList.rdropWhile (·.toNat == 0) := by
  rw [dropNuls, String.toList_ofList]
  rfl

theorem dropNulBytes_eq (b : List UInt8) : dropNulBytes b = b.rdropWhile (· == 0) := rfl

theorem length_dropNuls_le (s : String) : (dropNuls s).length ≤ s.length := by
  rw [← String.length_toList, ← String.length_toList, toList_dropNuls]
  exact (List.rdropWhile_prefix _ _).length_le

theorem length_dropNulBytes_le (b : List UInt8) : (dropNulBytes b).length ≤ b.length :=
  (List.rdropWhile_prefix _ _).length_le

@[simp] theorem dropNuls_dropNuls (s : String) : dropNuls (dropNuls s) = dropNuls s := by
  apply String.toList_injective
  simp only [toList_dropNuls]
  exact List.rdropWhile_idempotent _ _

@[simp] theorem dropNulBytes_dropNulBytes (b : List UInt8) :
    dropNulBytes (dropNulBytes b) = dropNulBytes b :=
  List.rdropWhile_idempotent _ _

namespace CellType

theorem cutText_of_le {n : Nat} {s : String} (h : s.length ≤ n) : cutText n s = .text (dropNuls s) := by
  rw [cutText, List.take_of_length_le (by rwa [String.length_toList]), String.ofList_toList]

theorem cutBytes_of_le {n : Nat} {b : List UInt8} (h : b.length ≤ n) :
    cutBytes n b = .bytes (dropNulBytes b) := by
  rw [cutBytes, List.take_of_length_le h]

theorem length_cut_le (n : Nat) (s : String) :
    (dropNuls (String.ofList (s.toList.take n))).length ≤ n := by
  apply Nat.le_trans (length_dropNuls_le _)
  rw [← String.length_toList, String.toList_ofList]
  exact List.length_take_le _ _

theorem length_cutBytes_le (n : Nat) (b : List UInt8) : (dropNulBytes (b.take n)).length ≤ n :=
  Nat.le_trans (length_dropNulBytes_le _) (List.length_take_le _ _)

theorem held_cutText {t : CellType} {n : Nat} (ht : t.content = .text n) (s : String) :
    t.held (cutText n s) = cutText n s := by
  simp only [held, ht, cutText]
  rw [← cutText, cutText_of_le (length_cut_le n s), dropNuls_dropNuls]

theorem held_cutBytes {t : CellType} {n : Nat} (ht : t.content = .bytes n) (b : List UInt8) :
    t.held (cutBytes n b) = cutBytes n b := by
  simp only [held, ht, cutBytes]
  rw [← cutBytes, cutBytes_of_le (length_cutBytes_le n b), dropNulBytes_dropNulBytes]

theorem length_of_held_text {t : CellType} {n : Nat} {s : String} (ht : t.content = .text n)
    (h : t.held (.text s) = .text s) : s.length ≤ n := by
  simp only [held, ht, cutText] at h
  have hlen := length_cut_le n s
  rwa [Value.text.inj h] at hlen

theorem length_of_held_bytes {t : CellType} {n : Nat} {b : List UInt8} (ht : t.content = .bytes n)
    (h : t.held (.bytes b) = .bytes b) : b.length ≤ n := by
  simp only [held, ht, cutBytes] at h
  have hlen := length_cutBytes_le n b
  rwa [Value.bytes.inj h] at hlen

/-- What a cell keeps of a content that its type admits is accepted. -/
theorem accepts_held {t : CellType} {v : Value} (h : t.content.Admits v) : t.Accepts (t.held v) := by
  cases ht : t.content with
  | text n =>
    rw [ht] at h
    obtain ⟨s, rfl⟩ := h
    have hs : t.held (.text s) = cutText n s := by simp only [held, ht]
    rw [hs]
    refine ⟨?_, held_cutText ht s⟩
    rw [ht]
    exact ⟨_, rfl⟩
  | bytes n =>
    rw [ht] at h
    obtain ⟨b, rfl⟩ := h
    have hb : t.held (.bytes b) = cutBytes n b := by simp only [held, ht]
    rw [hb]
    refine ⟨?_, held_cutBytes ht b⟩
    rw [ht]
    exact ⟨_, rfl⟩
  | _ =>
    have hv : t.held v = v := by simp only [held, ht]
    rw [hv]
    exact ⟨h, hv⟩

theorem held_eq_self {t : CellType} (v : Value) (ht : ∀ n, t.content ≠ .text n)
    (hb : ∀ n, t.content ≠ .bytes n) : t.held v = v := by
  cases h : t.content with
  | text n => exact absurd h (ht n)
  | bytes n => exact absurd h (hb n)
  | _ => simp only [held, h]

theorem stored_of_not_text {t : CellType} {v : Value} (ho : t.isObject = false)
    (ht : ∀ s, v.item ≠ .text s) (hb : ∀ b, v.item ≠ .bytes b) : t.stored v = v.item := by
  rw [stored, if_neg (by simp [ho])]
  split
  · rename_i s hs
    exact absurd hs (ht s)
  · rename_i b hs
    exact absurd hs (hb b)
  · rfl

/-- What is stored for an admitted content that is not too long is accepted. -/
theorem accepts_stored {t : CellType} {v : Value} (h : t.content.Admits v.item)
    (hroom : t.content.HasRoomFor v.item) : t.Accepts (t.stored v) := by
  have hplain : t.content ≠ .object → t.isObject = false := by simp [isObject]
  cases hc : t.content with
  | text n =>
    rw [hc] at h hroom
    obtain ⟨s, hs⟩ := h
    rw [hs] at hroom
    have hv : t.stored v = t.held (.text s) := by
      simp only [stored, hplain (by simp [hc]), hs, held, hc, cutText_of_le hroom]
      rfl
    rw [hv]
    exact accepts_held (by rw [hc]; exact ⟨s, rfl⟩)
  | bytes n =>
    rw [hc] at h hroom
    obtain ⟨b, hs⟩ := h
    rw [hs] at hroom
    have hv : t.stored v = t.held (.bytes b) := by
      simp only [stored, hplain (by simp [hc]), hs, held, hc, cutBytes_of_le hroom]
      rfl
    rw [hv]
    exact accepts_held (by rw [hc]; exact ⟨b, rfl⟩)
  | raw n =>
    obtain ⟨b, hs⟩ := hc ▸ h
    have hv : t.stored v = .bytes (dropNulBytes b) := by
      simp only [stored, hplain (by simp [hc]), hs]
      rfl
    rw [hv]
    exact ⟨by rw [hc]; exact ⟨_, rfl⟩, held_eq_self _ (by simp [hc]) (by simp [hc])⟩
  | object =>
    exact ⟨by rw [hc]; exact True.intro, held_eq_self _ (by simp [hc]) (by simp [hc])⟩
  | _ =>
    have hv : t.stored v = v.item := by
      apply stored_of_not_text (hplain (by simp [hc]))
      · exact h.ne_text (by simp [hc]) (by simp [hc])
      · exact h.ne_bytes (by simp [hc]) (by simp [hc]) (by simp [hc])
    rw [hv]
    exact ⟨h, held_eq_self _ (by simp [hc]) (by simp [hc])⟩

end CellType

namespace Content

theorem inRange_wrapped {signed : Bool} {width : Nat} (hw : 0 < width) (n : Int) :
    inRange signed width (wrapped signed width n) = true := by
  obtain ⟨k, hk⟩ : ∃ k, 8 * width = k + 1 := ⟨8 * width - 1, by omega⟩
  have hk' : 8 * width - 1 = k := by omega
  have hd : twoTo (k + 1) = twoTo k * 2 := twoTo_succ k
  have hpos := twoTo_pos k
  simp only [inRange, decide_eq_true_eq]
  cases signed with
  | true =>
    simp only [least, greatest, wrapped, hk', if_true]
    rw [hk, hd]
    have hlo := @Int.le_bmod n (twoTo k * 2) (by omega)
    have hhi := @Int.bmod_lt n (twoTo k * 2) (by omega)
    omega
  | false =>
    simp only [least, greatest, wrapped, hk, Bool.false_eq_true, if_false]
    have hlo := Int.emod_nonneg n (b := (twoTo (k + 1) : Int)) (by omega)
    have hhi := Int.emod_lt_of_pos n (b := (twoTo (k + 1) : Int)) (by omega)
    exact ⟨hlo, Int.le_sub_one_of_lt hhi⟩

theorem inRange_bit {signed : Bool} {width : Nat} (hw : 0 < width) (b : Bool) :
    inRange signed width (if b then 1 else 0) = true := by
  have h : wrapped signed width (if b then 1 else 0) = if b then 1 else 0 := by
    obtain ⟨k, hk⟩ : ∃ k, 8 * width = k + 2 := ⟨8 * width - 2, by omega⟩
    have hd : twoTo (k + 2) = twoTo k * 2 * 2 := by rw [twoTo_succ, twoTo_succ]
    have hpos := twoTo_pos k
    cases signed with
    | true =>
      rw [wrapped, if_pos rfl, hk, hd]
      apply Int.bmod_eq_of_le <;> split <;> omega
    | false =>
      rw [wrapped, if_neg Bool.false_ne_true, hk, hd]
      apply Int.emod_eq_of_lt <;> split <;> omega
  rw [← h]
  exact inRange_wrapped hw _

theorem twoTo_mono {j k : Nat} (h : j ≤ k) : (twoTo j : Int) ≤ twoTo k :=
  Int.ofNat_le.mpr (Nat.pow_le_pow_right (by decide) h)

/-- A safe cast between integer types goes to a wider range. -/
theorem inRange_of_castsSafely {s t : Bool} {m k : Nat} {n : Int} (hm : 0 < m)
    (hc : (int s m).castsSafely (int t k) = true) (hn : inRange s m n = true) :
    inRange t k n = true := by
  simp only [inRange, decide_eq_true_eq] at hn ⊢
  cases s with
  | true =>
    cases t with
    | true =>
      have hmk : m ≤ k := by simpa only [castsSafely, decide_eq_true_eq] using hc
      have := twoTo_mono (show 8 * m - 1 ≤ 8 * k - 1 by omega)
      simp only [least, greatest, if_true] at hn ⊢
      omega
    | false => simp [castsSafely] at hc
  | false =>
    cases t with
    | true =>
      have hmk : m < k := by simpa only [castsSafely, decide_eq_true_eq] using hc
      have := twoTo_mono (show 8 * m ≤ 8 * k - 1 by omega)
      simp only [least, greatest, if_true, Bool.false_eq_true, if_false] at hn ⊢
      omega
    | false =>
      have hmk : m ≤ k := by simpa only [castsSafely, decide_eq_true_eq] using hc
      have := twoTo_mono (show 8 * m ≤ 8 * k by omega)
      simp only [least, greatest, Bool.false_eq_true, if_false] at hn ⊢
      omega

theorem admits_zero (t : CellType) : t.content.Admits t.zero := by
  simp only [CellType.zero]
  cases t.content with
  | bool => exact ⟨false, rfl⟩
  | int signed width =>
    refine ⟨0, rfl, ?_⟩
    have hpos := twoTo_pos (8 * width)
    have hpos' := twoTo_pos (8 * width - 1)
    cases signed <;> simp only [inRange, least, greatest, decide_eq_true_eq, if_true,
      Bool.false_eq_true, if_false] <;> omega
  | real p => exact ⟨_, rfl, Double.fits_zero _⟩
  | complex p => exact ⟨_, _, rfl, Double.fits_zero _, Double.fits_zero _⟩
  | text n => exact ⟨_, rfl⟩
  | bytes n => exact ⟨_, rfl⟩
  | object => exact True.intro
  | date unit => exact .inr ⟨0, rfl⟩
  | duration unit => exact .inr ⟨0, rfl⟩
  | raw n => exact ⟨_, rfl⟩

end Content

theorem CellType.accepts_zero (t : CellType) : t.Accepts t.zero := by
  refine ⟨Content.admits_zero t, ?_⟩
  cases hc : t.content with
  | text n =>
    simp only [zero, held, hc]
    exact cutText_of_le (Nat.zero_le n)
  | bytes n =>
    simp only [zero, held, hc]
    exact cutBytes_of_le (Nat.zero_le n)
  | _ => exact held_eq_self _ (by simp [hc]) (by simp [hc])

namespace Content

theorem admits_allocated {t : CellType} {v : Value} (h : t.content.Admits v) :
    t.allocated.content.Admits v := by
  simp only [CellType.allocated]
  split
  · rename_i ht
    rw [ht] at h
    exact h
  · rename_i ht
    rw [ht] at h
    exact h
  · exact h

end Content

namespace CellType

theorem content_allocated {t : CellType} (ht : t.content ≠ .text 0) (hb : t.content ≠ .bytes 0) :
    t.allocated = t := by
  unfold allocated
  split
  · rename_i h
    exact absurd h ht
  · rename_i h
    exact absurd h hb
  · rfl

theorem regular_allocated {t : CellType} (ht : t.content.IsProper) : t.allocated.IsRegular := by
  simp only [allocated]
  split
  · exact ⟨rfl, True.intro⟩
  · exact ⟨rfl, True.intro⟩
  · rename_i h1 h2
    exact ⟨content_allocated h1 h2, ht⟩

theorem ne_empty_of_regular {t : CellType} (h : t.IsRegular) :
    t.content ≠ .text 0 ∧ t.content ≠ .bytes 0 := by
  have ha := h.1
  constructor
  · intro hc
    rw [allocated, hc] at ha
    have hn := congrArg CellType.content ha
    rw [hc] at hn
    cases hn
  · intro hc
    rw [allocated, hc] at ha
    have hn := congrArg CellType.content ha
    rw [hc] at hn
    cases hn

theorem textWidth_ne_zero {t : CellType} (h : t.IsRegular) : t.content.textWidth? ≠ some 0 := by
  obtain ⟨ht, hb⟩ := ne_empty_of_regular h
  intro hw
  simp only [Content.textWidth?] at hw
  split at hw <;> cases hw
  · rename_i hc
    exact ht hc
  · rename_i hc
    exact hb hc

end CellType

theorem Content.castsSafely_self (c : Content) : c.castsSafely c = true := by
  cases c with
  | int signed bytes => cases signed <;> simp [Content.castsSafely]
  | text n => cases n <;> simp [Content.castsSafely]
  | bytes n => cases n <;> simp [Content.castsSafely, Content.textWidth?]
  | _ => simp [Content.castsSafely]

namespace Conversion

theorem admits_castReal {c : Content} {p : Precision} {v : Value} (hc : c.Admits v)
    (hs : c.castsSafely (.real p) = true) : (Content.real p).Admits (castReal p v) := by
  cases c with
  | bool =>
    obtain ⟨b, rfl⟩ := hc
    exact ⟨_, rfl, Double.fits_narrow p _⟩
  | int s n =>
    obtain ⟨i, rfl, -⟩ := hc
    exact ⟨_, rfl, Double.fits_narrow p _⟩
  | real q =>
    obtain ⟨x, rfl, -⟩ := hc
    exact ⟨_, rfl, Double.fits_narrow p _⟩
  | _ => simp [Content.castsSafely] at hs

theorem castCell_text {t : CellType} {n : Nat} {v x : Value}
    (hx : castCell t (.text n) v = .ok x) : ∃ s, x = .text s := by
  cases v with
  | bytes b =>
    by_cases hb : b.all (·.toNat < 128) = true
    · simp only [castCell, if_pos hb] at hx
      cases hx
      exact ⟨_, rfl⟩
    · simp only [castCell, if_neg hb] at hx
      cases hx
  | _ =>
    cases hx
    exact ⟨_, rfl⟩

theorem castCell_bytes {t : CellType} {n : Nat} {v x : Value}
    (hx : castCell t (.bytes n) v = .ok x) : ∃ b, x = .bytes b := by
  cases v with
  | bytes b =>
    cases hx
    exact ⟨_, rfl⟩
  | _ =>
    simp only [castCell] at hx
    split at hx
    · cases hx
      exact ⟨_, rfl⟩
    · cases hx

/-- A safe cast admits what it makes of an admitted content. -/
theorem admits_castCell {t : CellType} {target : Content} {v x : Value} (ht : t.content.IsProper)
    (hp : target.IsProper) (hv : t.content.Admits v) (hs : t.content.castsSafely target = true)
    (hx : castCell t target v = .ok x) : target.Admits x := by
  cases target with
  | bool =>
    cases hc : t.content with
    | bool =>
      rw [hc] at hv
      obtain ⟨b, rfl⟩ := hv
      cases hx
      exact ⟨b, rfl⟩
    | _ => simp [hc, Content.castsSafely] at hs
  | int signed width =>
    cases hc : t.content with
    | bool =>
      rw [hc] at hv
      obtain ⟨b, rfl⟩ := hv
      cases hx
      exact ⟨_, rfl, Content.inRange_bit hp b⟩
    | int s n =>
      rw [hc] at hv hs ht
      obtain ⟨i, rfl, hi⟩ := hv
      cases hx
      exact ⟨i, rfl, Content.inRange_of_castsSafely ht hs hi⟩
    | _ => simp [hc, Content.castsSafely] at hs
  | real p =>
    cases hx
    exact admits_castReal hv hs
  | complex p =>
    simp only [castCell] at hx
    cases hq : v.quantity? with
    | some q =>
      rw [hq] at hx
      cases hx
      refine ⟨_, _, rfl, ?_, ?_⟩
      · cases q <;> exact Double.fits_narrow p _
      · cases q with
        | complex re im => exact Double.fits_narrow p _
        | _ => exact Double.fits_zero _
    | none =>
      exfalso
      cases hc : t.content with
      | bool =>
        rw [hc] at hv
        obtain ⟨b, rfl⟩ := hv
        cases hq
      | int s n =>
        rw [hc] at hv
        obtain ⟨i, rfl, -⟩ := hv
        cases hq
      | real q =>
        rw [hc] at hv
        obtain ⟨y, rfl, -⟩ := hv
        cases hq
      | complex q =>
        rw [hc] at hv
        obtain ⟨y, z, rfl, -⟩ := hv
        cases hq
      | _ => simp [hc, Content.castsSafely] at hs
  | text n => exact castCell_text hx
  | bytes n => exact castCell_bytes hx
  | object => exact True.intro
  | date unit =>
    cases hx
    cases hc : t.content with
    | date u =>
      rw [hc] at hv
      exact hv
    | _ => simp [hc, Content.castsSafely] at hs
  | duration unit =>
    cases hx
    cases hc : t.content with
    | duration u =>
      rw [hc] at hv
      exact hv
    | _ => simp [hc, Content.castsSafely] at hs
  | raw n =>
    cases hx
    cases hc : t.content with
    | raw m =>
      rw [hc] at hv
      exact hv
    | _ => simp [hc, Content.castsSafely] at hs

/-- A cell cast to its own type keeps what it holds. -/
theorem castCell_self {t : CellType} {v : Value} (hv : t.content.Admits v) :
    castCell t t.content v = .ok v := by
  cases hc : t.content with
  | real p =>
    rw [hc] at hv
    obtain ⟨x, rfl, hx⟩ := hv
    simp only [castCell, castReal, Value.quantity?, Value.item, Value.content, Quantity.narrow,
      Double.narrow_eq_self hx]
  | complex p =>
    rw [hc] at hv
    obtain ⟨x, y, rfl, hx, hy⟩ := hv
    simp only [castCell, Value.quantity?, Value.item, Value.content, Quantity.narrow,
      Double.narrow_eq_self hx, Double.narrow_eq_self hy]
  | int s n =>
    rw [hc] at hv
    obtain ⟨i, rfl, -⟩ := hv
    rfl
  | text n =>
    rw [hc] at hv
    obtain ⟨s, rfl⟩ := hv
    rfl
  | bytes n =>
    rw [hc] at hv
    obtain ⟨b, rfl⟩ := hv
    rfl
  | bool =>
    rw [hc] at hv
    obtain ⟨b, rfl⟩ := hv
    rfl
  | _ => rfl

theorem mapM_castCell_self {t : CellType} {cells : List Value} (h : ∀ c ∈ cells, t.Accepts c) :
    cells.mapM (castCell t t.content) = .ok cells := by
  apply mapM_of_forall₂
  rw [List.forall₂_same]
  exact fun c hc => castCell_self (h c hc).1

section Cells

variable {w : World} {truncates : Bool} {cell : CellType} {given x : Value}

theorem length_of_fitText {capacity : Nat} {s u : String}
    (h : fitText truncates given cell capacity s = .ok u) : u.length ≤ capacity := by
  simp only [fitText] at h
  split at h
  · cases h
    assumption
  · split at h
    · cases h
      rw [← String.length_toList, String.toList_ofList]
      exact List.length_take_le _ _
    · cases h

theorem inRange_of_toInteger {content : Value} {signed : Bool} {width : Nat}
    (h : toInteger w given content cell signed width = .ok x) :
    ∃ n, x = .scalar (.native cell.content) (.int n) ∧ Content.inRange signed width n = true := by
  simp only [toInteger] at h
  cases hn : wholeNumber w given content cell with
  | error e =>
    rw [hn] at h
    cases h
  | ok n =>
    rw [hn] at h
    simp only [bind, Except.bind] at h
    split at h
    · rename_i hr
      cases h
      exact ⟨n, rfl, decide_eq_true hr⟩
    · cases h

theorem fits_of_toReal {content : Value} {p : Precision}
    (h : toReal w given content cell p = .ok x) :
    ∃ y, x = .scalar (.native cell.content) (.number y) ∧ y.Fits p.format := by
  have hlift : ∀ e : Except HostFault Double, (do
      let y ← lift e
      .ok (.scalar (.native cell.content) (.number (y.narrow p.format)))) = Except.ok x →
      ∃ y, x = .scalar (.native cell.content) (.number y) ∧ y.Fits p.format := by
    intro e he
    cases e with
    | error f => cases he
    | ok y =>
      cases he
      exact ⟨_, rfl, Double.fits_narrow p y⟩
  cases content <;> first | exact hlift _ h | cases h

theorem fits_of_toComplex {content : Value} {p : Precision}
    (h : toComplex given content cell p = .ok x) :
    ∃ y z, x = .scalar (.native cell.content) (.complex y z) ∧ y.Fits p.format ∧
      z.Fits p.format := by
  cases content with
  | int i =>
    simp only [toComplex] at h
    cases hi : Double.ofInt? i with
    | error f =>
      rw [hi] at h
      cases h
    | ok y =>
      rw [hi] at h
      cases h
      refine ⟨_, _, rfl, Double.fits_narrow p y, ?_⟩
      rw [Double.narrow_zero]
      exact Double.fits_zero _
  | number y =>
    cases h
    refine ⟨_, _, rfl, Double.fits_narrow p y, ?_⟩
    rw [Double.narrow_zero]
    exact Double.fits_zero _
  | complex re im =>
    cases h
    exact ⟨_, _, rfl, Double.fits_narrow p re, Double.fits_narrow p im⟩
  | _ => cases h

/-- A converted value is a content that the cell admits and has room for. -/
theorem single_of_toCell (ho : cell.isObject = false) (h : toCell w truncates cell given = .ok x) :
    cell.content.Admits x.item ∧ cell.content.HasRoomFor x.item ∧ x = cell.single x.item := by
  simp only [toCell] at h
  cases hc : cell.content with
  | bool =>
    rw [hc] at h
    cases h
    exact ⟨⟨_, rfl⟩, True.intro, rfl⟩
  | int signed width =>
    rw [hc] at h
    obtain ⟨n, rfl, hn⟩ := inRange_of_toInteger h
    exact ⟨⟨n, rfl, hn⟩, True.intro, rfl⟩
  | real p =>
    rw [hc] at h
    obtain ⟨y, rfl, hy⟩ := fits_of_toReal h
    exact ⟨⟨y, rfl, hy⟩, True.intro, rfl⟩
  | complex p =>
    rw [hc] at h
    obtain ⟨y, z, rfl, hy, hz⟩ := fits_of_toComplex h
    exact ⟨⟨y, z, rfl, hy, hz⟩, True.intro, rfl⟩
  | text n =>
    rw [hc] at h
    obtain ⟨u, hu, h⟩ := ok_of_bind h
    obtain ⟨s, hs, h⟩ := ok_of_bind h
    cases h
    exact ⟨⟨s, rfl⟩, length_of_fitText hs, rfl⟩
  | bytes n =>
    rw [hc] at h
    obtain ⟨u, hu, h⟩ := ok_of_bind h
    obtain ⟨s, hs, h⟩ := ok_of_bind h
    cases he : Latin.encode? s with
    | none =>
      rw [he] at h
      cases h
    | some b =>
      rw [he] at h
      cases h
      have hlen := length_of_fitText hs
      rw [← Latin.decode_of_encode? he, Latin.length_decode] at hlen
      exact ⟨⟨b, rfl⟩, hlen, rfl⟩
  | object => simp [CellType.isObject, hc] at ho
  | _ =>
    rw [hc] at h
    cases h

theorem accepts_of_toCell (h : toCell w truncates cell given = .ok x) :
    cell.Accepts (cell.stored x) := by
  cases ho : cell.isObject with
  | true =>
    have hc : cell.content = .object := by simpa [CellType.isObject] using ho
    refine CellType.accepts_stored ?_ ?_ <;> rw [hc] <;> exact True.intro
  | false =>
    obtain ⟨hadmits, hroom, -⟩ := single_of_toCell ho h
    exact CellType.accepts_stored hadmits hroom

end Cells

end Conversion

namespace HostNumber

theorem inRange_of_fitting {signed : Bool} {width : Nat} {v : Value} {n : Int}
    (h : fitting signed width v = .ok n) : Content.inRange signed width n = true := by
  obtain ⟨m, -, h⟩ := ok_of_bind h
  split at h
  · cases h
    assumption
  · cases h

theorem inRange_of_wrapping {signed : Bool} {width : Nat} {v : Value} {n : Int} (hw : 0 < width)
    (h : wrapping signed width v = .ok n) : Content.inRange signed width n = true := by
  obtain ⟨m, -, h⟩ := ok_of_bind h
  split at h
  · cases h
    exact Content.inRange_wrapped hw m
  · cases h

end HostNumber

namespace CellType

variable {w : World} {t source : CellType} {v x : Value}

theorem accepts_bool (ht : t.content = .bool) (b : Bool) : t.Accepts (.bool b) := by
  have hadmits : t.content.Admits (.bool b) := by
    rw [ht]
    exact ⟨b, rfl⟩
  exact ⟨hadmits, held_eq_self _ (by simp [ht]) (by simp [ht])⟩

theorem accepts_int {signed : Bool} {width : Nat} (ht : t.content = .int signed width) {n : Int}
    (hn : Content.inRange signed width n = true) : t.Accepts (.int n) := by
  have hadmits : t.content.Admits (.int n) := by
    rw [ht]
    exact ⟨n, rfl, hn⟩
  exact ⟨hadmits, held_eq_self _ (by simp [ht]) (by simp [ht])⟩

theorem accepts_number {p : Precision} (ht : t.content = .real p) {y : Double}
    (hy : y.Fits p.format) : t.Accepts (.number y) := by
  have hadmits : t.content.Admits (.number y) := by
    rw [ht]
    exact ⟨y, rfl, hy⟩
  exact ⟨hadmits, held_eq_self _ (by simp [ht]) (by simp [ht])⟩

theorem accepts_complex {p : Precision} (ht : t.content = .complex p) {y z : Double}
    (hy : y.Fits p.format) (hz : z.Fits p.format) : t.Accepts (.complex y z) := by
  have hadmits : t.content.Admits (.complex y z) := by
    rw [ht]
    exact ⟨y, z, rfl, hy, hz⟩
  exact ⟨hadmits, held_eq_self _ (by simp [ht]) (by simp [ht])⟩

theorem accepts_cutText {n : Nat} (ht : t.content = .text n) (s : String) :
    t.Accepts (cutText n s) := by
  have hadmits : t.content.Admits (cutText n s) := by
    rw [ht]
    exact ⟨_, rfl⟩
  exact ⟨hadmits, held_cutText ht s⟩

theorem accepts_cutBytes {n : Nat} (ht : t.content = .bytes n) (b : List UInt8) :
    t.Accepts (cutBytes n b) := by
  have hadmits : t.content.Admits (cutBytes n b) := by
    rw [ht]
    exact ⟨_, rfl⟩
  exact ⟨hadmits, held_cutBytes ht b⟩

theorem accepts_object (ht : t.content = .object) (v : Value) : t.Accepts v := by
  have hadmits : t.content.Admits v := by
    rw [ht]
    exact True.intro
  exact ⟨hadmits, held_eq_self _ (by simp [ht]) (by simp [ht])⟩

/-- A cell for dates, durations or raw bytes admits what the host assigns to it. -/
theorem admits_assignSpecial {c : Content} (h : assignSpecial c v = .ok x) : c.Admits x := by
  cases c with
  | date unit =>
    cases v with
    | date d =>
      cases h
      exact .inr ⟨d, rfl⟩
    | int d =>
      cases h
      exact .inr ⟨d, rfl⟩
    | null =>
      cases h
      exact .inl rfl
    | text s =>
      simp only [assignSpecial] at h
      split at h
      · cases h
        exact .inr ⟨_, rfl⟩
      · cases h
    | _ => cases h
  | duration unit =>
    cases v with
    | duration s =>
      cases h
      exact .inr ⟨s, rfl⟩
    | int s =>
      cases h
      exact .inr ⟨s, rfl⟩
    | null =>
      cases h
      exact .inl rfl
    | _ => cases h
  | raw n =>
    cases v with
    | bytes b =>
      cases h
      exact ⟨_, rfl⟩
    | _ => cases h
  | _ => cases h

/-- What a cast by the host leaves in a cell is accepted. -/
theorem accepts_castTo (ht : t.content.IsProper) (h : castTo source t v = .ok x) : t.Accepts x := by
  cases hc : t.content with
  | bool =>
    simp only [castTo, hc] at h
    cases hq : v.quantity? with
    | some q =>
      rw [hq] at h
      cases h
      exact accepts_bool hc _
    | none =>
      rw [hq] at h
      simp only at h
      split at h
      · obtain ⟨n, -, rfl⟩ := ok_of_map h
        exact accepts_bool hc _
      · cases h
        exact accepts_bool hc _
  | int signed width =>
    rw [hc] at ht
    simp only [castTo, hc] at h
    cases hq : v.quantity? with
    | some q =>
      rw [hq] at h
      have hcut : ∀ y, Content.inRange signed width (Content.cut signed width y) = true := by
        intro y
        unfold Content.cut
        split
        · dsimp only
          split
          · exact Content.inRange_wrapped ht _
          · exact Content.inRange_wrapped ht _
        · exact Content.inRange_wrapped ht _
      cases q with
      | int n =>
        cases h
        exact accepts_int hc (Content.inRange_wrapped ht n)
      | real y =>
        cases h
        exact accepts_int hc (hcut y)
      | complex re im =>
        cases h
        exact accepts_int hc (hcut re)
    | none =>
      rw [hq] at h
      obtain ⟨n, hn, rfl⟩ := ok_of_map h
      exact accepts_int hc (HostNumber.inRange_of_fitting hn)
  | real p =>
    simp only [castTo, hc] at h
    cases hq : v.quantity? with
    | none =>
      rw [hq] at h
      obtain ⟨y, -, rfl⟩ := ok_of_map h
      exact accepts_number hc (Double.fits_narrow p y)
    | some q =>
      rw [hq] at h
      obtain ⟨y, hy, rfl⟩ := ok_of_map h
      cases hy
      rw [Conversion.castReal, hq, held_eq_self _ (by simp [hc]) (by simp [hc])]
      apply accepts_number hc
      cases q <;> exact Double.fits_narrow p _
  | complex p =>
    simp only [castTo, hc] at h
    cases hq : v.quantity? with
    | none =>
      rw [hq] at h
      obtain ⟨y, -, rfl⟩ := ok_of_map h
      exact accepts_complex hc (Double.fits_narrow p _) (Double.fits_narrow p _)
    | some q =>
      rw [hq] at h
      obtain ⟨y, hy, rfl⟩ := ok_of_map h
      simp only [Conversion.castCell, hq] at hy
      cases hy
      rw [held_eq_self _ (by simp [hc]) (by simp [hc])]
      refine accepts_complex hc ?_ ?_
      · cases q <;> exact Double.fits_narrow p _
      · cases q with
        | complex re im => exact Double.fits_narrow p _
        | _ => exact Double.fits_zero _
  | text n =>
    simp only [castTo, hc] at h
    obtain ⟨y, hy, rfl⟩ := ok_of_map h
    exact accepts_held (by rw [hc]; exact Conversion.castCell_text hy)
  | bytes n =>
    simp only [castTo, hc] at h
    obtain ⟨y, hy, rfl⟩ := ok_of_map h
    exact accepts_held (by rw [hc]; exact Conversion.castCell_bytes hy)
  | object => exact accepts_object hc x
  | _ =>
    simp only [castTo, hc] at h
    rw [← hc] at h
    exact ⟨admits_assignSpecial h, held_eq_self _ (by simp [hc]) (by simp [hc])⟩

theorem accepts_assignPlain (ht : t.content.IsProper) (h : assignPlain w t v = .ok x) :
    t.Accepts x := by
  cases hc : t.content with
  | bool =>
    simp only [assignPlain, hc] at h
    obtain ⟨b, -, rfl⟩ := ok_of_map h
    exact accepts_bool hc b
  | int signed width =>
    rw [hc] at ht
    have hfit : (HostNumber.fitting signed width v).map Value.int = .ok x → t.Accepts x := by
      intro h
      obtain ⟨n, hn, rfl⟩ := ok_of_map h
      exact accepts_int hc (HostNumber.inRange_of_fitting hn)
    have hwrap : (HostNumber.wrapping signed width v).map Value.int = .ok x → t.Accepts x := by
      intro h
      obtain ⟨n, hn, rfl⟩ := ok_of_map h
      exact accepts_int hc (HostNumber.inRange_of_wrapping ht hn)
    cases hv : v.content with
    | int n => exact hfit (by simpa only [assignPlain, hc, hv] using h)
    | bool b => exact hfit (by simpa only [assignPlain, hc, hv] using h)
    | _ => exact hwrap (by simpa only [assignPlain, hc, hv] using h)
  | real p =>
    have hreal : (HostNumber.real v).map (fun y => .number (y.narrow p.format)) = .ok x →
        t.Accepts x := by
      intro h
      obtain ⟨y, -, rfl⟩ := ok_of_map h
      exact accepts_number hc (Double.fits_narrow p y)
    cases hv : v.content with
    | null =>
      simp only [assignPlain, hc, hv] at h
      cases h
      exact accepts_number hc (Double.fits_nan _)
    | _ => exact hreal (by simpa only [assignPlain, hc, hv] using h)
  | complex p =>
    have hcomplex : (HostNumber.complex v).map
        (fun y => .complex (y.1.narrow p.format) (y.2.narrow p.format)) = .ok x → t.Accepts x := by
      intro h
      obtain ⟨y, -, rfl⟩ := ok_of_map h
      exact accepts_complex hc (Double.fits_narrow p _) (Double.fits_narrow p _)
    cases hv : v.content with
    | null =>
      simp only [assignPlain, hc, hv] at h
      cases h
      exact accepts_complex hc (Double.fits_nan _) (Double.fits_nan _)
    | _ => exact hcomplex (by simpa only [assignPlain, hc, hv] using h)
  | text n =>
    cases hv : v.content with
    | bytes b =>
      simp only [assignPlain, hc, hv] at h
      split at h
      · cases h
        exact accepts_cutText hc _
      · cases h
    | _ =>
      obtain ⟨s, -, rfl⟩ := ok_of_map (by simpa only [assignPlain, hc, hv] using h)
      exact accepts_cutText hc _
  | bytes n =>
    have hencoded : (w.display? v >>= assignBytes n) = .ok x → t.Accepts x := by
      intro h
      obtain ⟨s, -, h⟩ := ok_of_bind h
      simp only [assignBytes] at h
      split at h
      · cases h
        exact accepts_cutBytes hc _
      · cases h
    cases hv : v.content with
    | bytes b =>
      simp only [assignPlain, hc, hv] at h
      cases h
      exact accepts_cutBytes hc _
    | _ => exact hencoded (by simpa only [assignPlain, hc, hv] using h)
  | object => exact accepts_object hc x
  | _ =>
    simp only [assignPlain, hc] at h
    rw [← hc] at h
    exact ⟨admits_assignSpecial h, held_eq_self _ (by simp [hc]) (by simp [hc])⟩

theorem accepts_assignParts {alone : Bool} {cells : Option (List Value)} (ht : t.content.IsProper)
    (h : assignParts w t alone cells v = .ok x) : t.Accepts x := by
  have hnone : ∀ f : HostFault, (if alone then Except.error f else Except.error .value) ≠ .ok x := by
    intro f he
    cases alone <;> cases he
  cases hc : t.content with
  | bool =>
    simp only [assignParts, hc] at h
    obtain ⟨b, -, rfl⟩ := ok_of_map h
    exact accepts_bool hc b
  | int signed width =>
    rw [hc] at ht
    rcases cells with _ | _ | ⟨y, _ | ⟨z, ys⟩⟩
    · exact absurd (by simpa only [assignParts, hc] using h) (hnone .type)
    · exact absurd (by simpa only [assignParts, hc] using h) (hnone .type)
    · simp only [assignParts, hc] at h
      cases hn : HostNumber.wrapping signed width y with
      | error f =>
        rw [hn] at h
        cases alone <;> cases h
      | ok n =>
        rw [hn] at h
        cases alone <;> cases h <;> exact accepts_int hc (HostNumber.inRange_of_wrapping ht hn)
    · exact absurd (by simpa only [assignParts, hc] using h) (hnone .type)
  | real p =>
    rcases cells with _ | _ | ⟨y, _ | ⟨z, ys⟩⟩
    · exact absurd (by simpa only [assignParts, hc] using h) (hnone .type)
    · exact absurd (by simpa only [assignParts, hc] using h) (hnone .type)
    · simp only [assignParts, hc] at h
      cases hn : HostNumber.real y with
      | error f =>
        rw [hn] at h
        cases alone <;> cases h
      | ok n =>
        rw [hn] at h
        cases alone <;> cases h <;> exact accepts_number hc (Double.fits_narrow p n)
    · exact absurd (by simpa only [assignParts, hc] using h) (hnone .type)
  | complex p =>
    rcases cells with _ | _ | ⟨y, _ | ⟨z, ys⟩⟩
    · simp only [assignParts, hc] at h
      cases h
    · simp only [assignParts, hc] at h
      cases h
    · exact accepts_assignPlain ht (by simpa only [assignParts, hc] using h)
    · simp only [assignParts, hc] at h
      cases h
  | text n =>
    simp only [assignParts, hc] at h
    cases h
  | bytes n =>
    simp only [assignParts, hc] at h
    cases h
  | object => exact accepts_object hc x
  | _ => exact absurd (by simpa only [assignParts, hc] using h) (hnone .type)

theorem accepts_assign {alone : Bool} (ht : t.content.IsProper) (h : t.assign w alone v = .ok x) :
    t.Accepts x := by
  unfold assign at h
  split at h
  · rename_i ho
    exact accepts_object (by simpa [isObject] using ho) x
  · split at h
    · exact accepts_castTo ht h
    · dsimp only at h
      split at h
      · split at h
        · exact accepts_assignPlain ht h
        · exact accepts_castTo ht h
      · exact accepts_assignParts ht h
    · exact accepts_assignParts ht h
    · exact accepts_assignParts ht h
    · exact accepts_assignParts ht h
    · exact accepts_assignPlain ht h

end CellType

namespace Sum

theorem admits_withCell {c : Content} {x : Double} {y z : Value}
    (h : withCell c x y = .ok z) : c.Admits z := by
  cases hq : y.quantity? with
  | none => cases c <;> simp only [withCell, hq] at h <;> cases h
  | some q =>
    cases c with
    | real p =>
      simp only [withCell, hq] at h
      cases h
      exact ⟨_, rfl, Double.fits_narrow p _⟩
    | complex p =>
      simp only [withCell, hq] at h
      cases h
      refine ⟨_, _, rfl, Double.fits_narrow p _, Double.fits_zero_add ?_⟩
      cases q with
      | complex re im => exact Double.fits_narrow p _
      | _ => exact Double.fits_zero _
    | _ =>
      simp only [withCell] at h
      cases h

end Sum

end ScriptedArrays
