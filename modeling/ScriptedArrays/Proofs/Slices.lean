import ScriptedArrays.Proofs.ItemReads
import ScriptedArrays.Proofs.Numerals
import ScriptedArrays.Proofs.WholeNumbers

/-! Slices. A slice of an array-like receiver is a new script array of the items between two bounds,
which count from the end if they are negative and are cut to the range of the receiver. Two slices
that meet at a bound make up the whole receiver. -/

namespace ScriptedArrays

open World

/-- The index that a bound with this number denotes in a receiver of the length: the default if there
is no bound, the start if it is no number, and else its whole part, to which the length is added if it
is negative, and which is cut to the range. -/
inductive Bound (n default : Nat) : (arg : Value) → (x : Double) → Nat → Prop
  | absent (x : Double) : Bound n default .undefined x default
  | nan {arg : Value} (h : arg ≠ .undefined) : Bound n default arg .nan 0
  | below {arg : Value} (h : arg ≠ .undefined) : Bound n default arg (.infinite true) 0
  | above {arg : Value} (h : arg ≠ .undefined) : Bound n default arg (.infinite false) n
  | whole {arg : Value} {x : Double} {k : Int} (h : arg ≠ .undefined) (hk : x.TruncatesTo k) :
    Bound n default arg x (min (max (if k < 0 then n + k else k) 0) n).toNat

section

variable {n d : Nat} {arg : Value} {x : Double} {w : World}

theorem bound_relativeIndex (h : arg ≠ .undefined) (n d : Nat) (x : Double) :
    Bound n d arg x (relativeIndex n x) := by
  cases x with
  | nan => exact .nan h
  | infinite s =>
    cases s with
    | false => exact .above h
    | true => exact .below h
  | finite s m hm =>
    have hk : (Double.finite s m hm).TruncatesTo (Double.signed s (m / Double.one)) :=
      Double.truncate?_eq_some_iff.mp rfl
    have hindex : relativeIndex n (.finite s m hm) =
        (min (max (if Double.signed s (m / Double.one) < 0 then n + Double.signed s (m / Double.one)
          else Double.signed s (m / Double.one)) 0) n).toNat := by
      rw [relativeIndex]
      generalize Double.signed s (m / Double.one) = k
      split <;> omega
    rw [hindex]
    exact .whole h hk

/-- A bound denotes one index. -/
theorem Bound.unique {a b : Nat} (ha : Bound n d arg x a) (hb : Bound n d arg x b) : a = b := by
  cases ha with
  | absent =>
    cases hb with
    | absent => rfl
    | nan h | below h | above h | whole h => exact absurd rfl h
  | nan h =>
    cases hb with
    | absent => exact absurd rfl h
    | nan => rfl
    | whole _ hk => cases Double.truncate?_eq_some_iff.mpr hk
  | below h =>
    cases hb with
    | absent => exact absurd rfl h
    | below => rfl
    | whole _ hk => cases Double.truncate?_eq_some_iff.mpr hk
  | above h =>
    cases hb with
    | absent => exact absurd rfl h
    | above => rfl
    | whole _ hk => cases Double.truncate?_eq_some_iff.mpr hk
  | @whole _ x k h hk =>
    have hx := Double.truncate?_eq_some_iff.mpr hk
    cases hb with
    | absent => exact absurd rfl h
    | nan | below | above => cases hx
    | whole _ hl =>
      rw [Double.truncate?_eq_some_iff.mpr hl] at hx
      cases hx
      rfl

theorem boundOf_of_ne (h : arg ≠ .undefined) (hx : w.numberOf arg = .ok x) (n d : Nat) :
    boundOf arg n d w = .ok (relativeIndex n x) w := by
  have hnumber : numberOf arg w = .ok x w := by rw [numberOf, hx]
  rw [boundOf.eq_def]
  split
  · exact absurd rfl h
  · rw [bind_apply_of_ok _ hnumber]
    rfl

theorem exists_boundOf (hx : w.numberOf arg = .ok x) (hd : d ≤ n) :
    ∃ b, Bound n d arg x b ∧ boundOf arg n d w = .ok b w ∧ b ≤ n := by
  by_cases h : arg = .undefined
  · subst h
    exact ⟨d, .absent x, rfl, hd⟩
  · exact ⟨_, bound_relativeIndex h n d x, boundOf_of_ne h hx n d, relativeIndex_le n x⟩

end

/-- On the way from one world to another one a new script array of the items from one index up to
another one was made, and everything that there was is what it was. -/
structure World.Slices (w : World) (prototype : Ref .record) (this : Value) (lo hi : Nat)
    (r : Ref .record) (w' : World) : Prop where
  fresh : ¬ w.records.Has r
  preserves : w.Preserves w'
  has : w'.records.Has r
  items : ∃ xs, List.Forall₂ (fun x i => w.ReadsAs this i x w') xs (List.range' lo (hi - lo)) ∧
    (w'.records.get r).IsArray prototype xs

theorem IsNewArray.ok {prototype : Ref .record} {items : List Value} {w w' : World} {v : Value}
    {result : EStateM.Result Fault World Value} (h : IsNewArray prototype items w result)
    (hok : result = .ok v w') : v = .record w.records.next ∧ w.Preserves w' ∧
      w'.records.Has w.records.next ∧ (w'.records.get w.records.next).IsArray prototype items := by
  obtain ⟨es, n, hes, harray⟩ := h
  rw [hes] at hok
  cases hok
  refine ⟨rfl, ?_, Store.has_push_next _ _, ?_⟩
  · exact {
      toRetains := retains_of_eq rfl rfl rfl rfl rfl rfl
      record := fun r hr =>
        ⟨Store.has_push_of_has _ _ hr, Store.get_push_of_ne _ _ (w.records.ne_next_of_has hr)⟩
      view := fun q hq => ⟨hq, rfl⟩
      lists := rfl
      tuples := rfl
      functions := rfl }
  · rw [Store.get_push_next]
    exact harray

theorem succeeds_makeArray (prototype : Ref .record) (items : List Value) (w : World) :
    Succeeds (makeArray prototype items) w := by
  obtain ⟨es, n, hes, -⟩ := isNewArray_makeArray prototype items w
  exact ⟨_, _, hes⟩

namespace ArrayMethod

variable {w : World} {this : Value} {n lo hi : Nat} {args : List Value}

theorem runSlice_eq (prototype : Ref .record) (hn : Receiver.length this w = .ok n w)
    (hlo : boundOf (argument args 0) n 0 w = .ok lo w) (hhi : boundOf (argument args 1) n n w = .ok hi w) :
    runSlice prototype this args w =
      (Receiver.itemsAt this [] (List.range' lo (hi - lo)) >>= makeArray prototype) w := by
  rw [runSlice, bind_apply_of_ok _ hn, bind_apply_of_ok _ hlo, bind_apply_of_ok _ hhi, Receiver.items]

theorem hasItem_of_mem_range (h : w.Sound) (hthis : Receiver.IsArrayLike w this)
    (hn : Receiver.length this w = .ok n w) (lo : Nat) (hle : hi ≤ n) :
    ∀ i ∈ List.range' lo (hi - lo), Receiver.HasItem w this i := by
  intro i hi
  rw [List.mem_range'_1] at hi
  exact Receiver.hasItem_of_length h hthis hn (by omega)

section

variable (h : w.Sound) (hthis : Receiver.IsArrayLike w this) (prototype : Ref .record)
  (hn : Receiver.length this w = .ok n w) (hlo : boundOf (argument args 0) n 0 w = .ok lo w)
  (hhi : boundOf (argument args 1) n n w = .ok hi w) (hle : hi ≤ n)
include h hthis hn hlo hhi hle

theorem succeeds_runSlice_iff : Succeeds (runSlice prototype this args) w ↔
    ∀ i, lo ≤ i → i < hi → Succeeds (Receiver.item this i) w := by
  have hread := Receiver.succeeds_itemsAt_iff h hthis
    (hasItem_of_mem_range h hthis hn lo hle) []
  have hrange : (∀ i ∈ List.range' lo (hi - lo), Succeeds (Receiver.item this i) w) ↔
      ∀ i, lo ≤ i → i < hi → Succeeds (Receiver.item this i) w := by
    constructor
    · intro hall i hge hlt
      exact hall i (List.mem_range'_1.mpr (by omega))
    · intro hall i hi
      rw [List.mem_range'_1] at hi
      exact hall i hi.1 (by omega)
  rw [← hrange, ← hread, Succeeds, Succeeds, runSlice_eq prototype hn hlo hhi]
  constructor
  · rintro ⟨v, w', hv⟩
    obtain ⟨xs, u, hxs, -⟩ := bind_eq_ok.mp hv
    exact ⟨xs, u, hxs⟩
  · rintro ⟨xs, u, hxs⟩
    exact succeeds_bind hxs (succeeds_makeArray prototype xs u)

theorem slices_of_runSlice {v : Value} {w' : World} (hv : runSlice prototype this args w = .ok v w') :
    ∃ r, v = .record r ∧ w.Slices prototype this lo hi r w' := by
  rw [runSlice_eq prototype hn hlo hhi] at hv
  obtain ⟨xs, u, hxs, hmake⟩ := bind_eq_ok.mp hv
  obtain ⟨hu, hall⟩ := Receiver.itemsAt_ok h hthis (hasItem_of_mem_range h hthis hn lo hle) hxs
  obtain ⟨rfl, hw', hhas, harray⟩ := (isNewArray_makeArray prototype xs u).ok hmake
  refine ⟨_, rfl, ⟨fun hr => ?_, (trans_of Preserves hu hw'), hhas, xs, ?_, harray⟩⟩
  · exact u.records.ne_next_of_has (hu.record _ hr).1 rfl
  · exact hall.imp fun x i hx => hx.widen (refl_of Preserves w) hw'

variable (args) in
theorem exists_slice (hread : ∀ i < n, Succeeds (Receiver.item this i) w) :
    ∃ r w', runSlice prototype this args w = .ok (.record r) w' ∧
      w.Slices prototype this lo hi r w' := by
  obtain ⟨v, w', hv⟩ := (succeeds_runSlice_iff h hthis prototype hn hlo hhi hle).mpr
    fun i _ hlt => hread i (Nat.lt_of_lt_of_le hlt hle)
  obtain ⟨r, rfl, hslice⟩ := slices_of_runSlice h hthis prototype hn hlo hhi hle hv
  exact ⟨r, w', hv, hslice⟩

end
end ArrayMethod

theorem Value.IsKept.trans {x y z : Value} (h : x.IsKept y) (h' : y.IsKept z) : x.IsKept z where
  content := h.content.trans h'.content
  same ho := by
    have hyz := h'.same ho
    rw [← hyz] at ho ⊢
    exact h.same ho

/-- The length of a receiver is that of its items, as far as it is read. -/
theorem Double.asLength_ofInt_eq_min (n : Nat) : (Double.ofInt n).asLength = min n greatestLength := by
  rcases Nat.le_total n greatestLength with hn | hn
  · rw [Double.asLength_ofInt hn, Nat.min_eq_left hn]
  rcases Nat.eq_or_lt_of_le hn with rfl | hlt
  · rw [Double.asLength_ofInt (Nat.le_refl _), Nat.min_self]
  have htwo : twoTo 53 = greatestLength + 1 := by decide
  have hbig : twoTo 53 ≤ (n : Int).natAbs := by rw [Int.natAbs_natCast]; omega
  have hsign : decide ((n : Int) < 0) = false := decide_eq_false (Int.not_lt.mpr (Int.natCast_nonneg n))
  have htruncate : ∀ m, (Double.ofInt n).truncate? = some m → twoTo 53 ≤ m.natAbs :=
    fun m hm => le_natAbs_of_truncate? hbig hm
  rw [Nat.min_eq_right hn]
  rw [ofInt, ofUnits, hsign] at htruncate ⊢
  split at htruncate
  · next hfits =>
    have hunits := htruncate _ rfl
    rw [natAbs_signed] at hunits
    rw [dif_pos hfits, asLength]
    exact Nat.min_eq_right (by omega)
  · next hfits =>
    rw [dif_neg hfits]
    rfl

theorem greatestLength_lt_bound : greatestLength < Double.bound := by
  have htwo : twoTo 53 = greatestLength + 1 := by decide
  have hbound : twoTo 53 ≤ Double.bound := Double.twoTo_le_bound (by decide)
  omega

namespace Entries.IsArray

variable {e : Entries} {prototype : Ref .record} {xs ys : List Value} {w : World} {a : Ref .record} {n : Nat}

theorem of_kept (h : e.IsArray prototype ys) (hkept : List.Forall₂ Value.IsKept ys xs) :
    e.IsArray prototype xs := by
  have hlength := hkept.length_eq
  refine ⟨by rw [h.names, hlength], h.prototype, by rw [← hlength]; exact h.length, fun i hi => ?_⟩
  obtain ⟨x, hx, hy⟩ := h.item i (by rwa [hlength])
  exact ⟨x, hx, hy.trans (hkept.get (by rwa [hlength]) hi)⟩

theorem length_eq_ok_iff (h : (w.records.get a).IsArray prototype xs) :
    Receiver.length (.record a) w = .ok n w ↔
      xs.length < Double.bound ∧ n = min xs.length greatestLength := by
  obtain ⟨v, hv, hcontent⟩ := h.length
  have hplain : v.plain = .int xs.length := by rw [Value.plain, hcontent]
  have hnumber : numberOf ((w.records.get a).getD "length" (.int 0)) w = numberOf v w := by
    rw [Entries.getD, hv, Option.getD_some]
  rw [Receiver.length, get_bind_apply]
  rcases Nat.lt_or_ge xs.length Double.bound with hlt | hge
  · have hfits : ∀ f, ¬ w.Lacks v f := fun f hf =>
      Nat.not_le.mpr hlt ((lacks_int_iff hplain).mp hf).2
    obtain ⟨x, rfl, hok⟩ := (settles_numberOf_int hplain).2 hfits
    rw [bind_apply_of_ok _ (hnumber.trans hok), Double.asLength_ofInt_eq_min, and_iff_right hlt]
    constructor
    · rintro ⟨⟩
      rfl
    · rintro rfl
      rfl
  · have herror := (settles_numberOf w v).1 _ ((lacks_int_iff hplain).mpr ⟨rfl, hge⟩)
    rw [bind_apply_of_error _ (hnumber.trans herror)]
    refine iff_of_false (fun hok => ?_) fun hlt => absurd hlt.1 (Nat.not_lt.mpr hge)
    cases hok

theorem receiver_length (h : (w.records.get a).IsArray prototype xs) (hle : xs.length ≤ greatestLength) :
    Receiver.length (.record a) w = .ok xs.length w :=
  h.length_eq_ok_iff.mpr ⟨Nat.lt_of_le_of_lt hle greatestLength_lt_bound, (Nat.min_eq_left hle).symm⟩

theorem spread (h : (w.records.get a).IsArray prototype xs) (hn : xs.length < Double.bound)
    (earlier : List Value) : ∃ ys, ArrayMethod.spread prototype earlier (.record a) w = .ok ys w ∧
      List.Forall₂ Value.IsKept ys (xs.take greatestLength) := by
  have hspread : w.isSpreadable (.record a) (.record prototype) = true := by
    simp [isSpreadable, h.prototype, World.same, Value.rename, Value.same, Value.isObject]
  have hlength := h.length_eq_ok_iff.mpr ⟨hn, rfl⟩
  refine ⟨(List.range' 0 (min xs.length greatestLength)).map fun i =>
    (w.records.get a).getD (toString i) .undefined, ?_, ?_⟩
  · rw [ArrayMethod.spread, get_bind_apply, if_pos hspread, bind_apply_of_ok _ hlength, Receiver.items,
      Receiver.itemsAt_record]
  · refine List.forall₂_iff_get.mpr ⟨by simp [Nat.min_comm], fun i hi hi' => ?_⟩
    obtain ⟨x, hx, hkept⟩ := h.item i (by simp at hi'; omega)
    simp only [List.get_eq_getElem, List.getElem_map, List.getElem_range', Nat.zero_add, Nat.one_mul,
      Entries.getD, hx, Option.getD_some, List.getElem_take]
    exact hkept

end Entries.IsArray

namespace ArrayMethod

variable {w : World} {prototype a b : Ref .record} {xs ys : List Value}

theorem exists_concat (ha : (w.records.get a).IsArray prototype xs)
    (hb : (w.records.get b).IsArray prototype ys) (hx : xs.length ≤ greatestLength)
    (hy : ys.length ≤ greatestLength) :
    ∃ c w', runConcat prototype (.record a) [.record b] w = .ok (.record c) w' ∧ ¬ w.records.Has c ∧
      w.Preserves w' ∧ w'.records.Has c ∧ (w'.records.get c).IsArray prototype (xs ++ ys) := by
  obtain ⟨xs', hxs, hkept⟩ := ha.spread (Nat.lt_of_le_of_lt hx greatestLength_lt_bound) []
  obtain ⟨ys', hys, hkept'⟩ := hb.spread (Nat.lt_of_le_of_lt hy greatestLength_lt_bound) xs'
  rw [List.take_of_length_le hx] at hkept
  rw [List.take_of_length_le hy] at hkept'
  have hspread : spreadAll prototype [] [.record a, .record b] w = .ok (xs' ++ ys') w := by
    rw [spreadAll, bind_apply_of_ok _ hxs, List.nil_append, spreadAll, bind_apply_of_ok _ hys]
    rfl
  obtain ⟨v, w', hmake⟩ := succeeds_makeArray prototype (xs' ++ ys') w
  obtain ⟨rfl, hw', hhas, harray⟩ := (isNewArray_makeArray prototype (xs' ++ ys') w).ok hmake
  have hfresh : ¬ w.records.Has w.records.next := fun hr => w.records.ne_next_of_has hr rfl
  refine ⟨_, w', ?_, hfresh, hw', hhas, harray.of_kept (List.rel_append hkept hkept')⟩
  rw [runConcat, bind_apply_of_ok _ hspread, hmake]

end ArrayMethod

theorem forall₂_range_append {α : Type} {R : α → Nat → Prop} {m n : Nat} {xs ys : List α} (hm : m ≤ n)
    (hxs : List.Forall₂ R xs (List.range' 0 (m - 0))) (hys : List.Forall₂ R ys (List.range' m (n - m))) :
    List.Forall₂ R (xs ++ ys) (List.range' 0 n) := by
  have happend : List.Forall₂ R (xs ++ ys) (List.range' 0 m ++ List.range' m (n - m)) :=
    List.rel_append hxs hys
  have hrange := List.range'_append_1 (s := 0) (m := m) (n := n - m)
  rw [Nat.zero_add, Nat.add_sub_cancel' hm] at hrange
  rwa [hrange] at happend

theorem relativeIndex_zero (n : Nat) : relativeIndex n (Double.ofInt (0 : Nat)) = 0 := by
  obtain ⟨h, hzero⟩ := Double.ofInt_of_le (n := 0) (Nat.zero_le _)
  rw [hzero, relativeIndex, Nat.zero_mul, Nat.zero_div]
  rfl

namespace World.Slices

variable {w v w' z : World} {prototype a b r : Ref .record} {this : Value} {lo hi m n : Nat}

theorem items_widen (h : v.Slices prototype this lo hi r w') (hw : w.Preserves v) (hz : w'.Preserves z) :
    ∃ xs, List.Forall₂ (fun x i => w.ReadsAs this i x z) xs (List.range' lo (hi - lo)) ∧
      (z.records.get r).IsArray prototype xs := by
  obtain ⟨xs, hall, harray⟩ := h.items
  exact ⟨xs, hall.imp fun x i hx => hx.widen hw hz, by rwa [(hz.record r h.has).2]⟩

theorem exists_concat (ha : w.Slices prototype this 0 m a v) (hb : v.Slices prototype this m n b w')
    (hm : m ≤ n) (hn : n ≤ greatestLength) :
    ∃ c z, ArrayMethod.runConcat prototype (.record a) [.record b] w' = .ok (.record c) z ∧
      w.Slices prototype this 0 n c z := by
  have hw' : w.Preserves w' := trans_of Preserves ha.preserves hb.preserves
  obtain ⟨xs, hxs, hxsArray⟩ := ha.items_widen (refl_of Preserves w) hb.preserves
  obtain ⟨ys, hys, hysArray⟩ := hb.items_widen ha.preserves (refl_of Preserves w')
  have hxsLength : xs.length = m := by rw [hxs.length_eq, List.length_range', Nat.sub_zero]
  have hysLength : ys.length = n - m := by rw [hys.length_eq, List.length_range']
  obtain ⟨c, z, hc, hfresh, hz, hhas, harray⟩ :=
    ArrayMethod.exists_concat hxsArray hysArray (by omega) (by omega)
  refine ⟨c, z, hc, fun hr => hfresh (hw'.record c hr).1, trans_of Preserves hw' hz, hhas,
    xs ++ ys, ?_, harray⟩
  exact forall₂_range_append hm (hxs.imp fun x i hx => hx.widen (refl_of Preserves w) hz)
    (hys.imp fun x i hx => hx.widen (refl_of Preserves w) hz)

theorem alike (hc : w.Closed) (h : w.Sound) (hthis : Receiver.IsArrayLike w this)
    (hthere : w.backs this = true)
    (hitems : ∀ i ∈ List.range' lo (hi - lo), Receiver.HasItem w this i)
    (ha : w.Slices prototype this lo hi a v) (hb : v.Slices prototype this lo hi b z) :
    ∃ xs ys, (z.records.get a).IsArray prototype xs ∧ (z.records.get b).IsArray prototype ys ∧
      xs.length = hi - lo ∧ List.Forall₂ (fun x y => z.sight x = z.sight y) xs ys ∧
      ∀ r, this = .record r → xs = ys := by
  obtain ⟨xs, hxs, hxsArray⟩ := ha.items_widen (refl_of Preserves w) hb.preserves
  obtain ⟨ys, hys, hysArray⟩ := hb.items_widen ha.preserves (refl_of Preserves z)
  refine ⟨xs, ys, hxsArray, hysArray, ?_, ?_, ?_⟩
  · rw [hxs.length_eq, List.length_range']
  · exact Receiver.sight_items hc h hthis hthere hitems hxs hys
  · rintro r rfl
    have hr : w.records.Has r := of_decide_eq_true hthere
    rw [Receiver.items_record hr hxs, Receiver.items_record hr hys]

end World.Slices

namespace ArrayMethod

section

variable {w : World} {this : Value} {n : Nat} (hc : w.Closed) (h : w.Sound)
  (hthis : Receiver.IsArrayLike w this) (hthere : w.backs this = true) (prototype : Ref .record)
  (hn : Receiver.length this w = .ok n w) (hread : ∀ i < n, Succeeds (Receiver.item this i) w)
include hc h hthis hthere hn hread

theorem exists_slice_of_preserves {u : World} (hu : w.Preserves u) (args : List Value) {lo hi : Nat}
    (hlo : boundOf (argument args 0) n 0 u = .ok lo u) (hhi : boundOf (argument args 1) n n u = .ok hi u)
    (hle : hi ≤ n) : ∃ r u', runSlice prototype this args u = .ok (.record r) u' ∧
      u.Slices prototype this lo hi r u' := by
  have hlength : Receiver.length this u = .ok n u :=
    Receiver.length_of_preserves hc h hthis hthere hu hn
  refine exists_slice args (hu.reads h).1 (hthis.of_preserves hu) prototype hlength hlo hhi hle ?_
  intro i hi
  exact (Receiver.succeeds_item_iff_of_preserves hc h hthis hu
    (Receiver.hasItem_of_length h hthis hn hi)).mpr (hread i hi)

/-- The items that two slices make up are those of the receiver. -/
theorem exists_concat_slices {k : Value} {x : Double} (hk : k ≠ .undefined) (hback : w.backs k = true)
    (hx : w.numberOf k = .ok x) :
    ∃ a b c d w₁ w₂ w₃ w₄, runSlice prototype this [.int 0, k] w = .ok (.record a) w₁ ∧
      runSlice prototype this [k] w₁ = .ok (.record b) w₂ ∧
      runConcat prototype (.record a) [.record b] w₂ = .ok (.record c) w₃ ∧
      runSlice prototype this [] w₃ = .ok (.record d) w₄ ∧
      ∃ xs ys, (w₄.records.get c).IsArray prototype xs ∧ (w₄.records.get d).IsArray prototype ys ∧
        xs.length = n ∧ List.Forall₂ (fun x y => w₄.sight x = w₄.sight y) xs ys ∧
        ∀ r, this = .record r → xs = ys := by
  have hnle : n ≤ greatestLength := Receiver.length_le hn
  have hm : relativeIndex n x ≤ n := relativeIndex_le n x
  have hzero : boundOf (.int 0) n 0 w = .ok 0 w := by
    have hbound : boundOf (.int 0) n 0 w = .ok (relativeIndex n (Double.ofInt (0 : Nat))) w :=
      boundOf_of_ne (by decide) (numberOf_length w rfl (Nat.zero_le _)) n 0
    rwa [relativeIndex_zero] at hbound
  -- both slices read the bound as the same index: its number stays when the first one is made
  obtain ⟨a, w₁, ha, hsa⟩ := exists_slice [.int 0, k] h hthis prototype hn hzero
    (boundOf_of_ne hk hx n n) hm hread
  have h₁ := hsa.preserves
  have hx₁ : w₁.numberOf k = .ok x := (h₁.numberOf_eq hc h hback).trans hx
  obtain ⟨b, w₂, hb, hsb⟩ := exists_slice_of_preserves hc h hthis hthere prototype hn hread h₁ [k]
    (boundOf_of_ne hk hx₁ n 0) rfl (Nat.le_refl n)
  obtain ⟨c, w₃, hconcat, hsc⟩ := hsa.exists_concat hsb hm hnle
  obtain ⟨d, w₄, hd, hsd⟩ := exists_slice_of_preserves hc h hthis hthere prototype hn hread
    hsc.preserves [] rfl rfl (Nat.le_refl n)
  exact ⟨a, b, c, d, w₁, w₂, w₃, w₄, ha, hb, hconcat, hd,
    hsc.alike hc h hthis hthere (hasItem_of_mem_range h hthis hn 0 (Nat.le_refl n)) hsd⟩

end

/-- The method `slice` takes the items between its bounds. For every array-like receiver and any
arguments that have numbers, the number of a bound cut to its whole part is an index, from the end if
it is negative, and an index beyond the range is cut to it. The slice is made exactly if the items
between the two indices can be read, and it is a new script array of these items in order; the receiver
and everything else that there was stays as it is. Where nothing refers to an object that there is not
and all items can be read, the slices that end and start at one bound, put together by the method
`concat`, hold what the slice without bounds holds: the same values, views of the same cells and boxes
of the same host values. -/
theorem slice_spec {w : World} (hw : Reachable w) {this : Value}
    (hthis : Receiver.IsArrayLike w this) (hthere : w.backs this = true) {n : Nat}
    (hn : Receiver.length this w = .ok n w) (call : Caller) (prototype : Ref .record) :
    (∀ args x y, w.numberOf (argument args 0) = .ok x → w.numberOf (argument args 1) = .ok y →
      ∃ lo hi, Bound n 0 (argument args 0) x lo ∧ Bound n n (argument args 1) y hi ∧
        (Succeeds (run call slice prototype this args) w ↔
          ∀ i, lo ≤ i → i < hi → Succeeds (Receiver.item this i) w) ∧
        ∀ v w', run call slice prototype this args w = .ok v w' →
          ∃ r, v = .record r ∧ w.Slices prototype this lo hi r w') ∧
    (w.Closed → (∀ i < n, Succeeds (Receiver.item this i) w) →
      ∀ k x, k ≠ .undefined → w.backs k = true → w.numberOf k = .ok x →
        ∃ a b c d w₁ w₂ w₃ w₄, run call slice prototype this [.int 0, k] w = .ok (.record a) w₁ ∧
          run call slice prototype this [k] w₁ = .ok (.record b) w₂ ∧
          run call concat prototype (.record a) [.record b] w₂ = .ok (.record c) w₃ ∧
          run call slice prototype this [] w₃ = .ok (.record d) w₄ ∧
          ∃ xs ys, (w₄.records.get c).IsArray prototype xs ∧ (w₄.records.get d).IsArray prototype ys ∧
            xs.length = n ∧ List.Forall₂ (fun x y => w₄.sight x = w₄.sight y) xs ys ∧
            ∀ r, this = .record r → xs = ys) := by
  have h := hw.sound
  refine ⟨fun args x y hx hy => ?_, fun hc hread k x hk hback hx => ?_⟩
  · obtain ⟨lo, hboundLo, hlo, -⟩ := exists_boundOf hx (Nat.zero_le n)
    obtain ⟨hi, hboundHi, hhi, hle⟩ := exists_boundOf hy (Nat.le_refl n)
    refine ⟨lo, hi, hboundLo, hboundHi, ?_, fun v w' hv => ?_⟩
    · exact succeeds_runSlice_iff h hthis prototype hn hlo hhi hle
    · exact slices_of_runSlice h hthis prototype hn hlo hhi hle hv
  · exact exists_concat_slices hc h hthis hthere prototype hn hread hk hback hx

def trio : World := World.empty.afterAll [
  .newPresenter .standard,
  .buildArray (.native (.int true 1)) [3] [.int 4, .int 5, .int 6],
  .newView .null ⟨1⟩ ⟨0⟩ none false]

theorem reachable_trio : Reachable trio := by
  apply Reachable.start.afterAll
  simp [Operation.IsProper, CellType.native, Content.IsProper]

theorem length_trio : Receiver.length (.view ⟨0⟩) trio = .ok 3 trio := by
  refine (Receiver.length_eq_ok_iff reachable_trio.sound (.view (by decide))).mpr
    ⟨Double.ofInt (3 : Nat), ?_, Double.asLength_ofInt (by decide), rfl⟩
  exact numberOf_length trio (by decide +kernel) (by decide)

theorem succeeds_item_trio (i : Nat) (hi : i < 3) : Succeeds (Receiver.item (.view ⟨0⟩) i) trio := by
  have h := reachable_trio.sound
  have hview : trio.views.Has ⟨0⟩ := by decide
  have hlength : (trio.shown ⟨0⟩).length = 3 := by decide +kernel
  have hlt : i < (trio.shown ⟨0⟩).length := by rwa [hlength]
  have hplain : (trio.shown ⟨0⟩).rowShape = [] := by decide +kernel
  have hscalar : (trio.shown ⟨0⟩).type.content.IsScalar := by
    rw [show (trio.shown ⟨0⟩).type = .native (.int true 1) by decide +kernel]
    exact True.intro
  refine (View.succeeds_getIndex_iff h hview (Receiver.isInteger_index i) hlt).mpr (.inr ?_)
  exact presentable_itemValue hscalar (View.accepts_cell h hview hlt hplain).1 trio

/-- The slice from the bound `true` on has the last two of three items, and put after the slice that
ends there it makes up all three. -/
theorem slices_rejoin :
    (∃ r w', run (fun _ _ _ => pure .undefined) slice ⟨0⟩ (.view ⟨0⟩) [.bool true] trio =
        .ok (.record r) w' ∧ trio.Slices ⟨0⟩ (.view ⟨0⟩) 1 3 r w') ∧
    ∃ a b c d w₁ w₂ w₃ w₄,
      run (fun _ _ _ => pure .undefined) slice ⟨0⟩ (.view ⟨0⟩) [.int 0, .bool true] trio =
        .ok (.record a) w₁ ∧
      run (fun _ _ _ => pure .undefined) slice ⟨0⟩ (.view ⟨0⟩) [.bool true] w₁ = .ok (.record b) w₂ ∧
      run (fun _ _ _ => pure .undefined) concat ⟨0⟩ (.record a) [.record b] w₂ = .ok (.record c) w₃ ∧
      run (fun _ _ _ => pure .undefined) slice ⟨0⟩ (.view ⟨0⟩) [] w₃ = .ok (.record d) w₄ ∧
      ∃ xs ys, (w₄.records.get c).IsArray ⟨0⟩ xs ∧ (w₄.records.get d).IsArray ⟨0⟩ ys ∧
        xs.length = 3 ∧ List.Forall₂ (fun x y => w₄.sight x = w₄.sight y) xs ys := by
  have hone : (Double.ofInt (1 : Nat)).truncate? = some 1 := (Double.truncate?_ofInt (by decide)).1
  have hclosed : trio.Closed := by constructor <;> decide +kernel
  obtain ⟨hslice, hsplit⟩ := slice_spec reachable_trio (.view (q := ⟨0⟩) (by decide)) (by decide)
    length_trio (fun _ _ _ => pure .undefined) ⟨0⟩
  constructor
  · obtain ⟨lo, hi, hlo, hhi, hsucceeds, hends⟩ :=
      hslice [.bool true] (Double.ofInt (1 : Nat)) .nan rfl rfl
    obtain rfl := hlo.unique (.whole (k := 1) (by decide) (Double.truncate?_eq_some_iff.mp hone))
    obtain rfl := hhi.unique (.absent .nan)
    obtain ⟨v, w', hv⟩ := hsucceeds.mpr fun i _ hi => succeeds_item_trio i hi
    obtain ⟨r, rfl, hr⟩ := hends v w' hv
    exact ⟨r, w', hv, hr⟩
  · obtain ⟨a, b, c, d, w₁, w₂, w₃, w₄, ha, hb, hc, hd, xs, ys, hxs, hys, hlength, hsame, -⟩ :=
      hsplit hclosed succeeds_item_trio (.bool true) (Double.ofInt (1 : Nat)) (by decide) rfl rfl
    exact ⟨a, b, c, d, w₁, w₂, w₃, w₄, ha, hb, hc, hd, xs, ys, hxs, hys, hlength, hsame⟩

end ArrayMethod

end ScriptedArrays
