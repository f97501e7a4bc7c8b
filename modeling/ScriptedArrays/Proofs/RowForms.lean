import ScriptedArrays.Proofs.SlotCopies

/-! The forms of a row. The host lists an array as nested lists of its cells, and a slice of a
view is a script array of what its slots are read as. Both carry the cells of the row. -/

namespace ScriptedArrays

open World

theorem mapM_keep_isKept (vs : List Value) (w : World) : ∃ xs n,
    vs.mapM keep w = .ok xs { w with kept := n } ∧ List.Forall₂ Value.IsKept xs vs := by
  induction vs generalizing w with
  | nil => exact ⟨[], w.kept, rfl, .nil⟩
  | cons v vs ih =>
    obtain ⟨x, n, hx, hcontent, hsame⟩ := keep_eq v w
    obtain ⟨xs, m, hxs, hkept⟩ := ih { w with kept := n }
    refine ⟨x :: xs, m, ?_, .cons ⟨hcontent, hsame⟩ hkept⟩
    rw [List.mapM_cons, bind_apply_of_ok _ hx, bind_apply_of_ok _ hxs]
    rfl

namespace World

variable {w : World} {t : CellType} {shape : List Nat} {x y : Value} {cells : List Value}

theorem Mirrors.of_item (hy : (w.hostValue y).item = (w.hostValue x).item)
    (h : w.Mirrors t shape x cells) : w.Mirrors t shape y cells := by
  cases shape with
  | nil =>
    obtain ⟨c, rfl, hs, hstands⟩ := h
    refine ⟨c, rfl, hs, ?_⟩
    rw [StandsFor, comparable, hy, ← comparable]
    exact hstands
  | cons n shape =>
    rcases h with ⟨win, hwin, h⟩ | ⟨items, rows, hitems, h⟩
    · refine .inl ⟨win, ?_, h⟩
      rw [← hwin, contentOf, contentOf, hy]
    · refine .inr ⟨items, rows, ?_, h⟩
      rw [Itemizes, hy]
      exact hitems

theorem Carries.of_isKept (hy : y.IsKept x) (h : w.Carries t shape x cells) :
    w.Carries t shape y cells := fun u hu => (h u hu).of_item (by
  rw [Value.item, Value.item, content_hostValue u hy])

theorem Carries.boxed {b : Ref .box} (hb : w.boxes.Has b) (hkept : (w.boxes.get b).value.IsKept x)
    (hx : x.isWrapper = false) (h : w.Carries t shape x cells) : w.Carries t shape (.box b) cells := by
  intro u hu
  have hvalue : u.hostValue (.box b) = (w.boxes.get b).value := congrArg Box.value (hu.box b hb).2
  refine (h u hu).of_item ?_
  rw [hvalue, hostValue_eq_self hx, Value.item, Value.item, hkept.content]

theorem mirrors_of_items {items vs : List Value} {rows : List (List Value)}
    (hx : w.Itemizes x items) (hkept : List.Forall₂ Value.IsKept items vs)
    (hvs : List.Forall₂ (fun v row => w.Carries t shape v row) vs rows) :
    w.Mirrors t (vs.length :: shape) x rows.flatten := by
  refine .inr ⟨items, rows, hx, hkept.length_eq, ?_, rfl⟩
  clear hx
  induction hkept generalizing rows with
  | nil =>
    cases hvs
    exact .nil
  | cons hy _ ih =>
    cases hvs with
    | cons hv hvs => exact .cons (hv.of_isKept hy).mirrors (ih hvs)

end World

theorem newList_spec (vs : List Value) (w : World) : ∃ r w', newList vs w = .ok (.list r) w' ∧
    w.Retains w' ∧ w'.lists.Has r ∧ List.Forall₂ Value.IsKept (w'.lists.get r) vs := by
  obtain ⟨xs, n, hxs, hkept⟩ := mapM_keep_isKept vs w
  have hw : w.Retains { w with kept := n, lists := w.lists.push xs } :=
    { reads := reads_of_eq rfl rfl rfl rfl
      box := fun b hb => ⟨hb, rfl⟩
      list := fun l hl =>
        ⟨Store.has_push_of_has _ _ hl, Store.get_push_of_ne _ _ (w.lists.ne_next_of_has hl)⟩ }
  refine ⟨w.lists.next, _, ?_, hw, Store.has_push_next _ _, ?_⟩
  · rw [newList, bind_apply_of_ok _ hxs]
    rfl
  · dsimp only
    rw [Store.get_push_next]
    exact hkept

theorem length_of_mem_pieces {α : Type} {size count : Nat} {xs piece : List α}
    (h : xs.length = count * size) (hp : piece ∈ pieces size count xs) : piece.length = size := by
  induction count generalizing xs with
  | zero => exact absurd hp List.not_mem_nil
  | succ count ih =>
    rw [Nat.succ_mul] at h
    rcases List.mem_cons.mp hp with rfl | hp
    · rw [List.length_take]
      omega
    · refine ih ?_ hp
      rw [List.length_drop]
      omega

theorem standsFor_self {w : World} {t : CellType} {c : Value} (ho : t.isObject = false)
    (hc : t.content.Admits c) : w.StandsFor c c := by
  rw [StandsFor, hostValue_eq_self (isPrimitive_of_admits ho hc).isWrapper]

namespace HostMethod

variable {t : CellType}

/-- Cells of a scalar type in nested lists. Without cells any type will do. -/
theorem nested_carries {shape : List Nat} {cells : List Value} (w : World)
    (hl : cells.length = cellCount shape)
    (hc : ∀ c ∈ cells, t.content.IsScalar ∧ t.content.Admits c) :
    ∃ x w', nested shape cells w = .ok x w' ∧ w.Retains w' ∧ w'.Carries t shape x cells ∧
      (shape ≠ [] → ∃ l, x = .list l) := by
  induction shape generalizing cells w with
  | nil =>
    obtain ⟨c, rfl⟩ := List.length_eq_one_iff.mp hl
    obtain ⟨hs, hadmits⟩ := hc c List.mem_cons_self
    refine ⟨c, w, rfl, refl_of Retains w, fun u _ => ⟨c, rfl, hs, ?_⟩, fun h => absurd rfl h⟩
    exact standsFor_self (isObject_of_isScalar hs) hadmits
  | cons n shape ih =>
    have hpieces : ∀ (ps : List (List Value)) (w : World),
        (∀ p ∈ ps, p.length = cellCount shape ∧
          ∀ c ∈ p, t.content.IsScalar ∧ t.content.Admits c) →
        ∃ xs w', ps.mapM (nested shape) w = .ok xs w' ∧ w.Retains w' ∧
          List.Forall₂ (fun x p => w'.Carries t shape x p) xs ps := by
      intro ps
      induction ps with
      | nil => exact fun w _ => ⟨[], w, rfl, refl_of Retains w, .nil⟩
      | cons p ps ihps =>
        intro w hps
        obtain ⟨hlen, hadmits⟩ := hps p List.mem_cons_self
        obtain ⟨x, u, hx, hu, hcarries, -⟩ := ih w hlen hadmits
        obtain ⟨xs, w', hxs, hw', hall⟩ := ihps u fun q hq => hps q (List.mem_cons_of_mem p hq)
        refine ⟨x :: xs, w', ?_, trans_of Retains hu hw', .cons (hcarries.of_retains hw') hall⟩
        rw [List.mapM_cons, bind_apply_of_ok _ hx, bind_apply_of_ok _ hxs]
        rfl
    have hlen : cells.length = n * cellCount shape := hl
    obtain ⟨xs, u, hxs, hu, hrows⟩ := hpieces (pieces (cellCount shape) n cells) w fun p hp =>
      ⟨length_of_mem_pieces hlen hp, fun c hmem => hc c (mem_of_mem_pieces hp c hmem)⟩
    obtain ⟨r, w', hr, hw', hhas, hkept⟩ := newList_spec xs u
    have hn : xs.length = n := by rw [hrows.length_eq, length_pieces]
    refine ⟨.list r, w', ?_, trans_of Retains hu hw', fun v hv => ?_, fun _ => ⟨r, rfl⟩⟩
    · rw [nested, bind_apply_of_ok _ hxs, hr]
    · rw [← hn, ← flatten_pieces (cellCount shape) n hlen]
      rw [← (hv.list r hhas).2] at hkept
      refine mirrors_of_items (.inl ⟨r, rfl, rfl⟩) hkept (hrows.imp fun x p hx => ?_)
      exact hx.of_retains (trans_of Retains hw' hv)

end HostMethod

theorem Format.log2_mul_twoTo_lt {n p : Nat} (k : Nat) (hp : 0 < p) (hn : n < twoTo p) :
    (n * twoTo k).log2 < p + k := by
  by_cases h0 : n * twoTo k = 0
  · rw [h0, Nat.log2_zero]
    omega
  · refine Format.log2_lt_of_lt_twoTo h0 ?_
    rw [twoTo_add]
    exact Nat.mul_lt_mul_of_pos_right hn (twoTo_pos k)

theorem Format.holds_whole {n : Nat} (hn : n < twoTo 53) : Format.double.Holds (n * twoTo 1074) := by
  have hlog := Format.log2_mul_twoTo_lt 1074 (by decide) hn
  constructor
  · refine Nat.mod_eq_zero_of_dvd (Nat.dvd_trans ?_ (Nat.dvd_mul_left (twoTo 1074) n))
    rw [Format.spacing_eq]
    apply twoTo_dvd
    simp only [Format.step, Format.double]
    omega
  · refine Nat.lt_of_lt_of_le (Format.lt_twoTo_log2 _) (Format.twoTo_le ?_)
    simp only [Format.double]
    omega

theorem Double.ofInt_of_le {n : Nat} (hn : n ≤ greatestLength) :
    ∃ h, Double.ofInt n = .finite false (n * twoTo 1074) h := by
  have htwo : twoTo 53 = greatestLength + 1 := by decide
  refine ⟨Format.holds_whole (by omega), ?_⟩
  rw [Double.ofInt, Int.natAbs_natCast, Double.one, Double.ofUnits_one _ (Format.holds_whole (by omega))]
  congr 1

theorem numberOf_length (w : World) {v : Value} {n : Nat} (hv : v.content = .int n)
    (hn : n ≤ greatestLength) : w.numberOf v = .ok (Double.ofInt n) := by
  obtain ⟨h, hofInt⟩ := Double.ofInt_of_le hn
  have hplain : v.plain = .int n := by rw [Value.plain, hv]
  rw [World.numberOf, hplain]
  show Double.ofInt? n = _
  rw [Double.ofInt?, hofInt]
  rfl

theorem Double.asLength_ofInt {n : Nat} (hn : n ≤ greatestLength) : (Double.ofInt n).asLength = n := by
  obtain ⟨h, hofInt⟩ := Double.ofInt_of_le hn
  rw [hofInt, Double.asLength, Double.one, Nat.mul_div_cancel n (twoTo_pos 1074)]
  exact Nat.min_eq_left hn

theorem Double.asLength_le (x : Double) : x.asLength ≤ greatestLength := by
  simp only [Double.asLength]
  split
  · exact Nat.min_le_right _ _
  · exact Nat.le_refl _
  · exact Nat.zero_le _

theorem Receiver.length_le {w w' : World} {v : Value} {n : Nat} (hn : Receiver.length v w = .ok n w') :
    n ≤ greatestLength := by
  have hof : ∀ (e : Action Double) (u : World),
      (e >>= fun x => (pure x.asLength : Action Nat)) u = .ok n w' → n ≤ greatestLength := by
    intro e u he
    obtain ⟨x, u', -, hx⟩ := bind_eq_ok.mp he
    cases hx
    exact x.asLength_le
  rw [Receiver.length.eq_def] at hn
  split at hn
  · rw [get_bind_apply] at hn
    exact hof _ _ hn
  · obtain ⟨x, u, -, hx⟩ := bind_eq_ok.mp hn
    exact hof _ _ hx

theorem Double.truncate?_ofInt {n : Nat} (hn : n ≤ greatestLength) :
    (Double.ofInt n).truncate? = some (n : Int) ∧ (Double.ofInt n).less .zero = false := by
  obtain ⟨h, hofInt⟩ := Double.ofInt_of_le hn
  rw [hofInt]
  constructor
  · rw [Double.truncate?, Double.one, Nat.mul_div_cancel n (twoTo_pos 1074)]
    rfl
  · have hnonneg : ¬ (((n * twoTo 1074 : Nat) : Int) < 0) :=
      Int.not_lt.mpr (Int.natCast_nonneg (n * twoTo 1074))
    exact decide_eq_false hnonneg

theorem Entries.get?_of_nodup {e : Entries} (hn : e.names.Nodup) {i : Nat} (hi : i < e.length) :
    e.get? e[i].1 = some e[i].2 := by
  induction e generalizing i with
  | nil => exact absurd hi (Nat.not_lt_zero i)
  | cons p rest ih =>
    obtain ⟨hp, hrest⟩ := List.nodup_cons.mp hn
    cases i with
    | zero => simp [Entries.get?]
    | succ i =>
      have hi' : i < rest.length := by simpa using hi
      have hne : p.1 ≠ rest[i].1 := fun heq =>
        hp (List.mem_map.mpr ⟨rest[i], List.getElem_mem hi', heq.symm⟩)
      have hfind := ih hrest hi'
      rw [Entries.get?] at hfind ⊢
      rw [List.getElem_cons_succ, List.find?_cons_of_neg (by simpa using hne), hfind]

theorem toList_toString (i : Nat) : (toString i).toList = Nat.toDigits 10 i := by
  have hrepr : toString i = String.ofList (Nat.toDigits 10 i) := Nat.repr_eq_ofList_toDigits
  rw [hrepr, String.toList_ofList]

theorem toString_index_injective : Function.Injective fun i : Nat => toString i := by
  intro i j h
  have hdigits : Nat.toDigits 10 i = Nat.toDigits 10 j := by
    rw [← toList_toString, ← toList_toString]
    exact congrArg String.toList h
  rw [← Nat.ofDigitChars_ten_toDigits (n := i), hdigits, Nat.ofDigitChars_ten_toDigits]

theorem toString_ne {s : String} {c : Char} (hc : c ∈ s.toList) (hd : c.isDigit = false) (i : Nat) :
    toString i ≠ s := by
  rintro rfl
  rw [toList_toString] at hc
  have hdigit := Nat.isDigit_of_mem_toDigits (by decide) (by decide) hc
  rw [hd] at hdigit
  cases hdigit

theorem names_arrayEntries (prototype : Ref .record) (items : List Value) :
    (arrayEntries prototype items).names =
      protoKey :: "length" :: (List.range items.length).map fun i : Nat => toString i := by
  simp only [arrayEntries, Entries.names, List.map_cons, List.map_map]
  congr 2
  apply List.ext_getElem
  · simp
  · simp

theorem nodup_arrayEntries (prototype : Ref .record) (items : List Value) :
    (arrayEntries prototype items).names.Nodup := by
  rw [names_arrayEntries, List.nodup_cons, List.nodup_cons]
  refine ⟨?_, ?_, List.nodup_range.map toString_index_injective⟩
  · rw [List.mem_cons]
    rintro (h | h)
    · exact absurd h (by decide)
    · obtain ⟨i, -, hi⟩ := List.mem_map.mp h
      exact toString_ne (c := '_') (by decide) rfl i hi
  · intro h
    obtain ⟨i, -, hi⟩ := List.mem_map.mp h
    exact toString_ne (c := 'l') (by decide) rfl i hi

theorem keepEntries_spec (e : Entries) (w : World) : ∃ es n,
    keepEntries e w = .ok es { w with kept := n } ∧
      List.Forall₂ (fun a b => a.1 = b.1 ∧ a.2.IsKept b.2) es e := by
  induction e generalizing w with
  | nil => exact ⟨[], w.kept, rfl, .nil⟩
  | cons p e ih =>
    obtain ⟨x, n, hx, hcontent, hsame⟩ := keep_eq p.2 w
    obtain ⟨es, m, hes, hkept⟩ := ih { w with kept := n }
    have hp : (keep p.2 >>= fun y => (pure (p.1, y) : Action (String × Value))) w =
        .ok (p.1, x) { w with kept := n } := by
      rw [bind_apply_of_ok _ hx]
      rfl
    refine ⟨(p.1, x) :: es, m, ?_, .cons ⟨rfl, hcontent, hsame⟩ hkept⟩
    rw [keepEntries] at hes ⊢
    rw [List.mapM_cons, bind_apply_of_ok _ hp, bind_apply_of_ok _ hes]
    rfl

theorem names_of_kept {es e : Entries}
    (h : List.Forall₂ (fun a b => a.1 = b.1 ∧ a.2.IsKept b.2) es e) : es.names = e.names := by
  induction h with
  | nil => rfl
  | cons hab _ ih => rw [Entries.names, Entries.names, List.map_cons, List.map_cons, hab.1,
      ← Entries.names, ← Entries.names, ih]

theorem newRecord_spec (e : Entries) (w : World) : ∃ es n,
    newRecord e w = .ok w.records.next { w with kept := n, records := w.records.push es } ∧
      List.Forall₂ (fun a b => a.1 = b.1 ∧ a.2.IsKept b.2) es e := by
  obtain ⟨es, n, hes, hkept⟩ := keepEntries_spec e w
  refine ⟨es, n, ?_, hkept⟩
  rw [newRecord, bind_apply_of_ok _ hes]
  rfl

/-- A new script array has its items as they are kept. -/
theorem makeArray_spec (prototype : Ref .record) (items : List Value) (w : World)
    (hn : items.length ≤ greatestLength) : ∃ r w' ys, makeArray prototype items w = .ok (.record r) w' ∧
      w.Retains w' ∧ List.Forall₂ Value.IsKept ys items ∧ w'.ScriptArray r ys := by
  obtain ⟨es, n, hes, hkept⟩ := newRecord_spec (arrayEntries prototype items) w
  have hnodup : es.names.Nodup := by
    rw [names_of_kept hkept]
    exact nodup_arrayEntries prototype items
  obtain ⟨proto, es₁, -, hkept₁, rfl⟩ := List.forall₂_cons_right_iff.mp hkept
  obtain ⟨len, rest, ⟨hlen, hlenKept⟩, hrest, rfl⟩ := List.forall₂_cons_right_iff.mp hkept₁
  have hcount : rest.length = items.length := by
    rw [hrest.length_eq, List.length_map, List.length_zipIdx]
  have hentry : ∀ i, ∀ hi : i < rest.length, rest[i].1 = toString i ∧
      rest[i].2.IsKept (items.get ⟨i, hcount ▸ hi⟩) := by
    intro i hi
    have hget := hrest.get hi (by rwa [← hrest.length_eq])
    simpa using hget
  refine ⟨w.records.next, { w with kept := n, records := w.records.push (proto :: len :: rest) },
    rest.map (·.2), ?_, ?_, ?_, ?_, ?_⟩
  · rw [makeArray, bind_apply_of_ok _ hes]
    rfl
  · exact retains_of_eq rfl rfl rfl rfl rfl rfl
  · refine List.forall₂_iff_get.mpr ⟨by rw [List.length_map, hcount], fun i hi _ => ?_⟩
    have hi' : i < rest.length := by rwa [List.length_map] at hi
    simpa using (hentry i hi').2
  · have hget : Entries.get? (proto :: len :: rest) len.1 = some len.2 :=
      Entries.get?_of_nodup hnodup (i := 1) (by simp)
    rw [hlen] at hget
    obtain ⟨htrunc, hless⟩ := Double.truncate?_ofInt hn
    refine ⟨len.2, Double.ofInt items.length, ?_, ?_, ?_, hless⟩
    · rw [Store.get_push_next, hget]
    · exact numberOf_length _ hlenKept.content hn
    · rw [htrunc, List.length_map, hcount]
  · intro i hi
    have hi' : i < rest.length := by rwa [List.length_map] at hi
    have hget : Entries.get? (proto :: len :: rest) rest[i].1 = some rest[i].2 :=
      Entries.get?_of_nodup hnodup (i := i + 2) (by simpa using hi')
    rw [(hentry i hi').1] at hget
    rw [Store.get_push_next, Entries.getD, hget, Option.getD_some, List.getElem_map]

namespace Receiver

variable {w : World} {q : Ref .view}

/-- What slots of a view are read as carries their cells, as long as nothing is written. -/
theorem itemsAt_carries (h : w.Sound) (hq : w.views.Has q) (indices : List Nat)
    (hi : ∀ i ∈ indices, i < (w.shown q).length ∧
      ((w.shown q).rowShape = [] → (w.shown q).type.content.IsScalar)) (earlier : List Value) :
    ∃ xs w', itemsAt (.view q) earlier indices w = .ok xs w' ∧ w.Retains w' ∧
      List.Forall₂ (fun x i => w'.Carries (w.shown q).type (w.shown q).rowShape x
        (w.cells ((w.shown q).row i))) xs indices := by
  induction indices generalizing w earlier with
  | nil => exact ⟨[], w, rfl, refl_of Retains w, .nil⟩
  | cons i indices ih =>
    have hint : (Value.int i).IsInteger (i : Nat) := .inl rfl
    let held : World := { w with inUse := earlier ++ w.inUse }
    have hheld : w.Retains held := retains_of_eq rfl rfl rfl rfl rfl rfl
    obtain ⟨hlt, hs⟩ := hi i List.mem_cons_self
    obtain ⟨x, u, hx, hu, hcarries⟩ :=
      View.getIndex_carries (w := held) (hheld.reads h).1 hq hs hint hlt
    have hfree : u.Retains { u with inUse := w.inUse } := retains_of_eq rfl rfl rfl rfl rfl rfl
    have hretains : w.Retains { u with inUse := w.inUse } :=
      trans_of Retains hheld (trans_of Retains hu hfree)
    have hitem : holding earlier (item (.view q) i) w = .ok x { u with inUse := w.inUse } :=
      holding_of_ok hx
    obtain ⟨hsound, hext, -⟩ := hretains.reads h
    have hshown : World.shown { u with inUse := w.inUse } q = w.shown q := hext.shown h hq
    obtain ⟨xs, w', hxs, hw', hall⟩ := ih hsound (hext.hasView q hq)
      (by rw [hshown]; exact fun j hj => hi j (List.mem_cons_of_mem i hj)) (x :: earlier)
    rw [hshown] at hall
    simp only [hretains.reads.cells h] at hall
    refine ⟨x :: xs, w', ?_, trans_of Retains hretains hw', .cons ?_ hall⟩
    · rw [itemsAt, bind_apply_of_ok _ hitem, bind_apply_of_ok _ hxs]
      rfl
    · exact hcarries.of_retains (trans_of Retains hfree hw')

end Receiver

end ScriptedArrays
