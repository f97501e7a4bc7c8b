import ScriptedArrays.Proofs.Casts

/-! Rows from arrays and rows from lists. An array of the shape of a slot is converted like the
nested list of its elements, unless its type is cast safely: then the host writes the cells, and
the outcomes agree only where its rules are those of scripts. -/

namespace ScriptedArrays

open World

theorem forall₂_sameContent_iff {xs ys : List Value} :
    List.Forall₂ SameContent xs ys ↔ xs.map Value.content = ys.map Value.content := by
  rw [← List.forall₂_eq_eq_eq, List.forall₂_map_left_iff, List.forall₂_map_right_iff]
  rfl

/-- Both values end alike when they are converted: both fail, or both give an array of the type
and the shape of the slot, with equal cells. -/
inductive World.ConvertsAlike (w : World) (truncates : Bool) (slot : SlotType) (v x : Value) : Prop
  | refused {f f' : Fault} {u u' : World} (hv : convert truncates slot v w = .error f u)
      (hx : convert truncates slot x w = .error f' u')
  | rows {a b : Ref .array} {u u' : World} (hv : convert truncates slot v w = .ok (.array a) u)
      (hx : convert truncates slot x w = .ok (.array b) u')
      (type : (u.arrays.get a).type = slot.cell ∧ (u'.arrays.get b).type = slot.cell)
      (shape : (u.arrays.get a).shape = slot.shape ∧ (u'.arrays.get b).shape = slot.shape)
      (cells : List.Forall₂ SameContent (u.cells (u.arrays.get a)) (u'.cells (u'.arrays.get b)))

section Convert

variable {w : World} {truncates : Bool} {slot : SlotType} {v x : Value}

/-- An array of the type and the shape of the row is cast to itself. -/
theorem toCells_of_array (h : w.Sound) (hn : slot.isNested = true) {r : Ref .array}
    (hv : (w.hostValue v).item = .array r) (ht : (w.arrays.get r).type = w.rowType slot v)
    (hs : (w.arrays.get r).shape = slot.shape) :
    Conversion.toCells w truncates slot.cell slot.shape (.plain v) =
      .ok (w.cells (w.arrays.get r)) := by
  have haccepts : ∀ c ∈ w.cells (w.arrays.get r), (w.rowType slot v).Accepts c := by
    have hwithin : w.Within (w.arrays.get r) := (h.shows r).within
    exact ht ▸ hwithin.accepts_cells h
  have hcontent : w.contentOf (.plain v) = .window (w.arrays.get r) := by
    rw [World.contentOf, hv]
    rfl
  have hcast : (w.cells (w.arrays.get r)).mapM
      (Conversion.castCell (w.rowType slot v) slot.cell.content) =
        .ok (w.cells (w.arrays.get r)) :=
    mapM_of_forall₂ (List.forall₂_same.mpr fun c hmem => castCell_rowType (haccepts c hmem).1)
  cases hshape : slot.shape with
  | nil => simp [SlotType.isNested, hshape] at hn
  | cons n shape =>
    have hsafe := castsSafely_rowType w slot v
    rw [← ht] at hcast hsafe
    rw [Conversion.toCells_of_safe hcontent (hs.trans hshape) hsafe, hcast]
    rfl

theorem convert_array (h : w.Sound) (hn : slot.isNested = true) {r : Ref .array}
    (ht : (w.arrays.get r).type = w.rowType slot (.array r))
    (hs : (w.arrays.get r).shape = slot.shape) :
    convert truncates slot (.array r) w = .ok (.array r) w :=
  convert_of_reusable hn (toCells_of_array h hn rfl ht hs) (reusable?_eq_some_iff.mpr ⟨rfl, ht, hs⟩)

/-- The cells of a converted row are held in an array of the shape of the slot, of the type that
the row has. -/
theorem convert_of_proper (h : w.Sound) (hn : slot.isNested = true)
    (hp : slot.cell.content.IsProper) {cells : List Value}
    (hc : Conversion.toCells w truncates slot.cell slot.shape (.plain v) = .ok cells) :
    ∃ a u, convert truncates slot v w = .ok (.array a) u ∧
      (u.arrays.get a).type = w.rowType slot v ∧ (u.arrays.get a).shape = slot.shape ∧
      List.Forall₂ SameContent (u.cells (u.arrays.get a)) (cells.map (w.rowType slot v).held) := by
  have hplain : w.ShowsOperand (.plain v) := True.intro
  have hadmits : ∀ x ∈ cells, (w.rowType slot v).content.Admits x := fun x hx =>
    admits_rowType v (Conversion.admits_of_toCells h hp hplain hc x hx)
  have hlength := Conversion.length_of_toCells h hplain hc
  cases hq : w.reusable? (w.rowType slot v) slot.shape v with
  | some a =>
    refine ⟨a, w, convert_of_reusable hn hc hq, ?_⟩
    obtain ⟨hitem, htype, hshape⟩ := reusable?_eq_some_iff.mp hq
    refine ⟨htype, hshape, ?_⟩
    rw [toCells_of_array h hn hitem htype hshape] at hc
    cases hc
    have hwithin : w.Within (w.arrays.get a) := (h.shows a).within
    have hheld : ∀ c ∈ w.cells (w.arrays.get a), (w.rowType slot v).held c = c := fun c hmem =>
      htype ▸ (hwithin.accepts_cells h c hmem).2
    rw [List.map_congr_left hheld, List.map_id']
    exact forall₂_sameContent_refl _
  | none =>
    obtain ⟨u, hu, -, -, -, hget, -, hcells, -⟩ :=
      newArray_spec h slot.shape (regular_rowType h hp v) hadmits
    refine ⟨w.arrays.next, u, ?_, ?_⟩
    · rw [convert_of_new hn hc hq, bind_apply_of_ok _ hu]
      rfl
    · rw [hget]
      exact ⟨rfl, rfl, forall₂_sameContent_iff.mpr (hcells hlength)⟩

theorem convert_of_cells (h : w.Sound) (hn : slot.isNested = true) (hr : slot.cell.IsRegular)
    {cells : List Value}
    (hc : Conversion.toCells w truncates slot.cell slot.shape (.plain v) = .ok cells) :
    ∃ a u, convert truncates slot v w = .ok (.array a) u ∧ (u.arrays.get a).type = slot.cell ∧
      (u.arrays.get a).shape = slot.shape ∧
      List.Forall₂ SameContent (u.cells (u.arrays.get a)) (cells.map slot.cell.held) := by
  have hspec := convert_of_proper h hn hr.2 hc
  rwa [rowType_of_regular hr] at hspec

theorem convert_fails {e : Refusal} (hn : slot.isNested = true)
    (hc : Conversion.toCells w truncates slot.cell slot.shape (.plain v) = .error e) :
    ∃ f u, convert truncates slot v w = .error f u := by
  rw [convert_of_refused hn hc]
  obtain ⟨f, l, hf⟩ := refuseWith_eq e w
  exact ⟨f, _, hf⟩

/-- For a slot of a type that arrays have, conversions end alike if they give the same cells. -/
theorem convertsAlike_iff_alike (h : w.Sound) (hn : slot.isNested = true)
    (hr : slot.cell.IsRegular) :
    w.ConvertsAlike truncates slot v x ↔ Alike (List.Forall₂ (SameHeld slot.cell))
      (Conversion.toCells w truncates slot.cell slot.shape (.plain v))
      (Conversion.toCells w truncates slot.cell slot.shape (.plain x)) := by
  cases hv : Conversion.toCells w truncates slot.cell slot.shape (.plain v) with
  | error e =>
    cases hx : Conversion.toCells w truncates slot.cell slot.shape (.plain x) with
    | error e' =>
      refine iff_of_true ?_ (.error e e')
      obtain ⟨f, u, hf⟩ := convert_fails hn hv
      obtain ⟨f', u', hf'⟩ := convert_fails hn hx
      exact .refused hf hf'
    | ok ys =>
      obtain ⟨b, u, hb, -⟩ := convert_of_cells h hn hr hx
      refine iff_of_false ?_ nofun
      obtain ⟨f, u', hf⟩ := convert_fails hn hv
      rintro (⟨-, hx'⟩ | ⟨hv', -⟩)
      · rw [hb] at hx'
        cases hx'
      · rw [hf] at hv'
        cases hv'
  | ok xs =>
    obtain ⟨a, u, ha, htype, hshape, hcells⟩ := convert_of_cells h hn hr hv
    cases hx : Conversion.toCells w truncates slot.cell slot.shape (.plain x) with
    | error e' =>
      refine iff_of_false ?_ nofun
      obtain ⟨f, u', hf⟩ := convert_fails hn hx
      rintro (⟨hv', -⟩ | ⟨-, hx'⟩)
      · rw [ha] at hv'
        cases hv'
      · rw [hf] at hx'
        cases hx'
    | ok ys =>
      obtain ⟨b, u', hb, htype', hshape', hcells'⟩ := convert_of_cells h hn hr hx
      rw [forall₂_sameContent_iff] at hcells hcells'
      have hheld : List.Forall₂ (SameHeld slot.cell) xs ys ↔
          List.Forall₂ SameContent (u.cells (u.arrays.get a)) (u'.cells (u'.arrays.get b)) := by
        rw [forall₂_sameContent_iff, hcells, hcells', ← forall₂_sameContent_iff,
          List.forall₂_map_left_iff, List.forall₂_map_right_iff]
        rfl
      constructor
      · rintro (⟨hv', -⟩ | ⟨hv', hx', -, -, hsame⟩)
        · rw [ha] at hv'
          cases hv'
        · rw [ha] at hv'
          rw [hb] at hx'
          cases hv'
          cases hx'
          exact .ok (hheld.mpr hsame)
      · intro hsame
        cases hsame with
        | ok hsame => exact .rows ha hb ⟨htype, htype'⟩ ⟨hshape, hshape'⟩ (hheld.mp hsame)

/-- No array has a type without a size, so with such a slot conversions end alike only if both
fail. -/
theorem convertsAlike_iff_of_unsized (h : w.Sound) (hn : slot.isNested = true)
    (hp : slot.cell.content.IsProper) (hr : ¬ slot.cell.IsRegular) :
    w.ConvertsAlike truncates slot v x ↔
      (∃ e, Conversion.toCells w truncates slot.cell slot.shape (.plain v) = .error e) ∧
      ∃ e, Conversion.toCells w truncates slot.cell slot.shape (.plain x) = .error e := by
  have hfails : ∀ y f u, convert truncates slot y w = .error f u →
      ∃ e, Conversion.toCells w truncates slot.cell slot.shape (.plain y) = .error e := by
    intro y f u hy
    cases hc : Conversion.toCells w truncates slot.cell slot.shape (.plain y) with
    | error e => exact ⟨e, rfl⟩
    | ok cells =>
      obtain ⟨a, u', hu', -⟩ := convert_of_proper h hn hp hc
      rw [hu'] at hy
      cases hy
  constructor
  · rintro (⟨hv, hx⟩ | ⟨hv, -, htype, -⟩)
    · exact ⟨hfails _ _ _ hv, hfails _ _ _ hx⟩
    · have hs := (convert_ok h hp hv).1
      exact absurd (htype.1 ▸ hs.regular _) hr
  · rintro ⟨⟨e, hv⟩, ⟨e', hx⟩⟩
    obtain ⟨f, u, hf⟩ := convert_fails hn hv
    obtain ⟨f', u', hf'⟩ := convert_fails hn hx
    exact .refused hf hf'

end Convert

theorem forall₂_sameHeld_iff {d : CellType} {xs ys : List Value} :
    List.Forall₂ (SameHeld d) xs ys ↔
      (xs.map d.held).map Value.content = (ys.map d.held).map Value.content := by
  rw [← forall₂_sameContent_iff, List.forall₂_map_left_iff, List.forall₂_map_right_iff]
  rfl

theorem alike_congr_right {ε ε' ε'' : Type} {d : CellType} {x : Except ε (List Value)}
    {y : Except ε' (List Value)} {z : Except ε'' (List Value)}
    (h : Alike (List.Forall₂ (SameHeld d)) y z) :
    Alike (List.Forall₂ (SameHeld d)) x y ↔ Alike (List.Forall₂ (SameHeld d)) x z := by
  cases h with
  | ok h =>
    rw [forall₂_sameHeld_iff] at h
    constructor
    · rintro (hx | -)
      rw [forall₂_sameHeld_iff] at hx
      exact .ok (forall₂_sameHeld_iff.mpr (hx.trans h))
    · rintro (hx | -)
      rw [forall₂_sameHeld_iff] at hx
      exact .ok (forall₂_sameHeld_iff.mpr (hx.trans h.symm))
  | error e e' =>
    constructor
    · rintro (- | ⟨f, -⟩)
      exact .error f e'
    · rintro (- | ⟨f, -⟩)
      exact .error f e

theorem Alike.fails_iff {ε ε' α β : Type} {r : α → β → Prop} {x : Except ε α} {y : Except ε' β}
    (h : Alike r x y) : (∃ e, x = .error e) ↔ ∃ e, y = .error e := by
  cases h with
  | ok h => exact ⟨nofun, nofun⟩
  | error e e' => exact ⟨fun _ => ⟨e', rfl⟩, fun _ => ⟨e, rfl⟩⟩

section Casts

variable {w : World} {truncates : Bool} {t d : CellType} {cells : List Value}

/-- Where a walk over a list fails, it does so with the failure of a member. -/
theorem exists_of_mapM_error {ε α β : Type} {f : α → Except ε β} {xs : List α} {e : ε}
    (h : xs.mapM f = .error e) : ∃ x ∈ xs, f x = .error e := by
  induction xs with
  | nil => cases h
  | cons x xs ih =>
    rw [List.mapM_cons] at h
    cases hx : f x with
    | error e' =>
      rw [hx] at h
      cases h
      exact ⟨x, List.mem_cons_self, hx⟩
    | ok y =>
      rw [hx] at h
      cases hxs : xs.mapM f with
      | error e' =>
        rw [hxs] at h
        cases h
        obtain ⟨z, hz, hfz⟩ := ih hxs
        exact ⟨z, List.mem_cons_of_mem _ hz, hfz⟩
      | ok ys =>
        rw [hxs] at h
        cases h

theorem mapM_error_iff {ε α β : Type} {f : α → Except ε β} {xs : List α} :
    (∃ e, xs.mapM f = .error e) ↔ ∃ x ∈ xs, ∃ e, f x = .error e := by
  constructor
  · rintro ⟨e, h⟩
    obtain ⟨x, hx, he⟩ := exists_of_mapM_error h
    exact ⟨x, hx, e, he⟩
  · rintro ⟨x, hx, e, he⟩
    cases h : xs.mapM f with
    | error e' => exact ⟨e', rfl⟩
    | ok ys =>
      obtain ⟨y, -, hy⟩ := exists_of_forall₂ (forall₂_of_mapM h).flip hx
      rw [he] at hy
      cases hy

theorem alike_of_mapM {ε ε' α β γ : Type} {r : β → γ → Prop} {f : α → Except ε β}
    {g : α → Except ε' γ} {xs : List α} {ys : List β} {zs : List γ} (hf : xs.mapM f = .ok ys)
    (hg : xs.mapM g = .ok zs) (h : List.Forall₂ r ys zs) :
    ∀ x ∈ xs, ∃ y z, f x = .ok y ∧ g x = .ok z ∧ r y z := by
  have hys := forall₂_of_mapM hf
  have hzs := forall₂_of_mapM hg
  clear hf hg
  induction hys generalizing zs with
  | nil => exact nofun
  | cons hy _ ih =>
    cases hzs with
    | cons hz hzs =>
      cases h with
      | cons hr h =>
        rintro x (- | ⟨-, hx⟩)
        · exact ⟨_, _, hy, hz, hr⟩
        · exact ih h hzs x hx

theorem convertItem_decode_iff {n : Nat} {b : List UInt8} (ho : t.isObject = false)
    (hd : d.content = .text n) :
    (∃ e, Conversion.convertItem w truncates t d (.bytes b) = .error e) ↔
      n < b.length ∧ truncates = false := by
  have hcell : Conversion.toCell w truncates d (t.itemValue (.bytes b)) = (do
      .ok (.text (← Conversion.fitText truncates (t.itemValue (.bytes b)) d n (Latin.decode b)))) :=
    toCell_text ho hd rfl
  rw [Conversion.convertItem, hcell, Conversion.fitText, Latin.length_decode]
  by_cases hlen : b.length ≤ n
  · rw [if_pos hlen]
    refine iff_of_false ?_ (by omega)
    rintro ⟨e, h⟩
    cases h
  · rw [if_neg hlen]
    cases truncates with
    | true =>
      refine iff_of_false ?_ (by simp)
      rintro ⟨e, h⟩
      cases h
    | false => exact iff_of_true ⟨_, rfl⟩ ⟨by omega, rfl⟩

/-- A safe cast of cells ends like their conversion exactly if every cell keeps the rule. -/
theorem alike_mapM_castCell_iff (ht : t.content.IsUsual) (hr : d.IsRegular)
    (hsafe : t.content.castsSafely d.content = true) (hc : ∀ c ∈ cells, t.Accepts c) :
    Alike (List.Forall₂ (SameHeld d)) (cells.mapM (Conversion.castCell t d.content))
        (cells.mapM (Conversion.convertItem w truncates t d)) ↔
      ∀ c ∈ cells, w.CastRule truncates t d c := by
  constructor
  · intro h c hmem
    rw [← castsAlike_iff ht hr hsafe (hc c hmem)]
    cases hx : cells.mapM (Conversion.castCell t d.content) with
    | ok xs =>
      rw [hx] at h
      cases hy : cells.mapM (Conversion.convertItem w truncates t d) with
      | ok ys =>
        rw [hy] at h
        cases h with
        | ok h => exact alike_of_mapM hx hy h c hmem
      | error e =>
        rw [hy] at h
        cases h
    | error f =>
      -- bytes that the host refuses are converted all the same
      obtain ⟨c', hmem', f', hf'⟩ := mapM_error_iff.mp ⟨f, hx⟩
      obtain ⟨m, n, b, hm, hn, rfl, -⟩ := castCell_error hsafe (hc c' hmem').1 hf'
      have ho : t.isObject = false := by simp [CellType.isObject, hm]
      rw [hx] at h
      cases hy : cells.mapM (Conversion.convertItem w truncates t d) with
      | ok ys =>
        rw [hy] at h
        cases h
      | error e =>
        obtain ⟨c'', hmem'', e', he'⟩ := mapM_error_iff.mp ⟨e, hy⟩
        obtain ⟨hadmits, hheld⟩ := hc c'' hmem''
        rw [hm] at hadmits
        obtain ⟨b', rfl⟩ := hadmits
        have hlong := ((convertItem_decode_iff ho hn).mp ⟨e', he'⟩).1
        have hlen := CellType.length_of_held_bytes hm hheld
        have hmn := le_capacity hsafe (.inl hn) hr (show t.content.textWidth? = some m by rw [hm]; rfl)
        omega
  · intro h
    apply Alike.mapM
    rw [List.forall₂_same]
    intro c hmem
    obtain ⟨x, y, hx, hy, hxy⟩ := (castsAlike_iff ht hr hsafe (hc c hmem)).mpr (h c hmem)
    rw [hx, hy]
    exact .ok hxy

end Casts

def CellType.isUnsized (t : CellType) : Bool := t.content == .text 0 || t.content == .bytes 0

theorem Content.IsUsual.isProper {c : Content} (h : c.IsUsual) : c.IsProper := by
  cases c with
  | int signed width =>
    show 0 < width
    rcases h with rfl | rfl | rfl | rfl <;> decide
  | _ => exact True.intro

theorem CellType.isRegular_iff {t : CellType} (h : t.content.IsUsual) :
    t.IsRegular ↔ t.isUnsized = false := by
  constructor
  · intro hr
    obtain ⟨ht, hb⟩ := CellType.ne_empty_of_regular hr
    simp [isUnsized, ht, hb]
  · intro hu
    simp only [isUnsized, Bool.or_eq_false_iff, beq_eq_false_iff_ne] at hu
    refine ⟨?_, h.isProper⟩
    simp only [allocated]
    split
    · exact absurd ‹_› hu.1
    · exact absurd ‹_› hu.2
    · rfl

/-- When a safe cast of an array ends like the conversion of its elements. -/
def World.CastsLikeItems (w : World) (truncates : Bool) (win : Window) (cell : CellType) : Prop :=
  if cell.isUnsized then
    truncates = false ∧ cell.content = .text 0 ∧
      ∃ b, Value.bytes b ∈ w.cells win ∧ b.all (·.toNat < 128) = false
  else ∀ c ∈ w.cells win, w.CastRule truncates win.type cell c

section Arrays

variable {w : World} {truncates : Bool} {win : Window} {cell : CellType}

theorem alike_lift_iff {ε α β : Type} {r : α → β → Prop} {x : Except HostFault α} {y : Except ε β} :
    Alike r (Conversion.lift x) y ↔ Alike r x y := by
  cases x with
  | ok a =>
    constructor
    · rintro (h | -)
      exact .ok h
    · rintro (h | -)
      exact .ok h
  | error f =>
    constructor
    · rintro (- | ⟨-, e⟩)
      exact .error f e
    · rintro (- | ⟨-, e⟩)
      exact .error (Refusal.host f) e

theorem lift_fails_iff {α : Type} {x : Except HostFault α} :
    (∃ e, Conversion.lift x = .error e) ↔ ∃ e, x = .error e := by
  cases x with
  | ok a => exact ⟨nofun, nofun⟩
  | error f => exact ⟨fun _ => ⟨f, rfl⟩, fun _ => ⟨Refusal.host f, rfl⟩⟩

/-- Both the cast and the conversion of the cells fail only for bytes beyond ASCII. -/
theorem fails_iff_of_unsized (hu : cell.isUnsized = true)
    (hsafe : win.type.content.castsSafely cell.content = true)
    (hc : ∀ c ∈ w.cells win, win.type.Accepts c) :
    ((∃ e, (w.cells win).mapM (Conversion.castCell win.type cell.content) = .error e) ∧
      ∃ e, (w.cells win).mapM (Conversion.convertItem w truncates win.type cell) = .error e) ↔
    w.CastsLikeItems truncates win cell := by
  rw [World.CastsLikeItems, if_pos hu, mapM_error_iff, mapM_error_iff]
  constructor
  · rintro ⟨⟨c, hmem, f, hf⟩, ⟨c', hmem', e, he⟩⟩
    obtain ⟨m, n, b, hm, hn, rfl, hb⟩ := castCell_error hsafe (hc c hmem).1 hf
    have ho : win.type.isObject = false := by simp [CellType.isObject, hm]
    have hn0 : cell.content = .text 0 := by
      rw [CellType.isUnsized, hn] at hu
      rw [hn]
      simpa using hu
    have hadmits := (hc c' hmem').1
    rw [hm] at hadmits
    obtain ⟨b', rfl⟩ := hadmits
    exact ⟨((convertItem_decode_iff ho hn).mp ⟨e, he⟩).2, hn0, b, hmem, hb⟩
  · rintro ⟨htr, hn, b, hmem, hb⟩
    obtain ⟨m, hm⟩ := isBytes_of_admits (hn ▸ hsafe) (hc _ hmem).1
    have ho : win.type.isObject = false := by simp [CellType.isObject, hm]
    have hpos : 0 < b.length := by
      cases b with
      | nil => cases hb
      | cons x b => exact Nat.succ_pos _
    refine ⟨⟨_, hmem, .decoding, ?_⟩, ⟨_, hmem, (convertItem_decode_iff ho hn).mpr ⟨hpos, htr⟩⟩⟩
    rw [hn, Conversion.castCell, if_neg (by simp [hb])]

theorem Content.exists_textWidth_int (signed : Bool) (width : Nat) :
    ∃ k, (Content.int signed width).textWidth? = some k := by
  cases signed with
  | true =>
    simp only [textWidth?]
    split <;> simp_all
  | false =>
    simp only [textWidth?]
    split <;> simp_all

/-- Casts to types without a size are safe. -/
theorem castsSafely_of_unsized {c : Content} (ht : c.IsUsual) (hu : cell.isUnsized = true)
    (hk : c.castsWithinKind cell.content = true) : c.castsSafely cell.content = true := by
  rw [CellType.isUnsized, Bool.or_eq_true, beq_iff_eq, beq_iff_eq] at hu
  rcases hu with hu | hu
  · rw [hu] at hk ⊢
    cases c with
    | int signed width =>
      obtain ⟨k, hk'⟩ := Content.exists_textWidth_int signed width
      simp [Content.castsSafely, hk']
    | object => simp [Content.castsWithinKind, Content.castsSafely, Content.textWidth?, Content.rank?] at hk
    | date _ | duration _ | raw _ => exact ht.elim
    | _ => simp [Content.castsSafely, Content.textWidth?]
  · rw [hu] at hk ⊢
    cases c with
    | int signed width =>
      obtain ⟨k, hk'⟩ := Content.exists_textWidth_int signed width
      simp [Content.castsSafely, hk']
    | object | text _ =>
      simp [Content.castsWithinKind, Content.castsSafely, Content.textWidth?, Content.rank?] at hk
    | date _ | duration _ | raw _ => exact ht.elim
    | _ => simp [Content.castsSafely, Content.textWidth?]

end Arrays

/-- Where arrays are converted like the nested lists of their elements. A cast to a narrower type
always is, since it goes item by item, and a safe cast exactly if it keeps the rules of scripts. -/
theorem World.convertsAlike_array_iff {w : World} (hw : Reachable w) (truncates : Bool)
    {slot : SlotType} (hn : slot.isNested = true) {v list : Value} {r : Ref .array}
    (hv : (w.hostValue v).item = .array r) (hs : (w.arrays.get r).shape = slot.shape)
    (ht : (w.arrays.get r).type.content.IsUsual) (hd : slot.cell.content.IsUsual)
    (hk : (w.arrays.get r).type.content.castsWithinKind slot.cell.content = true)
    (hl : w.Lists slot.shape (w.arrays.get r) list) :
    w.ConvertsAlike truncates slot v list ↔
      ((w.arrays.get r).type.content.castsSafely slot.cell.content = true →
        w.CastsLikeItems truncates (w.arrays.get r) slot.cell) := by
  have h := hw.sound
  have hcells : ∀ c ∈ w.cells (w.arrays.get r), (w.arrays.get r).type.Accepts c :=
    (h.shows r).within.accepts_cells h
  have hcontent : w.contentOf (.plain v) = .window (w.arrays.get r) := by
    rw [World.contentOf, hv]
    rfl
  obtain ⟨n, shape, hshape⟩ : ∃ n shape, slot.shape = n :: shape := by
    cases hc : slot.shape with
    | nil => simp [SlotType.isNested, hc] at hn
    | cons n shape => exact ⟨n, shape, rfl⟩
  have hencloses : w.Encloses (w.arrays.get r) :=
    (h.shows r).encloses (by rw [hs, hshape]; exact List.cons_ne_nil _ _)
  have hlist : Alike (List.Forall₂ (SameHeld slot.cell))
      (Conversion.toCells w truncates slot.cell slot.shape (.plain list))
      ((w.cells (w.arrays.get r)).mapM
        (Conversion.convertItem w truncates (w.arrays.get r).type slot.cell)) :=
    Conversion.alike_of_lists hencloses hs hl
  by_cases hsafe : (w.arrays.get r).type.content.castsSafely slot.cell.content = true
  · have hcast : Conversion.toCells w truncates slot.cell slot.shape (.plain v) =
        Conversion.lift ((w.cells (w.arrays.get r)).mapM
          (Conversion.castCell (w.arrays.get r).type slot.cell.content)) := by
      rw [hshape]
      exact Conversion.toCells_of_safe hcontent (hs.trans hshape) hsafe
    rw [forall_prop_of_true hsafe]
    by_cases hu : slot.cell.isUnsized = true
    · have hr : ¬ slot.cell.IsRegular := by
        rw [CellType.isRegular_iff hd, hu]
        exact Bool.noConfusion
      rw [convertsAlike_iff_of_unsized h hn hd.isProper hr, hcast, lift_fails_iff, hlist.fails_iff]
      exact fails_iff_of_unsized hu hsafe hcells
    · have hr : slot.cell.IsRegular := by
        rw [CellType.isRegular_iff hd]
        simpa using hu
      rw [convertsAlike_iff_alike h hn hr, alike_congr_right hlist, hcast, alike_lift_iff,
        World.CastsLikeItems, if_neg hu]
      exact alike_mapM_castCell_iff ht hr hsafe hcells
  · have hr : slot.cell.IsRegular := by
      rw [CellType.isRegular_iff hd]
      by_contra hu
      exact hsafe (castsSafely_of_unsized ht (by simpa using hu) hk)
    refine iff_of_true ?_ (fun hc => absurd hc hsafe)
    rw [convertsAlike_iff_alike h hn hr, alike_congr_right hlist, hshape]
    exact Conversion.alike_of_narrowing hcontent hencloses (hs.trans hshape) hk (by simpa using hsafe)

def flags : World := World.empty.afterAll [
  .buildArray (.native .bool) [1] [.bool true],
  .newList [(CellType.native .bool).itemValue (.bool true)]]

theorem reachable_flags : Reachable flags := by
  apply Reachable.start.afterAll
  simp [Operation.IsProper, CellType.native, Content.IsProper]

/-- As text, the truth value of the array is another one than that of the list. -/
theorem World.not_convertsAlike_bools :
    ¬ flags.ConvertsAlike false ⟨.native (.text 5), [1]⟩ (.array ⟨1⟩) (.list ⟨0⟩) := by
  have hlists : flags.Lists [1] (flags.arrays.get ⟨1⟩) (.list ⟨0⟩) :=
    ⟨⟨0⟩, rfl, .cons (.refl _) .nil⟩
  have hiff := World.convertsAlike_array_iff (r := ⟨1⟩) reachable_flags false
    (rfl : SlotType.isNested ⟨.native (.text 5), [1]⟩ = true)
    (rfl : (flags.hostValue (.array ⟨1⟩)).item = .array ⟨1⟩) rfl
    (True.intro : Content.IsUsual .bool) (True.intro : (Content.text 5).IsUsual) rfl hlists
  rw [hiff]
  intro h
  have hrule := h rfl
  rw [World.CastsLikeItems, if_neg (by decide)] at hrule
  exact hrule (.bool true) (by decide)

end ScriptedArrays
