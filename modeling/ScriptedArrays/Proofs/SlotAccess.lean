import ScriptedArrays.Proofs.Converting
import ScriptedArrays.Proofs.Presenting

/-! Reading and writing slots. A read presents what the slot holds, which for a nested slot is a
further window on its row, and a write replaces the cells of the slot by converted ones. Neither
leaves a sound world. -/

namespace ScriptedArrays

open World

theorem slotValue_nested {w : World} (h : w.Sound) {win : Window} (hw : w.Shows win) {i : Nat}
    (hi : i < win.length) (hn : win.rowShape ≠ []) :
    ∃ w', slotValue win i w = .ok (.array w.arrays.next) w' ∧ w'.Sound ∧ w.Extends w' ∧
      w'.buffers = w.buffers ∧ w'.views = w.views ∧ w'.presenters = w.presenters ∧
      w'.arrays.Has w.arrays.next ∧ w'.arrays.get w.arrays.next = win.row i := by
  have hrow := hw.row hi
  obtain ⟨hs, he⟩ := h.push_array (hrow.encloses hn) (hrow.within.regular h)
    (hrow.within.accepts h) (hrow.within.oneType h)
  refine ⟨{ w with arrays := w.arrays.push (win.row i) }, ?_, hs, he, rfl, rfl, rfl,
    Store.has_push_next _ _, Store.get_push_next _ _⟩
  have hne : ¬ win.rowShape.isEmpty = true := by simpa using hn
  rw [slotValue, if_neg hne]
  rfl

theorem slotValue_plain {win : Window} (hn : win.rowShape = []) (i : Nat) (w : World) :
    slotValue win i w = .ok (win.type.itemValue (w.cell win i)) w := by
  rw [slotValue, hn, List.isEmpty_nil, if_pos rfl]
  rfl

theorem reads_slotValue {w : World} {win : Window} (hw : w.Shows win) {i : Nat}
    (hi : i < win.length) : w.Reads (w.after (slotValue win i)) := by
  intro h
  by_cases hn : win.rowShape = []
  · rw [after_of_ok (slotValue_plain hn i w)]
    exact ⟨h, .refl w, rfl⟩
  · obtain ⟨w', hw', hs, he, hb, -⟩ := slotValue_nested h hw hi hn
    rw [after_of_ok hw']
    exact ⟨hs, he, hb⟩

/-- The window of a part lies on the array from which it was selected. -/
theorem window_of_select {w : World} {win : Window} {i : Value} {p : Part} (hp : w.select win i = .part p) :
    p.window.buffer = win.buffer ∧ p.window.type = win.type := by
  have hwhole : ∀ axes chosen depth, p = wholePart win axes chosen depth →
      p.window.buffer = win.buffer ∧ p.window.type = win.type := by
    rintro axes chosen depth rfl
    exact ⟨rfl, rfl⟩
  simp only [World.select] at hp
  split at hp
  · split at hp <;> cases hp
  · cases hp
    exact hwhole _ _ _ rfl
  · unfold World.selectBy at hp
    split at hp
    · split at hp
      · cases hp
        exact ⟨rfl, rfl⟩
      · cases hp
        exact ⟨rfl, rfl⟩
    · dsimp only at hp
      split at hp
      · cases hp
        exact hwhole _ _ _ rfl
      · split at hp
        · cases hp
          exact hwhole _ _ _ rfl
        · cases hp
    · cases hp
  · cases hp

theorem lt_of_select {w : World} {win : Window} {i : Value} {n : Nat}
    (hp : w.select win i = .slot n) : n < win.length := by
  simp only [World.select] at hp
  split at hp
  · split at hp
    · cases hp
      assumption
    · cases hp
  · cases hp
  · unfold World.selectBy at hp
    split at hp
    · split at hp <;> cases hp
    · dsimp only at hp
      split at hp
      · cases hp
      · split at hp <;> cases hp
    · cases hp
  · cases hp

theorem leads_partValue {w : World} {win : Window} (hw : w.Within win) {i : Value} {p : Part}
    (hp : w.select win i = .part p) : w.Leads (w.after (partValue p)) := by
  rw [partValue, after_get_bind]
  refine related_after_bind (fun h => ?_) fun r v _ => refl_of Leads v
  obtain ⟨hb, ht⟩ := window_of_select hp
  have hpart := hw.of_eq hb ht
  refine leads_newArray _ (hpart.regular h) ?_ w h
  split
  · exact fun v hv => (hpart.accepts_cells h v hv).1
  · exact fun v hv => absurd hv List.not_mem_nil

theorem spares_slotValue (win : Window) (i : Nat) : Keeps Spares (slotValue win i) := by
  refine .ite (.bind .get fun _ => .pure _) (.bind (.modifyGet fun w => ?_) fun _ => .pure _)
  exact ⟨rfl, rfl, rfl, rfl, rfl, rfl⟩

theorem spares_hostSlot (win : Window) (i : Value) : Keeps Spares (hostSlot win i) := by
  refine .bind .get fun w => ?_
  split
  · exact spares_slotValue win _
  · exact .bind .get fun _ => .bind (spares_newArray _ _ _) fun _ => .pure _
  · exact .failHost _

theorem leads_hostSlot {w : World} {win : Window} (hw : w.Shows win) (i : Value) :
    w.Leads (w.after (hostSlot win i)) := by
  rw [hostSlot, after_get_bind]
  split
  · rename_i n hn
    intro h
    obtain ⟨hs, he, -⟩ := reads_slotValue hw (lt_of_select hn) h
    exact ⟨hs, he⟩
  · rename_i p hp
    exact leads_partValue hw.within hp
  · exact refl_of Leads w

namespace View

theorem leads_verdict (v : Verdict) : Keeps Leads v.value := by
  simp only [Verdict.value]
  split
  · exact .pure _
  · exact .pure _
  · refine .bind (leads_newArray _ ⟨rfl, True.intro⟩ ?_) fun _ => .pure _
    intro x hx
    obtain ⟨b, -, rfl⟩ := List.mem_map.mp hx
    exact ⟨b, rfl⟩

theorem spares_verdict (v : Verdict) : Keeps Spares v.value := by
  simp only [Verdict.value]
  split
  · exact .pure _
  · exact .pure _
  · exact .bind (spares_newArray _ _ _) fun _ => .pure _

theorem keeps_logRejected {R : World → World → Prop} [IsPreorder World R] [Tolerant R] (i : Value)
    (length : Nat) : Keeps R (logRejected i length) := by
  simp only [logRejected]
  refine .bind .get fun w => .ite ?_ (.pure _)
  exact .bind (.orFail _) fun _ => keeps_logEvent _

end View

theorem mem_of_mem_pieces {α : Type} {size count : Nat} {xs piece : List α}
    (h : piece ∈ pieces size count xs) : ∀ x ∈ piece, x ∈ xs := by
  induction count generalizing xs with
  | zero => exact absurd h List.not_mem_nil
  | succ count ih =>
    intro x hx
    rcases List.mem_cons.mp h with rfl | h
    · exact List.mem_of_mem_take hx
    · exact List.mem_of_mem_drop (ih h x hx)

theorem mem_of_mem_repeatAxes {α : Type} {shape target : List Nat} {cells : List α} :
    ∀ x ∈ Shape.repeatAxes shape target cells, x ∈ cells := by
  induction shape generalizing target cells with
  | nil =>
    intro x hx
    rwa [Shape.repeatAxes] at hx
    rintro n shape' m target' h
    cases h
  | cons n shape ih =>
    cases target with
    | nil =>
      intro x hx
      rwa [Shape.repeatAxes] at hx
      rintro n' shape' m target' _ h
      cases h
    | cons m target =>
      have hrows : ∀ x ∈ ((pieces (cellCount shape) n cells).map
          (Shape.repeatAxes shape target)).flatten, x ∈ cells := by
        intro x hx
        obtain ⟨row, hrow, hxrow⟩ := List.mem_flatten.mp hx
        obtain ⟨piece, hpiece, rfl⟩ := List.mem_map.mp hrow
        exact mem_of_mem_pieces hpiece x (ih x hxrow)
      intro x hx
      rw [Shape.repeatAxes] at hx
      split at hx
      · exact hrows x hx
      · obtain ⟨rows, hr, hxr⟩ := List.mem_flatten.mp hx
        rw [List.eq_of_mem_replicate hr] at hxr
        exact hrows x hxr

theorem mem_of_fitted {α : Type} {shape target : List Nat} {cells out : List α}
    (h : Shape.fitted? shape target cells = some out) : ∀ x ∈ out, x ∈ cells := by
  unfold Shape.fitted? at h
  dsimp only at h
  split at h
  · cases h
    exact mem_of_mem_repeatAxes
  · cases h

theorem World.Sound.cell_slot {w : World} (h : w.Sound) (q : Ref .view) :
    (w.views.get q).slot.cell = (w.arrays.get (w.views.get q).array).type := by
  by_cases hq : w.views.Has q
  · rw [h.slot q hq]
    rfl
  · rw [Store.get_of_not_has _ hq]
    show _ = (w.arrays.get ⟨0⟩).type
    rw [h.noArray.2]
    rfl

theorem World.Sound.hasArray_view {w : World} (h : w.Sound) (q : Ref .view) :
    w.arrays.Has (w.views.get q).array := by
  by_cases hq : w.views.Has q
  · exact h.array q hq
  · rw [Store.get_of_not_has _ hq]
    exact h.noArray.1

theorem stored_of_content {t : CellType} {x y : Value} (ho : t.isObject = false)
    (hc : y.content = x.content) : t.stored y = t.stored x := by
  rw [CellType.stored, CellType.stored, if_neg (by simp [ho]), if_neg (by simp [ho]), Value.item,
    Value.item, hc]

theorem World.rowCells_single {w : World} {slot : SlotType} (hn : slot.isNested = false) (v : Value) :
    w.rowCells slot v = [slot.cell.stored v] := by
  unfold World.rowCells
  split
  · rw [if_neg (by simp [hn])]
  · rfl

theorem World.rowCells_array {w : World} {slot : SlotType} (hn : slot.isNested = true) (r : Ref .array) :
    w.rowCells slot (.array r) = w.cells (w.arrays.get r) :=
  if_pos hn

/-- The cells that a converted value puts into a slot are accepted there. -/
theorem accepts_rowCells {truncates : Bool} {slot : SlotType} {v x y : Value} {w w' : World} {n : Nat}
    (h : w.Sound) (hr : slot.cell.IsRegular) (hx : convert truncates slot v w = .ok x w')
    (hy : keep x w' = .ok y { w' with kept := n }) :
    ∀ c ∈ World.rowCells { w' with kept := n } slot y, slot.cell.Accepts c := by
  obtain ⟨y', n', hkeep, hcontent, hobject⟩ := keep_eq x w'
  rw [hkeep] at hy
  cases hy
  rcases convert_cases truncates v h hr.2 with
    ⟨f, l, hf⟩ | ⟨hn, x', hx', hacc⟩ | ⟨hn, r, u, hu, hs, -, hhas, htype, -⟩
  · rw [hf] at hx
    cases hx
  · rw [hx'] at hx
    cases hx
    have hstored : slot.cell.Accepts (slot.cell.stored y) := by
      by_cases ho : slot.cell.isObject = true
      · exact CellType.accepts_object (by simpa [CellType.isObject] using ho) _
      · rw [stored_of_content (by simpa using ho) hcontent]
        exact hacc
    rw [World.rowCells_single hn]
    exact fun c hc => List.mem_singleton.mp hc ▸ hstored
  · rw [hu] at hx
    cases hx
    rw [hobject rfl, World.rowCells_array hn]
    have hw : w'.Within (w'.arrays.get r) := (hs.shows r).within
    have hcells := hw.accepts_cells hs
    rw [htype, rowType_of_regular hr] at hcells
    exact hcells

theorem accepts_partCells {w : World} {slot : SlotType} {p : Part} {v : Value} {cells : List Value}
    (hc : ∀ c ∈ w.rowCells slot v, slot.cell.Accepts c)
    (hp : w.partCells slot p v = .ok cells) : ∀ c ∈ cells, slot.cell.Accepts c := by
  by_cases ho : slot.cell.isObject = true
  · exact fun c _ => CellType.accepts_object (by simpa [CellType.isObject] using ho) c
  · unfold World.partCells at hp
    simp only [ho, Bool.false_and, Bool.false_eq_true, if_false] at hp
    split at hp
    · rename_i out hfit
      cases hp
      exact fun c hmem => hc c (mem_of_fitted hfit c hmem)
    · cases hp

namespace View

theorem leads_put {w : World} {win : Window} {slot : SlotType} {v : Value} (hw : w.Within win)
    (hslot : slot.cell = win.type) (hc : ∀ c ∈ w.rowCells slot v, slot.cell.Accepts c) (i : Value) :
    w.Leads (w.after (put slot win i v)) := by
  intro h
  rw [put, after_get_bind]
  split
  · rename_i n _
    rw [hslot] at hc
    have hrow : w.Within (win.row n) := hw.of_eq rfl rfl
    exact h.setCells_of_within hrow hc
  · rename_i p hp
    obtain ⟨hb, ht⟩ := window_of_select hp
    cases hcells : w.partCells slot p v with
    | error f => exact ⟨h, .refl w⟩
    | ok cells =>
      by_cases hchosen : p.chosen = true
      · have hput : w.after (orFail (.ok cells) >>= fun cells =>
            if p.chosen then modify fun w => w.setCells p.window cells else pure ()) =
              w.setCells p.window cells := by
          simp only [if_pos hchosen]
          rfl
        rw [hput]
        apply h.setCells_of_within (hw.of_eq hb ht)
        rw [ht, ← hslot]
        exact accepts_partCells hc hcells
      · simp only [if_neg hchosen]
        exact ⟨h, .refl w⟩
  · exact ⟨h, .refl w⟩

theorem spares_put (slot : SlotType) (win : Window) (i v : Value) : Keeps Spares (put slot win i v) := by
  refine .bind .get fun w => ?_
  split
  · exact .modify fun _ => ⟨rfl, rfl, rfl, rfl, rfl, rfl⟩
  · exact .bind (.orFail _) fun _ => .ite (.modify fun _ => ⟨rfl, rfl, rfl, rfl, rfl, rfl⟩) (.pure _)
  · exact .failHost _

section SetIndex

variable {w : World} {r : Ref .view} {i v : Value}

theorem setIndex_of_fault {f : HostFault}
    (hb : w.inBounds i (w.views.get r).length = .error f) :
    setIndex r i v w = .error (.host f) w := by
  rw [setIndex, look_bind_apply, get_bind_apply, hb]
  rfl

theorem setIndex_of_out (hb : w.inBounds i (w.views.get r).length = .ok false) :
    setIndex r i v w = (logRejected i (w.views.get r).length >>= fun _ => get >>= fun w' =>
      orFail (w'.indexText? i) >>= fun text =>
      fail (.outOfBounds text ((w.views.get r).length - 1))) w := by
  rw [setIndex, look_bind_apply, get_bind_apply, hb]
  rfl

theorem setIndex_of_in (hb : w.inBounds i (w.views.get r).length = .ok true) :
    setIndex r i v w =
      (convert (w.views.get r).truncates (w.views.get r).slot v >>= fun x => keep x >>= fun y =>
        get >>= fun w' => put (w.views.get r).slot (w'.arrays.get (w.views.get r).array) i y) w := by
  rw [setIndex, look_bind_apply, get_bind_apply, hb]
  rfl

end SetIndex

theorem leads_setIndex (r : Ref .view) (i v : Value) : Keeps Leads (setIndex r i v) := by
  intro w h
  cases hb : w.inBounds i (w.views.get r).length with
  | error f =>
    rw [after_of_error (setIndex_of_fault hb)]
    exact ⟨h, .refl w⟩
  | ok b =>
    cases b with
    | false =>
      rw [World.after, setIndex_of_out hb, ← World.after]
      refine Keeps.bind (R := Leads) (keeps_logRejected i _) (fun _ => ?_) w h
      exact .bind .get fun _ => .bind (.orFail _) fun _ => .fail _
    | true =>
      rw [World.after, setIndex_of_in hb, ← World.after]
      have hcell := h.cell_slot r
      have hregular : (w.views.get r).slot.cell.IsRegular := hcell ▸ h.regular _
      refine related_after_bind (leads_convert hregular.2 w) (fun x u hx => ?_) h
      have hput : u.Leads (u.after (keep x >>= fun y => get >>= fun w' =>
          put (w.views.get r).slot (w'.arrays.get (w.views.get r).array) i y)) := by
        refine related_after_bind (keeps_keep x u) fun y u' hy => ?_
        obtain ⟨y', n, hkeep, -⟩ := keep_eq x u
        rw [hkeep] at hy
        cases hy
        rw [after_get_bind]
        intro hu
        have hget : u.arrays.get (w.views.get r).array = w.arrays.get (w.views.get r).array :=
          (convert_ok h hregular.2 hx).2.extends_.array _ (h.hasArray_view r)
        refine leads_put (hu.shows _).within ?_ (accepts_rowCells h hregular hx hkeep) i hu
        exact hcell.trans (congrArg Window.type hget.symm)
      exact hput

theorem spares_setIndex (r : Ref .view) (i v : Value) : Keeps Spares (setIndex r i v) := by
  refine .bind (.look _) fun view => .bind .get fun _ => .bind (.orFail _) fun b => .ite ?_ ?_
  · exact .bind (spares_convert _ _ _) fun x => .bind (keeps_keep x) fun y =>
      .bind .get fun _ => spares_put _ _ _ _
  · exact .bind (keeps_logRejected i _) fun _ => .bind .get fun _ =>
      .bind (.orFail _) fun _ => .fail _

end View

end ScriptedArrays
