import ScriptedArrays.Proofs.Consistency
import ScriptedArrays.Proofs.RowRuns

/-! Copies of arrays. The method `copy` of the host gives a script a view of another array of the
same type, shape and cells. The two share no cell, so whatever is written through views of the one or
of its rows, the views of the other and of its rows show what they showed. -/

namespace ScriptedArrays

open World

def World.Saves (b : Ref .buffer) (w w' : World) : Prop :=
  w.buffers.Has b → w'.buffers.Has b ∧ w'.buffers.get b = w.buffers.get b

instance (b : Ref .buffer) : IsPreorder World (Saves b) where
  refl _ hb := ⟨hb, rfl⟩
  trans _ _ _ h h' hb := ⟨(h' (h hb).1).1, (h' (h hb).1).2.trans (h hb).2⟩

theorem saves_of_eq {b : Ref .buffer} {w w' : World} (h : w'.buffers = w.buffers) : w.Saves b w' := by
  intro hb
  rw [h]
  exact ⟨hb, rfl⟩

instance (b : Ref .buffer) : Tolerant (Saves b) := ⟨fun h => saves_of_eq h.buffers⟩

section

variable {b : Ref .buffer} {w : World} {win : Window} {slot : SlotType}

theorem saves_setCells (hb : b ≠ win.buffer) (cells : List Value) (w : World) :
    w.Saves b (w.setCells win cells) := by
  intro hhas
  refine ⟨(Store.has_set _ _ _ _).mpr hhas, ?_⟩
  rw [setCells, Store.get_set_of_ne _ _ hb]

theorem saves_convert (h : w.Sound) (hp : slot.cell.content.IsProper) (truncates : Bool) (v : Value) :
    w.Saves b (w.after (convert truncates slot v)) := by
  rcases convert_cases truncates v h hp with ⟨f, l, hf⟩ | ⟨-, x, hx, -⟩ | ⟨-, r, u, hu, -, hadds, -⟩
  · rw [after_of_error hf]
    exact saves_of_eq rfl
  · rw [after_of_ok hx]
    exact refl_of (Saves b) w
  · rw [after_of_ok hu]
    exact fun hb => ⟨hadds.extends_.hasBuffer b hb, hadds.buffers b hb⟩

namespace View

theorem saves_put (hb : b ≠ win.buffer) (i v : Value) : Keeps (Saves b) (put slot win i v) := by
  refine .bind .get fun w => ?_
  split
  · rename_i n hn
    have hrow : b ≠ (win.row n).buffer := hb
    exact .modify fun w => saves_setCells hrow _ w
  · rename_i p hp
    have hpart : b ≠ p.window.buffer := (window_of_select hp).1 ▸ hb
    exact .bind (.orFail _) fun _ => .ite (.modify fun w => saves_setCells hpart _ w) (.pure _)
  · exact .failHost _

/-- A write, whether it succeeds or not, leaves all cells alone but those of the array of the view. -/
theorem saves_setIndex (h : w.Sound) {r : Ref .view} (hb : b ≠ (w.shown r).buffer) (i v : Value) :
    w.Saves b (w.after (setIndex r i v)) := by
  cases hin : w.inBounds i (w.views.get r).length with
  | error f =>
    rw [after_of_error (setIndex_of_fault hin)]
    exact refl_of (Saves b) w
  | ok inside =>
    cases inside with
    | false =>
      rw [World.after, setIndex_of_out hin, ← World.after]
      exact Keeps.bind (R := Saves b) (keeps_logRejected i _)
        (fun _ => .bind .get fun _ => .bind (.orFail _) fun _ => .fail _) w
    | true =>
      rw [World.after, setIndex_of_in hin, ← World.after]
      have hregular : (w.views.get r).slot.cell.IsRegular := h.cell_slot r ▸ h.regular _
      refine related_after_bind (saves_convert h hregular.2 _ v) fun x u hx => ?_
      refine related_after_bind (keeps_keep x u) fun y u' hy => ?_
      obtain ⟨y', n, hkeep, -⟩ := keep_eq x u
      rw [hkeep] at hy
      cases hy
      rw [after_get_bind]
      have hget : u.arrays.get (w.views.get r).array = w.shown r :=
        (convert_ok h hregular.2 hx).2.extends_.array _ (h.hasArray_view r)
      have hbuffer : b ≠ (u.arrays.get (w.views.get r).array).buffer := by
        rw [hget]
        exact hb
      exact saves_put hbuffer i y _

end View
end

/-- What may happen to an array: writes at any index through views of it or of its rows, at any depth,
whether they succeed or not, and in between operations that replace no cells. -/
inductive WritesInto (a : Ref .array) : World → World → Prop
  | refl (w : World) : WritesInto a w w
  | write {u w : World} (h : WritesInto a u w) {r : Ref .view} {path : List Nat}
      (hr : w.ShowsRow a r path) (i v : Value) : WritesInto a u (w.after (View.setIndex r i v))
  | other {u w w' : World} (h : WritesInto a u w) (s : Step w w')
      (hb : ∀ b, w.buffers.Has b → w'.buffers.get b = w.buffers.get b) : WritesInto a u w'

/-- A view of an array or of a row of it shows the cells that it showed, and reads them. -/
structure World.Unmoved (u u' : World) (a : Ref .array) (d : Ref .view) (path : List Nat) : Prop where
  shows : u'.ShowsRow a d path
  cells : u'.cells (u'.shown d) = u.cells (u.shown d)
  reads : u'.Reflects a d path

section

variable {u w : World} {a b : Ref .array}

theorem WritesInto.saves (h : WritesInto a u w) (hs : u.Sound) (ha : u.arrays.Has a)
    {c : Ref .buffer} (hc : c ≠ (u.arrays.get a).buffer) (hhas : u.buffers.Has c) :
    w.Sound ∧ u.Extends w ∧ w.buffers.get c = u.buffers.get c := by
  induction h with
  | refl => exact ⟨hs, .refl u, rfl⟩
  | @write w _ r path hr i v ih =>
    obtain ⟨hsw, he, hcells⟩ := ih
    obtain ⟨hsw', he'⟩ := View.leads_setIndex r i v w hsw
    have hbuffer : c ≠ (w.shown r).buffer := by
      rwa [hr.shown, Window.buffer_below, he.array a ha]
    have hsaves := View.saves_setIndex hsw hbuffer i v (he.hasBuffer c hhas)
    exact ⟨hsw', he.trans he', hsaves.2.trans hcells⟩
  | @other w w' _ s hb ih =>
    obtain ⟨hsw, he, hcells⟩ := ih
    obtain ⟨hsw', he'⟩ := s.leads hsw
    exact ⟨hsw', he.trans he', (hb c (he.hasBuffer c hhas)).trans hcells⟩

theorem WritesInto.unmoved {u' : World} (h : WritesInto a u u') (hs : u.Sound) (ha : u.arrays.Has a)
    (hb : u.arrays.Has b) (hapart : (u.arrays.get b).buffer ≠ (u.arrays.get a).buffer)
    {d : Ref .view} {path : List Nat} (hd : u.ShowsRow b d path) : u.Unmoved u' b d path := by
  obtain ⟨hs', he, hcells⟩ := h.saves hs ha hapart (hs.encloses b hb).1
  have hshows := hd.of_extends hs hb he
  refine ⟨hshows, ?_, reflects_of_showsRow hs' hshows⟩
  rw [he.shown hs hd.has, World.cells, World.cells, hd.shown, Window.buffer_below, hcells]

end

/-- A view of another array of the type, the shape and the cells of that of the given view. Their cells
lie apart, and nothing else has changed. -/
structure World.Copied (w w' : World) (q c : Ref .view) : Prop where
  has : w'.views.Has c
  fresh : ¬ w.buffers.Has (w'.shown c).buffer
  type : (w'.shown c).type = (w.shown q).type
  shape : (w'.shown c).shape = (w.shown q).shape
  cells : w'.cells (w'.shown c) = w.cells (w.shown q)
  extends_ : w.Extends w'
  kept : ∀ b, w.buffers.Has b → w'.buffers.get b = w.buffers.get b

theorem cells_newArray {type : CellType} {shape : List Nat} {cells : List Value} {r : Ref .array}
    {w w' : World} (ho : type.isObject = false) (hl : cells.length = cellCount shape)
    (hx : newArray type shape cells w = .ok r w') :
    w'.cells (w'.arrays.get r) = cells.map type.held := by
  obtain ⟨vs, n, hw, -, hplain⟩ := newArray_eq type shape cells w
  rw [hw] at hx
  cases hx
  have hvs : vs = cells.map type.held := by rw [hplain ho, CellType.filled_of_length hl]
  have hsize : cellCount shape = vs.toArray.size := by
    rw [hvs, List.size_toArray, List.length_map, hl]
  simp only [World.cells, Store.get_push_next, Window.size]
  rw [Nat.zero_add, hsize, Array.extract_size, hvs]

namespace HostMethod

/-- In whatever order the cells are asked for, a copy is a new array of them. -/
theorem ofArray_copy {a : Ref .array} {args : List Value} {w v : World} {x : Value}
    (hx : ofArray a "copy" args w = .ok x v) : ∃ r, x = .array r ∧
      newArray (w.arrays.get a).type (w.arrays.get a).shape (w.cells (w.arrays.get a)) w = .ok r v := by
  let made : Action Value := do
    return .array (← newArray (w.arrays.get a).type (w.arrays.get a).shape (w.cells (w.arrays.get a)))
  have hmade : made w = .ok x v → ∃ r, x = .array r ∧
      newArray (w.arrays.get a).type (w.arrays.get a).shape (w.cells (w.arrays.get a)) w = .ok r v := by
    intro h
    obtain ⟨r, u, hr, hlast⟩ := bind_eq_ok.mp h
    cases hlast
    exact ⟨r, rfl, hr⟩
  have hnamed : ∀ s, (if s ∈ orders then made else failHost .value) w = .ok x v → ∃ r, x = .array r ∧
      newArray (w.arrays.get a).type (w.arrays.get a).shape (w.cells (w.arrays.get a)) w = .ok r v := by
    intro s h
    by_cases hs : s ∈ orders
    · rw [if_pos hs] at h
      exact hmade h
    · rw [if_neg hs] at h
      cases h
  rcases args with _ | ⟨order, _ | ⟨_, _⟩⟩
  · exact hmade hx
  · cases ho : order.item with
    | null =>
      simp only [ofArray, ho] at hx
      exact hmade hx
    | text s =>
      simp only [ofArray, ho] at hx
      exact hnamed s hx
    | bytes b =>
      simp only [ofArray, ho] at hx
      exact hnamed _ hx
    | _ =>
      simp only [ofArray, ho] at hx
      cases hx
  · cases hx

end HostMethod

namespace View

variable {w : World} {q : Ref .view}

/-- A new array with the cells of a view is presented as a view of it. -/
theorem present_copy (h : w.Sound) (hq : w.views.Has q) (ho : (w.shown q).type.isObject = false)
    (p : Ref .presenter) (scope : Value) : ∃ c w',
      (newArray (w.shown q).type (w.shown q).shape (w.cells (w.shown q)) >>= fun r =>
        Presenter.present p (.array r) scope) w = .ok (.view c) w' ∧ w.Copied w' q c := by
  have hwithin : w.Within (w.shown q) := (h.shows _).within
  have haccepts : ∀ v ∈ w.cells (w.shown q), (w.shown q).type.Accepts v := hwithin.accepts_cells h
  have hlength : (w.cells (w.shown q)).length = cellCount (w.shown q).shape :=
    length_cells (h.encloses _ (h.array q hq))
  obtain ⟨u, hu, hs, he, hhas, hget, hkept, -⟩ := newArray_spec h (w.shown q).shape
    (hwithin.regular h) fun v hv => (haccepts v hv).1
  have hcells : u.cells (u.arrays.get w.arrays.next) = w.cells (w.shown q) := by
    rw [cells_newArray ho hlength hu, List.map_congr_left fun v hv => (haccepts v hv).2, List.map_id']
  have hshape : (u.arrays.get w.arrays.next).shape ≠ [] := by
    rw [hget]
    exact h.shape q hq
  obtain ⟨c, w', hc, hs', he', hb', hhas', harray⟩ := Presenter.present_array hs p scope hshape
  have hshown : w'.shown c = u.arrays.get w.arrays.next := by
    rw [shown, harray, he'.array _ hhas]
  refine ⟨c, w', ?_, hhas', ?_, ?_, ?_, ?_, he.trans he', ?_⟩
  · rw [bind_apply_of_ok _ hu, hc]
  · rw [hshown, hget]
    exact fun hno => w.buffers.ne_next_of_has hno rfl
  · rw [hshown, hget]
  · rw [hshown, hget]
  · rw [hshown, World.cells, hb', ← World.cells, hcells]
  · intro b hb
    rw [hb', hkept b hb]

/-- Whatever its arguments are, a call of the method that succeeds gives a view of a copy, and without
arguments it succeeds. -/
theorem callMethod_copy (h : w.Sound) (hq : w.views.Has q) (ho : (w.shown q).type.isObject = false)
    (hexposed : "copy" ∈ (w.views.get q).exposed) :
    Succeeds (callMethod (.view q) "copy" []) w ∧
    ∀ args x w', callMethod (.view q) "copy" args w = .ok x w' → ∃ c, x = .view c ∧ w.Copied w' q c := by
  let u := w.boundHost q "copy"
  have hown : hasOwn w q "copy" = true := by
    have hmember : w.member? (.array (w.views.get q).array) "copy" = some .method := rfl
    simp [hasOwn, exposes, hexposed, hmember]
  obtain ⟨hs, he⟩ : u.Sound ∧ w.Extends u := leads_of_eq rfl rfl rfl rfl h
  obtain ⟨c, v, hc, hcopied⟩ :=
    present_copy hs (q := q) hq ho (w.views.get q).presenter (w.views.get q).scope
  have hcopied' : w.Copied v q c := {
    has := hcopied.has
    fresh := hcopied.fresh
    type := hcopied.type
    shape := hcopied.shape
    cells := hcopied.cells
    extends_ := he.trans hcopied.extends_
    kept := hcopied.kept }
  constructor
  · refine ⟨.view c, v, ?_⟩
    rw [callMethod_host (fun _ => rfl) hown (by decide), ← hc]
    show ((newArray (w.shown q).type (w.shown q).shape (w.cells (w.shown q)) >>= fun r =>
      (pure (.array r) : Action Value)) >>= fun answer => Presenter.present _ answer _) u = _
    rw [bind_assoc]
    rfl
  · intro args x w' hx
    rw [callMethod_host (fun _ => rfl) hown (by decide)] at hx
    obtain ⟨answer, u', hrun, hpresent⟩ := bind_eq_ok.mp hx
    obtain ⟨r, rfl, hr⟩ := HostMethod.ofArray_copy hrun
    have hsame : (newArray (u.shown q).type (u.shown q).shape (u.cells (u.shown q)) >>= fun r =>
        Presenter.present (w.views.get q).presenter (.array r) (w.views.get q).scope) u = .ok x w' := by
      rw [← hpresent]
      exact bind_apply_of_ok _ hr
    rw [hc] at hsame
    cases hsame
    exact ⟨c, rfl, hcopied'⟩

end View

/-- A copy is independent of its original. A script that calls the method gets a view of an array of the
same type, shape and cells. Whenever later, in whatever run, one of the two arrays is written through
views of it or of its rows, every view of the other one or of its rows shows and reads the cells that
it did. -/
theorem View.copy_independent {w : World} (hw : Reachable w) {q : Ref .view} (hq : w.views.Has q)
    (ho : (w.shown q).type.isObject = false) (hexposed : "copy" ∈ (w.views.get q).exposed) :
    Succeeds (callMethod (.view q) "copy" []) w ∧
    ∀ args x w', callMethod (.view q) "copy" args w = .ok x w' →
      ∃ c, x = .view c ∧ w.Copied w' q c ∧ ∀ u, Run w' u →
        ∀ a b, (a = (u.views.get q).array ∧ b = (u.views.get c).array ∨
          a = (u.views.get c).array ∧ b = (u.views.get q).array) →
        ∀ u', WritesInto a u u' → ∀ d path, u.ShowsRow b d path → u.Unmoved u' b d path := by
  obtain ⟨hsucceeds, hcopied⟩ := callMethod_copy hw.sound hq ho hexposed
  refine ⟨hsucceeds, fun args x w' hx => ?_⟩
  obtain ⟨c, rfl, hc⟩ := hcopied args x w' hx
  refine ⟨c, rfl, hc, fun u hrun a b hab u' hwrites d path hd => ?_⟩
  have hs' : w'.Sound := by
    have hleads : w.Leads w' := after_of_ok hx ▸ (moves_callMethod (.view q) "copy" args w).leads
    exact (hleads hw.sound).1
  obtain ⟨hs, he⟩ := hrun.leads hs'
  have hq' := hc.extends_.hasView q hq
  have hbuffers : (u.shown q).buffer ≠ (u.shown c).buffer := by
    rw [he.shown hs' hq', he.shown hs' hc.has, hc.extends_.shown hw.sound hq]
    intro heq
    exact hc.fresh (heq ▸ (hw.sound.encloses _ (hw.sound.array q hq)).1)
  have hqarray := hs.array q (he.hasView q hq')
  have hcarray := hs.array c (he.hasView c hc.has)
  rcases hab with ⟨rfl, rfl⟩ | ⟨rfl, rfl⟩
  · exact hwrites.unmoved hs hqarray hcarray hbuffers.symm hd
  · exact hwrites.unmoved hs hcarray hqarray hbuffers hd

/-- Whatever is written to a copy of the square, at whatever index, the square keeps its cells. -/
theorem View.copy_writes_apart : ∃ c w',
    callMethod (.view ⟨0⟩) "copy" [] square = .ok (.view c) w' ∧ square.Copied w' ⟨0⟩ c ∧
    ∀ i v, w'.Unmoved (w'.after (View.setIndex c i v)) ⟨1⟩ ⟨0⟩ [] := by
  have hq : square.views.Has ⟨0⟩ := by decide
  obtain ⟨⟨x, w', hx⟩, hcopies⟩ := View.copy_independent reachable_square hq (by decide) (by decide)
  obtain ⟨c, rfl, hc, hkept⟩ := hcopies [] x w' hx
  refine ⟨c, w', hx, hc, fun i v => ?_⟩
  have hs : w'.Sound := by
    have hleads : square.Leads w' := after_of_ok hx ▸ (moves_callMethod _ "copy" [] square).leads
    exact (hleads reachable_square.sound).1
  have harray : (w'.views.get ⟨0⟩).array = ⟨1⟩ := by
    rw [hc.extends_.view ⟨0⟩ hq]
    rfl
  have hwhole := showsRow_whole hs (hc.extends_.hasView ⟨0⟩ hq)
  have hwrites : WritesInto (w'.views.get c).array w' (w'.after (View.setIndex c i v)) :=
    .write (.refl w') (showsRow_whole hs hc.has) i v
  rw [← harray]
  exact hkept w' (.refl w') _ _ (.inr ⟨rfl, rfl⟩) _ hwrites ⟨0⟩ [] hwhole

end ScriptedArrays
