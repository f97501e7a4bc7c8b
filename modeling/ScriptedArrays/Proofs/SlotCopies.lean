import ScriptedArrays.Proofs.Restoring

/-! Copies of slots. A cell is read as a value that stands for it and a row as a new view of it,
and either is written as the very cells that were read, so reading a slot and writing it to
another one copies it. -/

namespace ScriptedArrays

open World

structure World.Retains (w w' : World) : Prop where
  reads : w.Reads w'
  box : ∀ b, w.boxes.Has b → w'.boxes.Has b ∧ w'.boxes.get b = w.boxes.get b
  list : ∀ l, w.lists.Has l → w'.lists.Has l ∧ w'.lists.get l = w.lists.get l

instance : IsPreorder World World.Retains where
  refl w := ⟨refl_of Reads w, fun _ hb => ⟨hb, rfl⟩, fun _ hl => ⟨hl, rfl⟩⟩
  trans _ _ _ h h' := {
    reads := trans_of Reads h.reads h'.reads
    box := fun b hb =>
      have hv := h.box b hb
      ⟨(h'.box b hv.1).1, (h'.box b hv.1).2.trans hv.2⟩
    list := fun l hl =>
      have hv := h.list l hl
      ⟨(h'.list l hv.1).1, (h'.list l hv.1).2.trans hv.2⟩ }

theorem retains_of_eq {w w' : World} (ha : w'.arrays = w.arrays) (hb : w'.buffers = w.buffers)
    (hv : w'.views = w.views) (hp : w'.presenters = w.presenters) (hx : w'.boxes = w.boxes)
    (hl : w'.lists = w.lists) : w.Retains w' where
  reads := reads_of_eq ha hb hv hp
  box b h := by rw [hx]; exact ⟨h, rfl⟩
  list l h := by rw [hl]; exact ⟨h, rfl⟩

theorem retains_push_box (w : World) (b : Box) : w.Retains { w with boxes := w.boxes.push b } where
  reads := reads_of_eq rfl rfl rfl rfl
  box _ h := ⟨Store.has_push_of_has _ _ h, Store.get_push_of_ne _ _ (w.boxes.ne_next_of_has h)⟩
  list _ h := ⟨h, rfl⟩

def World.Carries (w : World) (t : CellType) (shape : List Nat) (x : Value) (cells : List Value) : Prop :=
  ∀ w', w.Retains w' → w'.Mirrors t shape x cells

namespace World.Carries

variable {w w' : World} {t : CellType} {shape : List Nat} {x : Value} {cells : List Value}

theorem mirrors (h : w.Carries t shape x cells) : w.Mirrors t shape x cells := h w (refl_of Retains w)

theorem of_retains (h : w.Carries t shape x cells) (hw : w.Retains w') : w'.Carries t shape x cells :=
  fun u hu => h u (trans_of Retains hw hu)

end World.Carries

def World.Hands (w : World) (act : Action Value) (c : Value) : Prop :=
  ∃ x w', act w = .ok x w' ∧ w.Retains w' ∧ ∀ u, w'.Retains u → u.StandsFor x c

theorem comparable_congr {x y : Value} (h : x.content = y.content) : comparable x = comparable y := by
  have hitem : x.item = y.item := by rw [Value.item, Value.item, h]
  rw [comparable, comparable, hitem]

namespace Presenter

variable {p : Ref .presenter} {scope : Value} {t : CellType} {c : Value} {w : World}

theorem present_itemValue (ho : t.isObject = false) : present p (t.itemValue c) scope w =
    presentFrom p scope (w.arrays.size + 2) (.scalar (t.ofItem c) c) w := by
  rw [present, get_bind_apply, CellType.itemValue, if_neg (by simp [ho])]

theorem standsFor_of_isKept {x v : Value} (hx : x.IsKept v) (h : w.StandsFor v c) :
    w.StandsFor x c := by
  rw [StandsFor, comparable_congr (content_hostValue w hx)]
  exact h

theorem hands_keep {v : Value} (hv : v.isWrapper = false) (hc : comparable v = comparable c) :
    w.Hands (keep v) c := by
  obtain ⟨x, n, hx, hcontent, hsame⟩ := keep_eq v w
  refine ⟨x, _, hx, retains_of_eq rfl rfl rfl rfl rfl rfl, fun u _ => ?_⟩
  refine standsFor_of_isKept ⟨hcontent, hsame⟩ ?_
  rw [StandsFor, hostValue_eq_self hv, hc]

theorem newBox_spec (scope v : Value) (p : Ref .presenter) (exposed : Option (List String))
    (w : World) : ∃ w', newBox scope v p exposed w = .ok w.boxes.next w' ∧ w.Retains w' ∧
      w'.boxes.Has w.boxes.next ∧ (w'.boxes.get w.boxes.next).value.IsKept v := by
  obtain ⟨y, n, hy, hcontent, hsame⟩ := keep_eq v w
  have hkeep : w.Retains { w with kept := n } := retains_of_eq rfl rfl rfl rfl rfl rfl
  rw [newBox, bind_apply_of_ok _ hy]
  refine ⟨_, rfl, trans_of Retains hkeep (retains_push_box { w with kept := n } _),
    Store.has_push_next _ _, ?_⟩
  dsimp only
  rw [Store.get_push_next]
  exact ⟨hcontent, hsame⟩

theorem hands_newBox : w.Hands (newBox scope c p none >>= fun b => pure (.box b)) c := by
  obtain ⟨w', hb, hw, hhas, hkept⟩ := newBox_spec scope c p none w
  refine ⟨.box w.boxes.next, w', by rw [bind_apply_of_ok _ hb]; rfl, hw, fun u hu => ?_⟩
  have hvalue : u.hostValue (.box w.boxes.next) = (w'.boxes.get w.boxes.next).value :=
    congrArg Box.value (hu.box _ hhas).2
  rw [StandsFor, hvalue]
  exact comparable_congr hkept.content

theorem hands_present (ho : t.isObject = false) (hc : t.content.Admits c) :
    w.Hands (present p (t.itemValue c) scope) c := by
  have hprimitive : c.IsPrimitive := isPrimitive_of_admits ho hc
  rw [Hands, present_itemValue ho]
  cases c with
  | null => exact ⟨.null, w, rfl, refl_of Retains w, fun _ _ => rfl⟩
  | bool b => exact hands_keep rfl rfl
  | int n => exact hands_keep rfl rfl
  | number y => exact hands_keep rfl rfl
  | text s => exact hands_keep rfl rfl
  | bytes b => exact hands_keep (v := .text (Latin.decode b)) rfl rfl
  | complex re im => exact hands_newBox
  | date d => exact hands_newBox
  | duration s => exact hands_newBox
  | _ => exact hprimitive.elim

theorem box_of_present {x : Value} {w' : World} (ht : t.content.isComplex = true)
    (hc : t.content.Admits c) (hx : present p (t.itemValue c) scope w = .ok x w') :
    ∃ b, x = .box b := by
  cases hcontent : t.content with
  | complex q =>
    obtain ⟨re, im, rfl, -⟩ := hcontent ▸ hc
    obtain ⟨u, hb, -⟩ := newBox_spec scope (.complex re im) p none w
    have hbox : present p (t.itemValue (.complex re im)) scope w = .ok (.box w.boxes.next) u := by
      rw [present_itemValue (by simp [CellType.isObject, hcontent])]
      show (newBox scope (.complex re im) p none >>= fun b => pure (Value.box b)) w = _
      rw [bind_apply_of_ok _ hb]
      rfl
    rw [hbox] at hx
    cases hx
    exact ⟨_, rfl⟩
  | _ => simp [hcontent, Content.isComplex] at ht

end Presenter

/-- An array of which no presenter knows a view gets a new one. -/
theorem Presenter.present_fresh {scope : Value} {array : Ref .array} {p : Ref .presenter} {w : World}
    (hs : (w.arrays.get array).shape ≠ [])
    (hnew : ∀ known, (w.presenters.get p).known = some known →
      ∀ e ∈ known, (w.views.get e.2).array ≠ array) :
    ∃ ps l, present p (.array array) scope w = .ok (.view w.views.next)
      { w.handing w.views.next with
        views := w.views.push (w.freshView p array scope), presenters := ps, log := l } := by
  have hne : ¬ (w.arrays.get array).shape.isEmpty = true := by simpa using hs
  obtain ⟨l, hl⟩ := newView_fresh scope p hs
  have hview : ∃ ps l, viewOf p array scope w = .ok w.views.next
      { w.handing w.views.next with
        views := w.views.push (w.freshView p array scope), presenters := ps, log := l } := by
    rw [viewOf, get_bind_apply]
    cases hk : (w.presenters.get p).known with
    | none => exact ⟨w.presenters, l, hl⟩
    | some known =>
      have hknown : known? w known array = none := by
        cases hq : known? w known array with
        | none => rfl
        | some q =>
          obtain ⟨⟨a, hmem⟩, -, harray⟩ := known?_eq_some hq
          exact absurd harray (hnew known hk _ hmem)
      dsimp only
      rw [hknown]
      dsimp only
      rw [bind_apply_of_ok _ hl]
      exact ⟨_, l, rfl⟩
  obtain ⟨ps, l, hview⟩ := hview
  refine ⟨ps, l, ?_⟩
  rw [present, get_bind_apply, presentFrom]
  simp only [Value.opened, Value.content]
  rw [get_bind_apply, if_neg hne, bind_apply_of_ok _ hview]
  rfl

namespace View

variable {w : World} {r : Ref .view} {i : Value} {k : Nat}

def rowWorld (w : World) (r : Ref .view) (k : Nat) : World :=
  let u := { w with arrays := w.arrays.push ((w.shown r).row k) }
  { u.handing w.views.next with
    views := w.views.push (u.freshView (w.views.get r).presenter w.arrays.next (w.views.get r).scope) }

theorem getIndex_fresh (h : w.Sound) (hr : w.views.Has r) (hi : i.IsInteger k)
    (hk : k < (w.shown r).length) (hn : (w.shown r).rowShape ≠ []) :
    ∃ ps l, getIndex r i w = .ok (.view w.views.next)
      { rowWorld w r k with presenters := ps, log := l } := by
  have hslot : slotValue (w.shown r) k w =
      .ok (.array w.arrays.next) { w with arrays := w.arrays.push ((w.shown r).row k) } := by
    have hne : ¬ (w.shown r).rowShape.isEmpty = true := by simpa using hn
    rw [slotValue, if_neg hne]
    rfl
  rw [getIndex_of_in h hr hi hk, bind_apply_of_ok _ hslot]
  refine Presenter.present_fresh ?_ ?_
  · dsimp only
    rw [Store.get_push_next]
    exact hn
  · intro known hknown e he
    exact w.arrays.ne_next_of_has (h.array e.2 (h.known _ known hknown e he))

theorem cells_row_of_plain (h : w.Sound) (hr : w.views.Has r) (hk : k < (w.shown r).length)
    (hn : (w.shown r).rowShape = []) :
    w.cells ((w.shown r).row k) = [w.cell (w.shown r) k] := by
  have hencloses : w.Encloses ((w.shown r).row k) := (h.encloses _ (h.array r hr)).row hk
  rw [cells_of_axisless hencloses hn, w.cell_row hn]

theorem accepts_row (h : w.Sound) (r : Ref .view) (k : Nat) :
    ∀ c ∈ w.cells ((w.shown r).row k), (w.shown r).type.Accepts c := by
  have hwithin : w.Within ((w.shown r).row k) := (h.shows _).within.of_eq rfl rfl
  exact hwithin.accepts_cells h

theorem accepts_cell (h : w.Sound) (hr : w.views.Has r) (hk : k < (w.shown r).length)
    (hn : (w.shown r).rowShape = []) : (w.shown r).type.Accepts (w.cell (w.shown r) k) := by
  refine accepts_row h r k _ ?_
  rw [cells_row_of_plain h hr hk hn]
  exact List.mem_cons_self

theorem carries_view {q : Ref .view} (h : w.Sound) (hq : w.views.Has q) (hs : (w.shown q).shape ≠ []) :
    w.Carries (w.shown q).type (w.shown q).shape (.view q) (w.cells (w.shown q)) := by
  intro u hu
  have hshown : u.shown q = w.shown q := (hu.reads h).2.1.shown h hq
  obtain ⟨n, shape, hshape⟩ := List.exists_cons_of_ne_nil hs
  rw [hshape]
  refine .inl ⟨u.shown q, rfl, ?_, ?_, ?_⟩
  · rw [hshown]
  · rw [hshown, hshape]
  · rw [hshown, hu.reads.cells h]

theorem hands_getIndex (h : w.Sound) (hr : w.views.Has r) (ho : (w.shown r).type.isObject = false)
    (hi : i.IsInteger k) (hk : k < (w.shown r).length) (hn : (w.shown r).rowShape = []) :
    w.Hands (getIndex r i) (w.cell (w.shown r) k) := by
  rw [Hands, getIndex_plain h hr hi hk hn]
  exact Presenter.hands_present ho (accepts_cell h hr hk hn).1

theorem getIndex_view (h : w.Sound) (hr : w.views.Has r) (hi : i.IsInteger k)
    (hk : k < (w.shown r).length) (hn : (w.shown r).rowShape ≠ []) :
    ∃ q u, getIndex r i w = .ok (.view q) u ∧ w.Retains u ∧ u.views.Has q ∧
      u.shown q = (w.shown r).row k := by
  obtain ⟨ps, l, hget⟩ := getIndex_fresh h hr hi hk hn
  obtain ⟨q, u, hget', hsound, hext, hbuf, hq, hshown⟩ := getIndex_nested h hr hi hk hn
  refine ⟨q, u, hget', ⟨fun _ => ⟨hsound, hext, hbuf⟩, ?_, ?_⟩, hq, hshown⟩
  · rw [hget] at hget'
    cases hget'
    exact fun b hb => ⟨hb, rfl⟩
  · rw [hget] at hget'
    cases hget'
    exact fun l hl => ⟨hl, rfl⟩

theorem getIndex_carries (h : w.Sound) (hr : w.views.Has r)
    (hs : (w.shown r).rowShape = [] → (w.shown r).type.content.IsScalar) (hi : i.IsInteger k)
    (hk : k < (w.shown r).length) :
    ∃ x u, getIndex r i w = .ok x u ∧ w.Retains u ∧
      u.Carries (w.shown r).type (w.shown r).rowShape x (w.cells ((w.shown r).row k)) := by
  by_cases hn : (w.shown r).rowShape = []
  · obtain ⟨x, u, hx, hu, hstands⟩ := hands_getIndex h hr (isObject_of_isScalar (hs hn)) hi hk hn
    refine ⟨x, u, hx, hu, fun v hv => ?_⟩
    rw [hn, cells_row_of_plain h hr hk hn]
    exact ⟨_, rfl, hs hn, hstands v hv⟩
  · obtain ⟨q, u, hget, hu, hq, hshown⟩ := getIndex_view h hr hi hk hn
    have hcarries := carries_view (hu.reads h).1 hq (by rw [hshown]; exact hn)
    rw [hshown, hu.reads.cells h] at hcarries
    exact ⟨.view q, u, hget, hu, hcarries⟩

end View

namespace World.Writes

variable {w u w' : World} {win : Window} {cells : List Value}

theorem of_extends (h : u.Writes w' win cells) (he : w.Extends u) (hb : u.buffers = w.buffers) :
    w.Writes w' win cells where
  extends_ := he.trans h.extends_
  written := h.written
  others b hhas p hp := by
    have hothers := h.others b (he.hasBuffer b hhas) p hp
    rwa [hb] at hothers

theorem refl (w : World) (win : Window) : w.Writes w win (w.cells win) where
  extends_ := .refl w
  written := rfl
  others _ _ _ _ := rfl

theorem buffers_eq {v : World} (h : w.Writes u win cells) (h' : w.Writes v win cells)
    (hw : w.Encloses win) {b : Ref .buffer} (hb : w.buffers.Has b) :
    u.buffers.get b = v.buffers.get b := by
  have henclosed : ∀ x : World, w.Extends x → x.Encloses win := fun x hx =>
    ⟨hx.hasBuffer _ hw.1, by rw [hx.size _ hw.1]; exact hw.2⟩
  apply Array.ext_getElem?
  intro p
  by_cases hp : b = win.buffer → p < win.start ∨ win.start + win.size ≤ p
  · rw [h.others b hb p hp, h'.others b hb p hp]
  · obtain ⟨rfl, hin⟩ := Classical.not_imp.mp hp
    obtain ⟨m, rfl⟩ : ∃ m, p = win.start + m := ⟨p - win.start, by omega⟩
    have hm : m < win.size := by omega
    rw [← getElem?_cells (henclosed u h.extends_) hm, ← getElem?_cells (henclosed v h'.extends_) hm,
      h.written, h'.written]

end World.Writes

theorem View.setIndex_of_reads {w u : World} (h : w.Sound) {r : Ref .view} (hr : w.views.Has r)
    (ho : (w.shown r).type.isObject = false) {j x : Value} {k m : Nat} (hj : j.IsInteger m)
    (hm : m < (w.shown r).length) (hu : w.Reads u)
    (hx : u.Mirrors (w.shown r).type (w.shown r).rowShape x (w.cells ((w.shown r).row k))) :
    ∃ w', setIndex r j x u = .ok () w' ∧
      w.Writes w' ((w.shown r).row m) (w.cells ((w.shown r).row k)) := by
  obtain ⟨hsound, hext, hbuf⟩ := hu h
  have hshown : u.shown r = w.shown r := hext.shown h hr
  have haccepts := accepts_row h r k
  rw [← hshown] at ho hm hx
  obtain ⟨w', hset, hwrites⟩ :=
    setIndex_of_mirrors hsound (hext.hasView r hr) ho hj hm hx (by rwa [hshown])
  rw [hshown] at hwrites
  exact ⟨w', hset, hwrites.of_extends hext hbuf⟩

/-- Reading a slot and writing it back is a copy. For every view of an array whose cells hold
truth values, numbers, texts or bytes, what one slot is read as is written to another one as the
very cells of the first, and nothing else changes. -/
theorem View.setIndex_getIndex {w : World} (hw : Reachable w) {r : Ref .view} (hr : w.views.Has r)
    (hs : (w.shown r).type.content.IsScalar) {i j : Value} {k m : Nat} (hi : i.IsInteger k)
    (hj : j.IsInteger m) (hk : k < (w.shown r).length) (hm : m < (w.shown r).length) :
    ∃ x u w', getIndex r i w = .ok x u ∧ setIndex r j x u = .ok () w' ∧
      w.Writes w' ((w.shown r).row m) (w.cells ((w.shown r).row k)) ∧
      (k = m → ∀ b, w.buffers.Has b → w'.buffers.get b = w.buffers.get b) ∧
      ((w.shown r).rowShape = [] → (w.shown r).type.content.isComplex = true → ∃ b, x = .box b) := by
  have h := hw.sound
  obtain ⟨x, u, hx, hu, hcarries⟩ := getIndex_carries h hr (fun _ => hs) hi hk
  obtain ⟨w', hset, hwrites⟩ :=
    setIndex_of_reads h hr (isObject_of_isScalar hs) hj hm hu.reads hcarries.mirrors
  refine ⟨x, u, w', hx, hset, hwrites, ?_, fun hn hcomplex => ?_⟩
  · rintro rfl b hb
    have hencloses : w.Encloses ((w.shown r).row k) := (h.encloses _ (h.array r hr)).row hk
    exact hwrites.buffers_eq (.refl w _) hencloses hb
  · rw [getIndex_plain h hr hi hk hn] at hx
    exact Presenter.box_of_present hcomplex (accepts_cell h hr hk hn).1 hx

def phases : World := World.empty.afterAll [
  .newPresenter .standard,
  .buildArray ⟨.complex .single, true⟩ [2] [.complex .nan .zero, .complex .zero (.infinite true)],
  .newView .null ⟨1⟩ ⟨0⟩ none false]

theorem reachable_phases : Reachable phases := by
  apply Reachable.start.afterAll
  simp [Operation.IsProper, Content.IsProper]

/-- The first number is read as a box and copied to the second place. -/
theorem View.complex_copies_to_slot : ∃ b u w', getIndex ⟨0⟩ (.int 0) phases = .ok (.box b) u ∧
    setIndex ⟨0⟩ (.int 1) (.box b) u = .ok () w' ∧
    phases.Writes w' ((phases.shown ⟨0⟩).row 1) (phases.cells ((phases.shown ⟨0⟩).row 0)) := by
  have hfirst : (Value.int 0).IsInteger (0 : Nat) := .inl rfl
  have hsecond : (Value.int 1).IsInteger (1 : Nat) := .inl rfl
  obtain ⟨x, u, w', hx, hset, hwrites, -, hbox⟩ := View.setIndex_getIndex reachable_phases
    (r := ⟨0⟩) (by decide) True.intro hfirst hsecond (by decide) (by decide)
  obtain ⟨b, rfl⟩ := hbox rfl rfl
  exact ⟨b, u, w', hx, hset, hwrites⟩

end ScriptedArrays
