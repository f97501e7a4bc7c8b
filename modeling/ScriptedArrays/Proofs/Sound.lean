import ScriptedArrays.Present
import ScriptedArrays.Proofs.CellContents
import ScriptedArrays.Proofs.Outcome

/-! Sound worlds. Every array lies within its buffer, whose cells are accepted by the one type
of all arrays on it, and every view shows an array as it is. A world that follows another one
keeps its arrays and views, so that what is known of them stays true. -/

namespace ScriptedArrays
namespace World

/-- The invariant of the stores of arrays and views. -/
structure Sound (w : World) : Prop where
  encloses : ∀ r, w.arrays.Has r → w.Encloses (w.arrays.get r)
  regular : ∀ r, (w.arrays.get r).type.IsRegular
  accepts : ∀ r, ∀ v ∈ w.buffers.get (w.arrays.get r).buffer, (w.arrays.get r).type.Accepts v
  oneType : ∀ r s, (w.arrays.get r).buffer = (w.arrays.get s).buffer →
    (w.arrays.get r).type = (w.arrays.get s).type
  array : ∀ q, w.views.Has q → w.arrays.Has (w.views.get q).array
  shape : ∀ q, w.views.Has q → (w.arrays.get (w.views.get q).array).shape ≠ []
  length : ∀ q, w.views.Has q → (w.views.get q).length = (w.arrays.get (w.views.get q).array).length
  slot : ∀ q, w.views.Has q → (w.views.get q).slot = (w.arrays.get (w.views.get q).array).slotType
  known : ∀ p known, (w.presenters.get p).known = some known → ∀ e ∈ known, w.views.Has e.2
  /-- The array that stands for those that there are not. -/
  noArray : w.arrays.Has ⟨0⟩ ∧ w.arrays.get ⟨0⟩ = ⟨default, ⟨0⟩, 0, [0]⟩
  noBuffer : w.buffers.Has ⟨0⟩ ∧ w.buffers.get ⟨0⟩ = #[]

/-- Arrays and views stay what they are; a view may only find its prototype. -/
structure Extends (w w' : World) : Prop where
  hasArray : ∀ r, w.arrays.Has r → w'.arrays.Has r
  array : ∀ r, w.arrays.Has r → w'.arrays.get r = w.arrays.get r
  hasBuffer : ∀ b, w.buffers.Has b → w'.buffers.Has b
  size : ∀ b, w.buffers.Has b → (w'.buffers.get b).size = (w.buffers.get b).size
  hasView : ∀ q, w.views.Has q → w'.views.Has q
  view : ∀ q, w.views.Has q →
    w'.views.get q = { w.views.get q with prototype := (w'.views.get q).prototype }

theorem Extends.refl (w : World) : w.Extends w :=
  ⟨fun _ h => h, fun _ _ => rfl, fun _ h => h, fun _ _ => rfl, fun _ h => h, fun _ _ => rfl⟩

theorem Extends.trans {u v w : World} (h : u.Extends v) (h' : v.Extends w) : u.Extends w where
  hasArray r hr := h'.hasArray r (h.hasArray r hr)
  array r hr := (h'.array r (h.hasArray r hr)).trans (h.array r hr)
  hasBuffer b hb := h'.hasBuffer b (h.hasBuffer b hb)
  size b hb := (h'.size b (h.hasBuffer b hb)).trans (h.size b hb)
  hasView q hq := h'.hasView q (h.hasView q hq)
  view q hq := by
    rw [h'.view q (h.hasView q hq), h.view q hq]

/-- A sound world is followed by a sound one that extends it. -/
def Leads (w w' : World) : Prop := w.Sound → w'.Sound ∧ w.Extends w'

instance : IsPreorder World Leads where
  refl w h := ⟨h, .refl w⟩
  trans _ _ _ h h' hs := ⟨(h' (h hs).1).1, (h hs).2.trans (h' (h hs).1).2⟩

/-- A change that leaves arrays, views and what presenters know as they are. -/
theorem leads_of_eq {w w' : World} (ha : w'.arrays = w.arrays) (hb : w'.buffers = w.buffers)
    (hv : w'.views = w.views) (hp : w'.presenters = w.presenters) : w.Leads w' := by
  intro h
  constructor
  · constructor
    all_goals simp only [Encloses, ha, hb, hv, hp]
    · exact h.encloses
    · exact h.regular
    · exact h.accepts
    · exact h.oneType
    · exact h.array
    · exact h.shape
    · exact h.length
    · exact h.slot
    · exact h.known
    · exact h.noArray
    · exact h.noBuffer
  · constructor <;> simp only [ha, hb, hv]
    · exact fun _ h => h
    · exact fun _ _ => trivial
    · exact fun _ h => h
    · exact fun _ _ => trivial
    · exact fun _ h => h
    · exact fun _ _ => trivial

theorem sound_empty : empty.Sound := by
  have harray : ∀ r, empty.arrays.get r = ⟨default, ⟨0⟩, 0, [0]⟩ ∨ empty.arrays.get r = default := by
    intro r
    by_cases hr : r = ⟨0⟩
    · exact .inl (hr ▸ rfl)
    · right
      exact Store.get_push_of_ne Store.empty _ (r := r) hr
  have hbuffer : ∀ r, (empty.arrays.get r).buffer = ⟨0⟩ := by
    intro r
    rcases harray r with h | h
    · rw [h]
    · rw [h]
      rfl
  have htype : ∀ r, (empty.arrays.get r).type = default := by
    intro r
    rcases harray r with h | h
    · rw [h]
    · rw [h]
      rfl
  have hno : ∀ q, ¬ empty.views.Has q := fun q h => Nat.not_lt_zero _ h
  exact {
    encloses := by
      intro r hr
      have h0 : r = ⟨0⟩ := by
        obtain ⟨i⟩ := r
        exact congrArg Ref.mk (Nat.lt_one_iff.mp hr)
      subst h0
      exact ⟨Nat.zero_lt_one, Nat.le_refl 0⟩
    regular := fun r => by
      rw [htype]
      exact ⟨rfl, True.intro⟩
    accepts := fun r v hv => by
      rw [hbuffer] at hv
      exact absurd hv (Array.not_mem_empty v)
    oneType := fun r s _ => by rw [htype, htype]
    array := fun q h => absurd h (hno q)
    shape := fun q h => absurd h (hno q)
    length := fun q h => absurd h (hno q)
    slot := fun q h => absurd h (hno q)
    known := fun p known h => by cases h
    noArray := ⟨Nat.zero_lt_one, rfl⟩
    noBuffer := ⟨Nat.zero_lt_one, rfl⟩ }

theorem Sound.hasBuffer {w : World} (h : w.Sound) (r : Ref .array) :
    w.buffers.Has (w.arrays.get r).buffer := by
  by_cases hr : w.arrays.Has r
  · exact (h.encloses r hr).1
  · rw [Store.get_of_not_has _ hr]
    exact h.noBuffer.1

/-- Nothing lies on a new buffer. -/
theorem Sound.push_buffer {w : World} (h : w.Sound) (cells : Array Value) :
    Sound { w with buffers := w.buffers.push cells } ∧
      w.Extends { w with buffers := w.buffers.push cells } := by
  have hold : ∀ b, w.buffers.Has b → (w.buffers.push cells).get b = w.buffers.get b :=
    fun b hb => Store.get_push_of_ne _ _ (w.buffers.ne_next_of_has hb)
  constructor
  · exact {
      encloses := by
        intro r hr
        refine ⟨Store.has_push_of_has _ _ (h.hasBuffer r), ?_⟩
        rw [hold _ (h.hasBuffer r)]
        exact (h.encloses r hr).2
      regular := h.regular
      accepts := by
        intro r v hv
        rw [hold _ (h.hasBuffer r)] at hv
        exact h.accepts r v hv
      oneType := h.oneType
      array := h.array
      shape := h.shape
      length := h.length
      slot := h.slot
      known := h.known
      noArray := h.noArray
      noBuffer := ⟨Store.has_push_of_has _ _ h.noBuffer.1, by
        rw [hold _ h.noBuffer.1]
        exact h.noBuffer.2⟩ }
  · exact {
      hasArray := fun r hr => hr
      array := fun r _ => rfl
      hasBuffer := fun b hb => Store.has_push_of_has _ _ hb
      size := fun b hb => by rw [hold b hb]
      hasView := fun q hq => hq
      view := fun q _ => rfl }

/-- A further array within a buffer whose cells it accepts. -/
theorem Sound.push_array {w : World} (h : w.Sound) {win : Window} (he : w.Encloses win)
    (hr : win.type.IsRegular) (ha : ∀ v ∈ w.buffers.get win.buffer, win.type.Accepts v)
    (hone : ∀ r, (w.arrays.get r).buffer = win.buffer → (w.arrays.get r).type = win.type) :
    Sound { w with arrays := w.arrays.push win } ∧ w.Extends { w with arrays := w.arrays.push win } := by
  have hold : ∀ r, w.arrays.Has r → (w.arrays.push win).get r = w.arrays.get r :=
    fun r hr => Store.get_push_of_ne _ _ (w.arrays.ne_next_of_has hr)
  have hget : ∀ r, (w.arrays.push win).get r = win ∨
      (w.arrays.push win).get r = w.arrays.get r := by
    intro r
    by_cases hr : r = w.arrays.next
    · exact .inl (hr ▸ Store.get_push_next _ _)
    · exact .inr (Store.get_push_of_ne _ _ hr)
  constructor
  · exact {
      encloses := by
        intro r hr
        rcases (Store.has_push_iff _ _).mp hr with hr | rfl
        · rw [hold r hr]
          exact h.encloses r hr
        · rw [Store.get_push_next]
          exact he
      regular := by
        intro r
        show ((w.arrays.push win).get r).type.IsRegular
        rcases hget r with e | e
        · rw [e]
          exact hr
        · rw [e]
          exact h.regular r
      accepts := by
        intro r v hv
        rcases hget r with e | e
        · rw [e] at hv ⊢
          exact ha v hv
        · rw [e] at hv ⊢
          exact h.accepts r v hv
      oneType := by
        intro r s hrs
        rcases hget r with er | er
        · rcases hget s with es | es
          · rw [er, es]
          · rw [er, es] at hrs ⊢
            exact (hone s hrs.symm).symm
        · rcases hget s with es | es
          · rw [er, es] at hrs ⊢
            exact hone r hrs
          · rw [er, es] at hrs ⊢
            exact h.oneType r s hrs
      array := fun q hq => Store.has_push_of_has _ _ (h.array q hq)
      shape := fun q hq => by
        rw [hold _ (h.array q hq)]
        exact h.shape q hq
      length := fun q hq => by
        rw [hold _ (h.array q hq)]
        exact h.length q hq
      slot := fun q hq => by
        rw [hold _ (h.array q hq)]
        exact h.slot q hq
      known := h.known
      noArray := ⟨Store.has_push_of_has _ _ h.noArray.1, by
        rw [hold _ h.noArray.1]
        exact h.noArray.2⟩
      noBuffer := h.noBuffer }
  · exact {
      hasArray := fun r hr => Store.has_push_of_has _ _ hr
      array := hold
      hasBuffer := fun b hb => hb
      size := fun b _ => rfl
      hasView := fun q hq => hq
      view := fun q _ => rfl }

theorem Encloses.row {w : World} {win : Window} (h : w.Encloses win) {i : Nat} (hi : i < win.length) :
    w.Encloses (win.row i) :=
  ⟨h.1, Nat.le_trans (Window.row_end_le hi) h.2⟩

/-- Cells that are accepted are written. -/
theorem Sound.setCells {w : World} (h : w.Sound) {win : Window} {vs : List Value}
    (hv : ∀ r, (w.arrays.get r).buffer = win.buffer →
      (w.buffers.get win.buffer).size = 0 ∨ ∀ v ∈ vs, (w.arrays.get r).type.Accepts v) :
    (w.setCells win vs).Sound ∧ w.Extends (w.setCells win vs) := by
  have hsize : ∀ b, ((w.setCells win vs).buffers.get b).size = (w.buffers.get b).size := by
    intro b
    simp only [World.setCells, Store.get_set]
    split
    · rename_i hb
      rw [size_overwrite, hb.1]
    · rfl
  constructor
  · exact {
      encloses := by
        intro r hr
        refine ⟨(Store.has_set _ _ _ _).mpr (h.hasBuffer r), ?_⟩
        rw [hsize]
        exact (h.encloses r hr).2
      regular := h.regular
      accepts := by
        intro r v hmem
        have hacc := h.accepts r
        simp only [World.setCells, Store.get_set] at hmem hacc ⊢
        split at hmem
        · rename_i hb
          obtain ⟨i, hi⟩ := Array.getElem?_of_mem hmem
          rw [getElem?_overwrite] at hi
          split at hi
          · rename_i hin
            rcases hv r hb.1 with h0 | hv
            · omega
            · exact hv v (List.mem_of_mem_take (List.mem_of_getElem? hi))
          · rw [← hb.1] at hi
            exact hacc v (Array.mem_of_getElem? hi)
        · exact hacc v hmem
      oneType := h.oneType
      array := h.array
      shape := h.shape
      length := h.length
      slot := h.slot
      known := h.known
      noArray := h.noArray
      noBuffer := ⟨(Store.has_set _ _ _ _).mpr h.noBuffer.1, by
        rw [← Array.size_eq_zero_iff, hsize, h.noBuffer.2]
        rfl⟩ }
  · exact {
      hasArray := fun r hr => hr
      array := fun r _ => rfl
      hasBuffer := fun b hb => (Store.has_set _ _ _ _).mpr hb
      size := fun b _ => hsize b
      hasView := fun q hq => hq
      view := fun q _ => rfl }

/-- A further view that shows an array as it is. -/
theorem Sound.push_view {w : World} (h : w.Sound) {view : View} (ha : w.arrays.Has view.array)
    (hs : (w.arrays.get view.array).shape ≠ [])
    (hl : view.length = (w.arrays.get view.array).length)
    (ht : view.slot = (w.arrays.get view.array).slotType) :
    Sound { w with views := w.views.push view } ∧ w.Extends { w with views := w.views.push view } := by
  have hold : ∀ q, w.views.Has q → (w.views.push view).get q = w.views.get q :=
    fun q hq => Store.get_push_of_ne _ _ (w.views.ne_next_of_has hq)
  -- what holds of the old views and of the new one holds of all
  have hall : ∀ P : View → Prop, (∀ q, w.views.Has q → P (w.views.get q)) → P view →
      ∀ q, (w.views.push view).Has q → P ((w.views.push view).get q) := by
    intro P hp hv q hq
    rcases (Store.has_push_iff _ _).mp hq with hq | rfl
    · rw [hold q hq]
      exact hp q hq
    · rw [Store.get_push_next]
      exact hv
  constructor
  · exact {
      encloses := h.encloses
      regular := h.regular
      accepts := h.accepts
      oneType := h.oneType
      array := hall (fun v => w.arrays.Has v.array) h.array ha
      shape := hall (fun v => (w.arrays.get v.array).shape ≠ []) h.shape hs
      length := hall (fun v => v.length = (w.arrays.get v.array).length) h.length hl
      slot := hall (fun v => v.slot = (w.arrays.get v.array).slotType) h.slot ht
      known := fun p known hk e he => Store.has_push_of_has _ _ (h.known p known hk e he)
      noArray := h.noArray
      noBuffer := h.noBuffer }
  · exact {
      hasArray := fun r hr => hr
      array := fun r _ => rfl
      hasBuffer := fun b hb => hb
      size := fun b _ => rfl
      hasView := fun q hq => Store.has_push_of_has _ _ hq
      view := fun q hq => by rw [hold q hq] }

/-- A view may find its prototype. -/
theorem Sound.set_prototype {w : World} (h : w.Sound) (q : Ref .view) (p : Option Value) :
    Sound { w with views := w.views.set q { w.views.get q with prototype := p } } ∧
      w.Extends { w with views := w.views.set q { w.views.get q with prototype := p } } := by
  have hget : ∀ s, (w.views.set q { w.views.get q with prototype := p }).get s =
      { w.views.get s with
        prototype := ((w.views.set q { w.views.get q with prototype := p }).get s).prototype } := by
    intro s
    simp only [Store.get_set]
    split
    · rename_i hs
      rw [hs.1]
    · rfl
  have harray : ∀ s, ((w.views.set q { w.views.get q with prototype := p }).get s).array =
      (w.views.get s).array := fun s => by rw [hget]
  constructor
  · exact {
      encloses := h.encloses
      regular := h.regular
      accepts := h.accepts
      oneType := h.oneType
      array := fun s hs => by
        rw [harray]
        exact h.array s ((Store.has_set _ _ _ _).mp hs)
      shape := fun s hs => by
        rw [harray]
        exact h.shape s ((Store.has_set _ _ _ _).mp hs)
      length := fun s hs => by
        rw [harray, hget]
        exact h.length s ((Store.has_set _ _ _ _).mp hs)
      slot := fun s hs => by
        rw [harray, hget]
        exact h.slot s ((Store.has_set _ _ _ _).mp hs)
      known := fun r known hk e he => (Store.has_set _ _ _ _).mpr (h.known r known hk e he)
      noArray := h.noArray
      noBuffer := h.noBuffer }
  · exact {
      hasArray := fun r hr => hr
      array := fun r _ => rfl
      hasBuffer := fun b hb => hb
      size := fun b _ => rfl
      hasView := fun s hs => (Store.has_set _ _ _ _).mpr hs
      view := fun s _ => hget s }

theorem Sound.with_presenters {w : World} (h : w.Sound) {ps : Store .presenter Presenter}
    (hk : ∀ p known, (ps.get p).known = some known → ∀ e ∈ known, w.views.Has e.2) :
    Sound { w with presenters := ps } ∧ w.Extends { w with presenters := ps } :=
  ⟨{ h with known := hk }, fun _ hr => hr, fun _ _ => rfl, fun _ hb => hb, fun _ _ => rfl,
    fun _ hq => hq, fun _ _ => rfl⟩

/-- The window lies on the buffer of an array and has its type. -/
def Within (w : World) (win : Window) : Prop :=
  ∃ r, w.arrays.Has r ∧ win.buffer = (w.arrays.get r).buffer ∧ win.type = (w.arrays.get r).type

/-- A window on the cells of an array, or of a row of one. -/
structure Shows (w : World) (win : Window) : Prop where
  within : w.Within win
  encloses : win.shape ≠ [] → w.Encloses win

namespace Within

variable {w w' : World} {win : Window}

theorem of_eq (hw : w.Within win) {part : Window} (hb : part.buffer = win.buffer)
    (ht : part.type = win.type) : w.Within part := by
  obtain ⟨r, hr, hrb, hrt⟩ := hw
  exact ⟨r, hr, hb.trans hrb, ht.trans hrt⟩

theorem regular (hw : w.Within win) (h : w.Sound) : win.type.IsRegular := by
  obtain ⟨r, -, -, ht⟩ := hw
  rw [ht]
  exact h.regular r

theorem accepts (hw : w.Within win) (h : w.Sound) :
    ∀ v ∈ w.buffers.get win.buffer, win.type.Accepts v := by
  obtain ⟨r, -, hb, ht⟩ := hw
  rw [hb, ht]
  exact h.accepts r

theorem oneType (hw : w.Within win) (h : w.Sound) (s : Ref .array)
    (hs : (w.arrays.get s).buffer = win.buffer) : (w.arrays.get s).type = win.type := by
  obtain ⟨r, -, hb, ht⟩ := hw
  rw [ht]
  exact h.oneType s r (hs.trans hb)

theorem hasBuffer (hw : w.Within win) (h : w.Sound) : w.buffers.Has win.buffer := by
  obtain ⟨r, -, hb, -⟩ := hw
  rw [hb]
  exact h.hasBuffer r

theorem of_extends (hw : w.Within win) (he : w.Extends w') : w'.Within win := by
  obtain ⟨r, hr, hb, ht⟩ := hw
  exact ⟨r, he.hasArray r hr, by rw [he.array r hr, hb], by rw [he.array r hr, ht]⟩

theorem accepts_cells (hw : w.Within win) (h : w.Sound) :
    ∀ v ∈ w.cells win, win.type.Accepts v := by
  intro v hv
  rw [cells, Array.mem_toList_iff] at hv
  obtain ⟨i, hi⟩ := Array.getElem?_of_mem hv
  rw [Array.getElem?_extract] at hi
  split at hi
  · exact hw.accepts h v (Array.mem_of_getElem? hi)
  · cases hi

end Within

theorem Sound.shows {w : World} (h : w.Sound) (r : Ref .array) : w.Shows (w.arrays.get r) := by
  by_cases hr : w.arrays.Has r
  · exact ⟨⟨r, hr, rfl, rfl⟩, fun _ => h.encloses r hr⟩
  · rw [Store.get_of_not_has _ hr]
    refine ⟨⟨⟨0⟩, h.noArray.1, ?_, ?_⟩, fun hs => absurd rfl hs⟩
    · rw [h.noArray.2]
      rfl
    · rw [h.noArray.2]
      rfl

namespace Shows

variable {w w' : World} {win : Window}

theorem row (hw : w.Shows win) {i : Nat} (hi : i < win.length) : w.Shows (win.row i) := by
  refine ⟨hw.within, fun _ => (hw.encloses ?_).row hi⟩
  intro hs
  simp [Window.length, hs] at hi

theorem of_extends (hw : w.Shows win) (h : w.Sound) (he : w.Extends w') : w'.Shows win := by
  refine ⟨hw.within.of_extends he, fun hs => ⟨he.hasBuffer _ (hw.within.hasBuffer h), ?_⟩⟩
  rw [he.size _ (hw.within.hasBuffer h)]
  exact (hw.encloses hs).2

end Shows

theorem Sound.setCells_of_within {w : World} (h : w.Sound) {win : Window} (hw : w.Within win)
    {vs : List Value} (hv : ∀ v ∈ vs, win.type.Accepts v) :
    (w.setCells win vs).Sound ∧ w.Extends (w.setCells win vs) := by
  refine h.setCells fun r hr => .inr ?_
  rw [hw.oneType h r hr]
  exact hv

end World
end ScriptedArrays
