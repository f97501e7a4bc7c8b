import ScriptedArrays.Proofs.Ends
import ScriptedArrays.Proofs.Objects

/-! Views of arrays. Presenting an array gives a view of that very array, a new one or one that
its presenter handed out before, and touches no cell. -/

namespace ScriptedArrays

open World

def World.Reads (w w' : World) : Prop :=
  w.Sound → w'.Sound ∧ w.Extends w' ∧ w'.buffers = w.buffers

instance : IsPreorder World World.Reads where
  refl w h := ⟨h, .refl w, rfl⟩
  trans _ _ _ h h' hs :=
    ⟨(h' (h hs).1).1, (h hs).2.1.trans (h' (h hs).1).2.1, (h' (h hs).1).2.2.trans (h hs).2.2⟩

theorem World.Reads.cells {w w' : World} (hr : w.Reads w') (h : w.Sound) (win : Window) :
    w'.cells win = w.cells win := by
  rw [World.cells, World.cells, (hr h).2.2]

theorem leads_of_reads {α : Type} {act : Action α} (h : Keeps Reads act) : Keeps Leads act :=
  fun w hs => ⟨(h w hs).1, (h w hs).2.1⟩

theorem reads_of_eq {w w' : World} (ha : w'.arrays = w.arrays) (hb : w'.buffers = w.buffers)
    (hv : w'.views = w.views) (hp : w'.presenters = w.presenters) : w.Reads w' := by
  intro h
  obtain ⟨hs, he⟩ := leads_of_eq ha hb hv hp h
  exact ⟨hs, he, hb⟩

instance : Tolerant Reads := ⟨fun h => reads_of_eq h.arrays h.buffers h.views h.presenters⟩

theorem World.has_of_shape {w : World} {r : Ref .array} (hs : (w.arrays.get r).shape ≠ []) :
    w.arrays.Has r := by
  by_contra hno
  rw [Store.get_of_not_has _ hno] at hs
  exact hs rfl

theorem newView_of_plain {w : World} (scope : Value) {r : Ref .array} (p : Ref .presenter)
    (truncates : Option Bool) (counted : Bool) (hs : (w.arrays.get r).shape = []) :
    newView scope r p truncates counted w = .error .arrayExpected w := by
  rw [newView, get_bind_apply]
  simp only [hs, List.isEmpty_nil, if_true]
  rfl

theorem newView_eq (w : World) (scope : Value) {r : Ref .array} (p : Ref .presenter)
    (truncates : Option Bool) (counted : Bool) (hs : (w.arrays.get r).shape ≠ []) :
    ∃ view l, newView scope r p truncates counted w =
        .ok w.views.next { w with
          views := w.views.push view, handed := w.handed ++ [w.views.next], log := l } ∧
      view.array = r ∧ view.scope = scope ∧ view.presenter = p ∧ view.prototype = none ∧
      view.length = (w.arrays.get r).length ∧ view.slot = (w.arrays.get r).slotType := by
  let view : View := ⟨scope, r, (w.arrays.get r).length, (w.arrays.get r).slotType, p,
    truncates.getD (w.presenters.get p).truncates, counted, none, (w.presenters.get p).exposed⟩
  obtain ⟨l, hl⟩ := logEvent_eq (.presented view.slot.name view.length)
    ({ w with views := w.views.push view }.handing w.views.next)
  refine ⟨view, l, ?_, rfl, rfl, rfl, rfl, rfl, rfl⟩
  have hne : ¬ (w.arrays.get r).shape.isEmpty = true := by simpa using hs
  rw [newView, get_bind_apply]
  simp only [if_neg hne]
  rw [set_bind_apply]
  exact bind_apply_of_ok _ hl

def World.freshView (w : World) (p : Ref .presenter) (array : Ref .array) (scope : Value) : View where
  scope := scope
  array := array
  length := (w.arrays.get array).length
  slot := (w.arrays.get array).slotType
  presenter := p
  truncates := (w.presenters.get p).truncates
  counted := false
  prototype := none
  exposed := (w.presenters.get p).exposed

theorem newView_fresh (scope : Value) {array : Ref .array} (p : Ref .presenter) {w : World}
    (hs : (w.arrays.get array).shape ≠ []) : ∃ l, newView scope array p none false w =
      .ok w.views.next { w.handing w.views.next with
        views := w.views.push (w.freshView p array scope), log := l } := by
  have hne : ¬ (w.arrays.get array).shape.isEmpty = true := by simpa using hs
  obtain ⟨l, hl⟩ := logEvent_eq
    (.presented (w.freshView p array scope).slot.name (w.freshView p array scope).length)
    { w.handing w.views.next with views := w.views.push (w.freshView p array scope) }
  refine ⟨l, ?_⟩
  rw [newView, get_bind_apply]
  simp only [if_neg hne]
  rw [set_bind_apply]
  exact bind_apply_of_ok _ hl

theorem newView_spec {w : World} (h : w.Sound) (scope : Value) {r : Ref .array}
    (p : Ref .presenter) (truncates : Option Bool) (counted : Bool)
    (hs : (w.arrays.get r).shape ≠ []) :
    ∃ w', newView scope r p truncates counted w = .ok w.views.next w' ∧ w'.Sound ∧
      w.Extends w' ∧ w'.buffers = w.buffers ∧ w'.presenters = w.presenters ∧ w'.views.Has w.views.next ∧
      (w'.views.get w.views.next).array = r ∧ (w'.views.get w.views.next).presenter = p ∧
      (w'.views.get w.views.next).scope = scope := by
  have hr : w.arrays.Has r := has_of_shape hs
  obtain ⟨view, l, hw, rfl, rfl, rfl, -, hlength, hslot⟩ := newView_eq w scope p truncates counted hs
  obtain ⟨hsound, hext⟩ : World.Sound { w with views := w.views.push view } ∧
      w.Extends { w with views := w.views.push view } := h.push_view hr hs hlength hslot
  have hlog : Leads { w with views := w.views.push view }
      { w with views := w.views.push view, handed := w.handed ++ [w.views.next], log := l } :=
    leads_of_eq rfl rfl rfl rfl
  obtain ⟨hsound', hext'⟩ := hlog hsound
  refine ⟨_, hw, hsound', hext.trans hext', rfl, rfl, Store.has_push_next _ _, ?_, ?_, ?_⟩
  · exact congrArg View.array (Store.get_push_next _ _)
  · exact congrArg View.presenter (Store.get_push_next _ _)
  · exact congrArg View.scope (Store.get_push_next _ _)

theorem reads_newView (scope : Value) (r : Ref .array) (p : Ref .presenter)
    (truncates : Option Bool) (counted : Bool) :
    Keeps Reads (newView scope r p truncates counted) := by
  intro w h
  by_cases hs : (w.arrays.get r).shape = []
  · rw [after_of_error (newView_of_plain scope p truncates counted hs)]
    exact ⟨h, .refl w, rfl⟩
  · obtain ⟨w', hw, hsound, hext, hbuf, -⟩ := newView_spec h scope p truncates counted hs
    rw [after_of_ok hw]
    exact ⟨hsound, hext, hbuf⟩

namespace Presenter

theorem known?_eq_some {w : World} {known : List (Nat × Ref .view)} {array : Ref .array}
    {q : Ref .view} (h : known? w known array = some q) :
    (∃ a, (a, q) ∈ known) ∧ w.isKept (.view q) = true ∧ (w.views.get q).array = array := by
  simp only [known?] at h
  split at h
  · rename_i a q' hfind
    split at h
    · rename_i hq
      cases h
      simp only [Bool.and_eq_true, beq_iff_eq] at hq
      exact ⟨⟨a, List.mem_of_find?_eq_some hfind⟩, hq⟩
    · cases h
  · cases h

/-- What a presenter hands out for an array is the view that it knows, or a new one, which it knows
from then on if it knows views at all. -/
theorem viewOf_cases (w : World) (p : Ref .presenter) {r : Ref .array} (scope : Value)
    (hs : (w.arrays.get r).shape ≠ []) :
    (∃ known q, (w.presenters.get p).known = some known ∧ known? w known r = some q ∧
      viewOf p r scope w = .ok q (w.handing q)) ∨
    ∃ l ps, viewOf p r scope w =
        .ok w.views.next { w with
          views := w.views.push (w.freshView p r scope), handed := w.handed ++ [w.views.next],
          log := l, presenters := ps } ∧
      ((w.presenters.get p).known = none ∧ ps = w.presenters ∨
        ∃ known, (w.presenters.get p).known = some known ∧ known? w known r = none ∧
          ps = w.presenters.set p { w.presenters.get p with
            known := some ((w.address r, w.views.next) :: known) }) := by
  obtain ⟨l, hw⟩ := newView_fresh scope p hs
  rw [viewOf, get_bind_apply]
  cases hk : (w.presenters.get p).known with
  | none => exact .inr ⟨l, _, hw, .inl ⟨rfl, rfl⟩⟩
  | some known =>
    dsimp only
    cases hq : known? w known r with
    | some q => exact .inl ⟨known, q, rfl, hq, rfl⟩
    | none =>
      refine .inr ⟨l, _, ?_, .inr ⟨known, rfl, hq, rfl⟩⟩
      dsimp only
      rw [bind_apply_of_ok _ hw, look_bind_apply]
      rfl

/-- The view of an array, new or known, shows that array. -/
theorem viewOf_spec {w : World} (h : w.Sound) (p : Ref .presenter) {r : Ref .array} (scope : Value)
    (hs : (w.arrays.get r).shape ≠ []) :
    ∃ q w', viewOf p r scope w = .ok q w' ∧ w'.Sound ∧ w.Extends w' ∧ w'.buffers = w.buffers ∧
      w'.views.Has q ∧ (w'.views.get q).array = r := by
  obtain ⟨u, hu, hsound, hext, hbuf, hps, hhas, harray, -⟩ := newView_spec h scope p none false hs
  rw [viewOf, get_bind_apply]
  cases hk : (w.presenters.get p).known with
  | none => exact ⟨_, u, hu, hsound, hext, hbuf, hhas, harray⟩
  | some known =>
    dsimp only
    cases hq : known? w known r with
    | some q =>
      obtain ⟨hs', he'⟩ : (w.handing q).Sound ∧ w.Extends (w.handing q) :=
        leads_of_eq rfl rfl rfl rfl h
      refine ⟨q, w.handing q, rfl, hs', he', rfl, ?_⟩
      obtain ⟨⟨a, hmem⟩, -, harray⟩ := known?_eq_some hq
      exact ⟨h.known p known hk _ hmem, harray⟩
    | none =>
      dsimp only
      rw [bind_apply_of_ok _ hu, look_bind_apply]
      let ps := u.presenters.set p
        { u.presenters.get p with known := some ((w.address r, w.views.next) :: known) }
      obtain ⟨hsound', hext'⟩ : World.Sound { u with presenters := ps } ∧
          u.Extends { u with presenters := ps } := hsound.with_presenters
        (by
          intro p' known' hk' e he
          rw [Store.get_set] at hk'
          split at hk'
          · cases hk'
            rcases List.mem_cons.mp he with rfl | he
            · exact hhas
            · exact hext.hasView _ (h.known p known hk e he)
          · exact hsound.known p' known' hk' e he)
      exact ⟨w.views.next, _, rfl, hsound', hext.trans hext', hbuf, hhas, harray⟩

/-- Presenting keeps what is kept by the views, the boxes and the other values that it hands out. -/
theorem keeps_presentFrom {R : World → World → Prop} [IsPreorder World R] {p : Ref .presenter}
    {scope : Value} (hkeep : ∀ v, Keeps R (keep v)) (hbox : ∀ v, Keeps R (newBox scope v p none))
    (hview : ∀ (w : World) r, (w.arrays.get r).shape ≠ [] → R w (w.after (viewOf p r scope)))
    (fuel : Nat) (v : Value) : Keeps R (presentFrom p scope fuel v) := by
  induction fuel generalizing v with
  | zero => exact .failHost _
  | succ fuel ih =>
    rw [presentFrom]
    dsimp only
    split
    · exact .pure _
    · rename_i r _
      intro w
      rw [after_get_bind]
      by_cases hs : (w.arrays.get r).shape = []
      · simp only [hs, List.isEmpty_nil, if_true]
        exact ih _ w
      · have hne : ¬ (w.arrays.get r).shape.isEmpty = true := by simpa using hs
        simp only [if_neg hne]
        exact related_after_bind (hview w r hs) fun _ v _ => refl_of R v
    · exact hkeep _
    · exact hkeep _
    · exact hkeep _
    · exact hkeep _
    · exact hkeep _
    · exact .pure _
    · exact .pure _
    · exact .bind (hbox _) fun _ => .pure _

theorem keeps_present {R : World → World → Prop} [IsPreorder World R] [Tolerant R]
    {p : Ref .presenter} {scope : Value}
    (hview : ∀ (w : World) r, (w.arrays.get r).shape ≠ [] → R w (w.after (viewOf p r scope)))
    (v : Value) : Keeps R (present p v scope) :=
  .bind .get fun _ => keeps_presentFrom keeps_keep (fun v => keeps_newBox scope v p none) hview _ _

theorem reads_viewOf {w : World} (p : Ref .presenter) {r : Ref .array} (scope : Value)
    (hs : (w.arrays.get r).shape ≠ []) : w.Reads (w.after (viewOf p r scope)) := by
  intro h
  obtain ⟨q, w', hw, hsound, hext, hbuf, -⟩ := viewOf_spec h p scope hs
  rw [after_of_ok hw]
  exact ⟨hsound, hext, hbuf⟩

theorem reads_present (p : Ref .presenter) (v scope : Value) : Keeps Reads (present p v scope) :=
  keeps_present (fun _ _ hs => reads_viewOf p scope hs) v

theorem present_array_eq {w : World} {r : Ref .array} (hs : (w.arrays.get r).shape ≠ [])
    (p : Ref .presenter) (scope : Value) : present p (.array r) scope w =
      (viewOf p r scope >>= fun q => (pure (.view q) : Action Value)) w := by
  have hne : ¬ (w.arrays.get r).shape.isEmpty = true := by simpa using hs
  rw [present, get_bind_apply, presentFrom]
  simp only [Value.opened, Value.content]
  rw [get_bind_apply, if_neg hne]

theorem present_array {w : World} (h : w.Sound) (p : Ref .presenter) {r : Ref .array}
    (scope : Value) (hs : (w.arrays.get r).shape ≠ []) :
    ∃ q w', present p (.array r) scope w = .ok (.view q) w' ∧ w'.Sound ∧ w.Extends w' ∧
      w'.buffers = w.buffers ∧ w'.views.Has q ∧ (w'.views.get q).array = r := by
  obtain ⟨q, w', hw, hrest⟩ := viewOf_spec h p scope hs
  refine ⟨q, w', ?_, hrest⟩
  rw [present_array_eq hs, bind_apply_of_ok _ hw]
  rfl

end Presenter

namespace World

def onlyCell? (w : World) (v : Value) : Option Value :=
  match v.opened.content with
  | .array r => if (w.arrays.get r).shape.isEmpty then some (w.cell (w.arrays.get r) 0) else none
  | _ => none

/-- A value stands for another one if it is an array without axes, and that comes to an end. -/
def Presentable (w : World) (v : Value) : Prop := ∃ n, Ends w.onlyCell? n v

theorem onlyCell?_of_array {w : World} {v : Value} {r : Ref .array} (hc : v.opened.content = .array r)
    (hs : (w.arrays.get r).shape = []) : w.onlyCell? v = some (w.cell (w.arrays.get r) 0) := by
  simp only [onlyCell?]
  rw [hc]
  dsimp only
  rw [hs, List.isEmpty_nil, if_pos rfl]

theorem array_of_onlyCell? {w : World} {v x : Value} (h : w.onlyCell? v = some x) :
    ∃ r, v.opened.content = .array r ∧ (w.arrays.get r).shape = [] ∧
      x = w.cell (w.arrays.get r) 0 := by
  simp only [onlyCell?] at h
  split at h
  · rename_i r hc
    split at h
    · rename_i hs
      cases h
      exact ⟨r, hc, by simpa using hs, rfl⟩
    · cases h
  · cases h

/-- There are only so many arrays; all those that there are not are alike. -/
theorem steps_le_of_imp {w : World} {next : Value → Option Value} {n : Nat} {v : Value}
    (hnext : ∀ a b, next a = some b → w.onlyCell? a = some b) (h : Ends next n v) :
    n ≤ w.arrays.size + 1 := by
  let index : Value → Nat := fun v => match v.opened.content with
    | .array r => min r.index w.arrays.size
    | _ => 0
  have hindex : ∀ v r, v.opened.content = .array r → index v = min r.index w.arrays.size := by
    intro v r hc
    simp only [index, hc]
  refine h.le_of_index index ?_ ?_
  · intro b c hb
    obtain ⟨r, hr, -⟩ := array_of_onlyCell? (hnext b c hb)
    rw [hindex b r hr]
    omega
  · intro b b' c c' hb hb' heq
    obtain ⟨r, hr, -, rfl⟩ := array_of_onlyCell? (hnext b c hb)
    obtain ⟨r', hr', -, rfl⟩ := array_of_onlyCell? (hnext b' c' hb')
    rw [hindex b r hr, hindex b' r' hr'] at heq
    have hsame : w.arrays.get r = w.arrays.get r' := by
      by_cases hlt : w.arrays.Has r ∧ w.arrays.Has r'
      · have h1 : r.index < w.arrays.size := hlt.1
        have h2 : r'.index < w.arrays.size := hlt.2
        have hidx : r.index = r'.index := by omega
        exact congrArg (fun i => w.arrays.get ⟨i⟩) hidx
      · have hno : ¬ w.arrays.Has r ∧ ¬ w.arrays.Has r' := by
          have hdef : ∀ s : Ref .array, w.arrays.Has s ↔ s.index < w.arrays.size := fun _ => Iff.rfl
          rw [hdef, hdef] at hlt ⊢
          omega
        rw [Store.get_of_not_has _ hno.1, Store.get_of_not_has _ hno.2]
    rw [hsame]

theorem steps_le_of_onlyCell? {w : World} {n : Nat} {v : Value} (h : Ends w.onlyCell? n v) :
    n ≤ w.arrays.size + 1 := steps_le_of_imp (fun _ _ => id) h

end World

namespace Presenter

theorem succeeds_keep (v : Value) (w : World) : Succeeds (keep v) w := by
  obtain ⟨x, n, hx, -⟩ := keep_eq v w
  exact ⟨x, _, hx⟩

theorem presentFrom_of_some {w : World} {v c : Value} (hc : w.onlyCell? v = some c) (p : Ref .presenter)
    (scope : Value) (fuel : Nat) :
    presentFrom p scope (fuel + 1) v w = presentFrom p scope fuel c w := by
  obtain ⟨r, hr, hs, rfl⟩ := array_of_onlyCell? hc
  rw [presentFrom]
  dsimp only
  rw [hr]
  simp only [get_bind_apply, hs, List.isEmpty_nil, if_true]

theorem succeeds_presentFrom {w : World} (h : w.Sound) (p : Ref .presenter) (scope : Value) {n : Nat}
    {v : Value} (he : Ends w.onlyCell? n v) {fuel : Nat} (hf : n < fuel) :
    Succeeds (presentFrom p scope fuel v) w := by
  induction he generalizing fuel with
  | @here v hnone =>
    obtain ⟨fuel, rfl⟩ : ∃ k, fuel = k + 1 := Nat.exists_eq_succ_of_ne_zero (by omega)
    rw [presentFrom]
    dsimp only
    split
    · exact succeeds_pure _ _
    · rename_i r hr
      rw [Succeeds, get_bind_apply]
      by_cases hs : (w.arrays.get r).shape = []
      · rw [onlyCell?_of_array hr hs] at hnone
        cases hnone
      · obtain ⟨q, w', hw, -⟩ := viewOf_spec h p scope hs
        have hne : ¬ (w.arrays.get r).shape.isEmpty = true := by simpa using hs
        simp only [if_neg hne]
        exact succeeds_bind hw (succeeds_pure _ _)
    · exact succeeds_keep _ w
    · exact succeeds_keep _ w
    · exact succeeds_keep _ w
    · exact succeeds_keep _ w
    · exact succeeds_keep _ w
    · exact succeeds_pure _ _
    · exact succeeds_pure _ _
    · obtain ⟨y, n, hy, -⟩ := keep_eq v.opened w
      rw [newBox, bind_assoc]
      exact succeeds_bind hy ⟨_, _, rfl⟩
  | there hsome _ ih =>
    obtain ⟨fuel, rfl⟩ : ∃ k, fuel = k + 1 := Nat.exists_eq_succ_of_ne_zero (by omega)
    rw [Succeeds, presentFrom_of_some hsome]
    exact ih (by omega)

theorem succeeds_present {w : World} (h : w.Sound) (p : Ref .presenter) (scope : Value) {v : Value}
    (hv : w.Presentable v) : Succeeds (present p v scope) w := by
  obtain ⟨n, hn⟩ := hv
  rw [Succeeds, present, get_bind_apply]
  exact succeeds_presentFrom h p scope hn (Nat.lt_succ_of_le (steps_le_of_onlyCell? hn))

end Presenter

end ScriptedArrays
