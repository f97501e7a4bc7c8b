import ScriptedArrays.Proofs.Execution
import ScriptedArrays.Proofs.Holders

/-! Reuse of views. A presenter that reuses views knows them by the places of their arrays. Places
are taken by other arrays once an array is given up, but as long as a view is kept its array is kept
too and has its place to itself, so that the array is given this view again and no other array is
given it. -/

namespace ScriptedArrays

open World

namespace World

/-- No other array that is kept lies where the array lies. -/
def IsApart (w : World) (b : Ref .array) : Prop :=
  ∀ a, w.isKept (.array a) = true → w.address a = w.address b → a = b

/-- Moves on which the presenter hands out views only while a view is kept, and only of arrays that
have their place to themselves. -/
abbrev MovesKeeping (p : Ref .presenter) (r : Ref .view) : World → World → Prop :=
  MovesIf (fun w p' b => p' = p → w.isKept (.view r) = true ∧ w.IsApart b) fun _ => True

structure Knows (w : World) (p : Ref .presenter) (a : Ref .array) (r : Ref .view) : Prop where
  hasArray : w.arrays.Has a
  hasView : w.views.Has r
  shows : (w.views.get r).array = a
  /-- What the presenter knows last of the place of the array is the view. -/
  entry : ∃ known, (w.presenters.get p).known = some known ∧
    known.find? (·.1 == w.address a) = some (w.address a, r)

section

variable {w w' : World} {p : Ref .presenter} {a b : Ref .array} {r : Ref .view}

theorem has_of_known {known : List (Nat × Ref .view)} (h : (w.presenters.get p).known = some known) :
    w.presenters.Has p := by
  by_contra hno
  rw [Store.get_of_not_has _ hno] at h
  cases h

theorem spares_presenters_newView (w : World) (scope : Value) (b : Ref .array) (p : Ref .presenter)
    (truncates : Option Bool) (counted : Bool) :
    (w.after (newView scope b p truncates counted)).presenters = w.presenters ∧
      (w.after (newView scope b p truncates counted)).address = w.address := by
  by_cases hs : (w.arrays.get b).shape = []
  · rw [after_of_error (newView_of_plain scope p truncates counted hs)]
    exact ⟨rfl, rfl⟩
  · obtain ⟨view, l, hw, -⟩ := newView_eq w scope p truncates counted hs
    rw [after_of_ok hw]
    exact ⟨rfl, rfl⟩

theorem spares_presenters_findPrototype (w : World) (q : Ref .view) :
    (w.after (View.findPrototype q)).presenters = w.presenters ∧
      (w.after (View.findPrototype q)).address = w.address := by
  obtain ⟨l, hl⟩ := View.findPrototype_eq q w
  cases hr : w.resolved? q with
  | ok p =>
    rw [hr] at hl
    rw [after_of_ok hl]
    exact ⟨rfl, rfl⟩
  | error f =>
    rw [hr] at hl
    rw [after_of_error hl]
    exact ⟨rfl, rfl⟩

theorem presenter_newPresenter (hp : w.presenters.Has p) (s : Settings) :
    (w.after (newPresenter s)).presenters.get p = w.presenters.get p :=
  Store.get_push_of_ne _ _ (w.presenters.ne_next_of_has hp)

/-- Whether a presenter reuses views never changes. -/
theorem MovesIf.reuses {may : World → Ref .presenter → Ref .array → Prop} {asks : Ref .view → Prop}
    (h : MovesIf may asks w w') (hp : w.presenters.Has p) : w'.presenters.Has p ∧
      (w'.presenters.get p).known.isSome = (w.presenters.get p).known.isSome := by
  induction h with
  | refl w => exact ⟨hp, rfl⟩
  | trans _ _ ih ih' =>
    obtain ⟨hp', heq⟩ := ih hp
    obtain ⟨hp'', heq'⟩ := ih' hp'
    exact ⟨hp'', heq'.trans heq⟩
  | other _ hs =>
    rw [hs.presenters]
    exact ⟨hp, rfl⟩
  | place w address _ => exact ⟨hp, rfl⟩
  | newPresenter w s =>
    rw [presenter_newPresenter hp]
    exact ⟨Store.has_push_of_has _ _ hp, rfl⟩
  | newView w scope b p' truncates counted =>
    rw [(spares_presenters_newView w scope b p' truncates counted).1]
    exact ⟨hp, rfl⟩
  | handOut w p' b scope _ hs =>
    rcases Presenter.viewOf_cases w p' scope hs with
      ⟨known, q, -, -, hw⟩ | ⟨l, ps, hw, ⟨-, rfl⟩ | ⟨known, hknown, -, rfl⟩⟩
    · rw [after_of_ok hw]
      exact ⟨hp, rfl⟩
    · rw [after_of_ok hw]
      exact ⟨hp, rfl⟩
    · rw [after_of_ok hw]
      refine ⟨(Store.has_set _ _ _ _).mpr hp, ?_⟩
      dsimp only
      by_cases hsame : p = p'
      · rw [hsame, Store.get_set_self _ _ (has_of_known hknown), hknown]
        rfl
      · rw [Store.get_set_of_ne _ _ hsame]
  | findPrototype w q _ =>
    rw [(spares_presenters_findPrototype w q).1]
    exact ⟨hp, rfl⟩

theorem Knows.of_extends (h : w.Knows p a r) (he : w.Extends w') (ha : w'.address a = w.address a)
    (hp : (w'.presenters.get p).known = (w.presenters.get p).known) : w'.Knows p a r where
  hasArray := he.hasArray a h.hasArray
  hasView := he.hasView r h.hasView
  shows := by
    rw [he.view r h.hasView]
    exact h.shows
  entry := by
    rw [hp, ha]
    exact h.entry

theorem Knows.known?_eq (h : w.Knows p a r) (hr : w.isKept (.view r) = true) :
    ∃ known, (w.presenters.get p).known = some known ∧
      Presenter.known? w known a = some r := by
  obtain ⟨known, hknown, hfind⟩ := h.entry
  refine ⟨known, hknown, ?_⟩
  rw [Presenter.known?, hfind]
  dsimp only
  rw [hr, h.shows]
  simp

theorem Knows.viewOf_eq (h : w.Knows p a r) (hr : w.isKept (.view r) = true) (scope : Value) :
    Presenter.viewOf p a scope w = .ok r (w.handing r) := by
  obtain ⟨known, hknown, hfound⟩ := h.known?_eq hr
  rw [Presenter.viewOf, get_bind_apply, hknown]
  dsimp only
  rw [hfound]
  rfl

/-- What else is handed out goes to other places, because the array of the view is kept with it. -/
theorem Knows.handOut (h : w.Knows p a r) (hw : w.Sound) {p' : Ref .presenter} (scope : Value)
    (hmay : p' = p → w.isKept (.view r) = true ∧ w.IsApart b)
    (hs : (w.arrays.get b).shape ≠ []) : (w.after (Presenter.viewOf p' b scope)).Knows p a r := by
  have hext : w.Extends (w.after (Presenter.viewOf p' b scope)) :=
    (Presenter.reads_viewOf p' scope hs hw).2.1
  by_cases hp : p' = p
  · subst hp
    obtain ⟨hr, hapart⟩ := hmay rfl
    by_cases hb : b = a
    · subst hb
      rw [after_of_ok (h.viewOf_eq hr scope)] at hext ⊢
      exact h.of_extends hext rfl rfl
    · have hplace : w.address b ≠ w.address a := by
        intro heq
        have harray : w.isKept (.array a) = true := h.shows ▸ isKept_array h.hasView hr
        exact hb (hapart a harray heq.symm).symm
      rcases Presenter.viewOf_cases w p' scope hs with
        ⟨known, q, -, -, hview⟩ | ⟨l, ps, hview, ⟨-, rfl⟩ | ⟨known, hknown, -, rfl⟩⟩
      · rw [after_of_ok hview] at hext ⊢
        exact h.of_extends hext rfl rfl
      · rw [after_of_ok hview] at hext ⊢
        exact h.of_extends hext rfl rfl
      · rw [after_of_ok hview] at hext ⊢
        obtain ⟨known', hknown', hfind⟩ := h.entry
        cases hknown.symm.trans hknown'
        refine ⟨hext.hasArray a h.hasArray, hext.hasView r h.hasView, ?_,
          (w.address b, w.views.next) :: known, ?_, ?_⟩
        · rw [hext.view r h.hasView]
          exact h.shows
        · dsimp only
          rw [Store.get_set_self _ _ (has_of_known hknown)]
        · rw [List.find?_cons_of_neg (by simpa using hplace)]
          exact hfind
  · rcases Presenter.viewOf_cases w p' scope hs with
      ⟨known, q, -, -, hview⟩ | ⟨l, ps, hview, ⟨-, rfl⟩ | ⟨known, -, -, rfl⟩⟩
    · rw [after_of_ok hview] at hext ⊢
      exact h.of_extends hext rfl rfl
    · rw [after_of_ok hview] at hext ⊢
      exact h.of_extends hext rfl rfl
    · rw [after_of_ok hview] at hext ⊢
      refine h.of_extends hext rfl ?_
      dsimp only
      rw [Store.get_set_of_ne _ _ (Ne.symm hp)]

/-- As long as a view is kept it stays known. -/
theorem Knows.moves (h : w.Knows p a r) (hw : w.Sound) (hmoves : w.MovesKeeping p r w') :
    w'.Knows p a r := by
  induction hmoves with
  | refl w => exact h
  | trans first _ ih ih' => exact ih' (ih h hw) (first.leads hw).1
  | other hleads hs =>
    refine h.of_extends (hleads hw).2 ?_ ?_
    · rw [hs.address]
    · rw [hs.presenters]
  | place w address haddress =>
    have hplaced : w.Leads { w with address } := leads_of_eq rfl rfl rfl rfl
    exact h.of_extends (hplaced hw).2 (haddress a h.hasArray) rfl
  | newPresenter w s =>
    obtain ⟨known, hknown, -⟩ := h.entry
    refine h.of_extends (leads_newPresenter s w hw).2 rfl ?_
    rw [presenter_newPresenter (has_of_known hknown)]
  | newView w scope b p' truncates counted =>
    obtain ⟨hp, haddress⟩ := spares_presenters_newView w scope b p' truncates counted
    have hext := (leads_of_reads (reads_newView scope b p' truncates counted) w hw).2
    exact h.of_extends hext (by rw [haddress]) (by rw [hp])
  | handOut w p' b scope hmay hs => exact h.handOut hw scope hmay hs
  | findPrototype w q _ =>
    obtain ⟨hp, haddress⟩ := spares_presenters_findPrototype w q
    exact h.of_extends (View.leads_findPrototype q w hw).2 (by rw [haddress]) (by rw [hp])

end

end World

namespace Presenter

variable {w w' : World} {p : Ref .presenter} {a : Ref .array} {r : Ref .view}

/-- What a presenter that reuses views hands out it knows. -/
theorem knows_of_viewOf (h : w.Sound) (hon : (w.presenters.get p).known.isSome = true)
    (hs : (w.arrays.get a).shape ≠ []) {scope : Value} {u : World}
    (hr : viewOf p a scope w = .ok r u) : u.Knows p a r := by
  obtain ⟨q, v, hview, hsound, hext, -, hhas, hshows⟩ := viewOf_spec h p scope hs
  cases hr.symm.trans hview
  refine ⟨hext.hasArray a (has_of_shape hs), hhas, hshows, ?_⟩
  rcases viewOf_cases w p scope hs with
    ⟨known, q, hknown, hfound, hq⟩ | ⟨l, ps, hq, ⟨hoff, -⟩ | ⟨known, hknown, -, rfl⟩⟩
  · cases hview.symm.trans hq
    refine ⟨known, hknown, ?_⟩
    simp only [known?] at hfound
    split at hfound
    · rename_i place q' hfind
      split at hfound
      · cases hfound
        have hplace : place = w.address a := by simpa using List.find?_some hfind
        exact hplace ▸ hfind
      · cases hfound
    · cases hfound
  · rw [hoff] at hon
    cases hon
  · cases hview.symm.trans hq
    refine ⟨(w.address a, w.views.next) :: known, ?_, ?_⟩
    · dsimp only
      rw [Store.get_set_self _ _ (has_of_known hknown)]
    · rw [List.find?_cons_of_pos (by simp)]

structure Reuses (s : Settings) (p : Ref .presenter) (a : Ref .array) (r : Ref .view) (w u : World) :
    Prop where
  /-- It is a view of this very array and remains one. -/
  shows : ∀ {w'}, u.Moves w' → w'.views.Has r ∧ (w'.views.get r).array = a
  /-- As long as it is kept, the presenter hands it out again for the array, in whatever scope. -/
  again : s.reusesViews = true → ∀ {w'}, u.MovesKeeping p r w' → w'.isKept (.view r) = true →
    ∀ scope, present p (.array a) scope w' = .ok (.view r) (w'.handing r)
  /-- No other array is ever given it, from whatever presenter. -/
  apart : ∀ {w' u' : World} {p' : Ref .presenter} {b : Ref .array} {scope : Value}, u.Moves w' →
    (w'.arrays.get b).shape ≠ [] → present p' (.array b) scope w' = .ok (.view r) u' → b = a
  /-- If views are not reused it is a new one. -/
  fresh : s.reusesViews = false → ¬ w.views.Has r

/-- A presenter has a view for every array, and reuses it as its settings say. -/
theorem present_reuses {w₀ w : World} (h₀ : World.empty.Moves w₀) (s : Settings)
    (h : (w₀.after (newPresenter s)).Moves w) {a : Ref .array} (hs : (w.arrays.get a).shape ≠ [])
    (scope : Value) : ∃ r u, present w₀.presenters.next (.array a) scope w = .ok (.view r) u ∧
      Reuses s w₀.presenters.next a r w u := by
  have hmade : World.empty.Moves (w₀.after (newPresenter s)) := .trans h₀ (.newPresenter w₀ s)
  have hw : w.Sound := ((MovesIf.trans hmade h).leads sound_empty).1
  obtain ⟨r, u, hview, hu, hext, -, hr, hshows⟩ := viewOf_spec hw w₀.presenters.next scope hs
  have hmode : (w.presenters.get w₀.presenters.next).known.isSome = s.reusesViews := by
    rw [(h.reuses (Store.has_push_next _ _)).2]
    show ((w₀.presenters.push _).get w₀.presenters.next).known.isSome = _
    rw [Store.get_push_next]
    cases s.reusesViews <;> rfl
  have hstays : ∀ {w'}, u.Moves w' → w'.Sound ∧ w'.views.Has r ∧ (w'.views.get r).array = a := by
    intro w' hmoves
    obtain ⟨hw', hext⟩ := hmoves.leads hu
    refine ⟨hw', hext.hasView r hr, ?_⟩
    rw [hext.view r hr]
    exact hshows
  refine ⟨r, u, by rw [present_array_eq hs, bind_apply_of_ok _ hview]; rfl, ?_⟩
  refine ⟨fun hmoves => (hstays hmoves).2, ?_, ?_, ?_⟩
  · intro hon w' hmoves hkept scope'
    have hfirst := knows_of_viewOf hw (hmode.trans hon) hs hview
    have hknows := hfirst.moves hu hmoves
    have hs' : (w'.arrays.get a).shape ≠ [] := by
      rwa [(hmoves.leads hu).2.array a hfirst.hasArray, hext.array a (has_of_shape hs)]
    rw [present_array_eq hs', bind_apply_of_ok _ (hknows.viewOf_eq hkept scope')]
    rfl
  · intro w' u' p' b scope' hmoves hb hpresent
    obtain ⟨hw', hhas, harray⟩ := hstays hmoves
    obtain ⟨q, v, hq, -, hext, -, -, hqshows⟩ := viewOf_spec hw' p' scope' hb
    rw [present_array_eq hb, bind_apply_of_ok _ hq] at hpresent
    cases hpresent
    rw [hext.view r hhas] at hqshows
    exact hqshows.symm.trans harray
  · intro hoff
    have hnone : (w.presenters.get w₀.presenters.next).known = none := by
      rw [hoff] at hmode
      simpa using hmode
    rcases viewOf_cases w w₀.presenters.next scope hs with
      ⟨known, q, hknown, -, -⟩ | ⟨l, ps, hq, -⟩
    · rw [hnone] at hknown
      cases hknown
    · cases hview.symm.trans hq
      exact fun hhas => w.views.ne_next_of_has hhas rfl

end Presenter

def reusing : Settings := { Settings.standard with reusesViews := true }

def lodgings : World := (World.empty.after (newPresenter reusing)).afterAll [
  .buildArray (.native (.int true 1)) [2] [],
  .buildArray (.native (.int true 1)) [2] []]

def lodged : World :=
  { lodgings.after (Presenter.present ⟨0⟩ (.array ⟨1⟩) .null) with inUse := [.view ⟨0⟩] }

def vacated : World :=
  { lodged.after (Presenter.viewOf ⟨0⟩ ⟨2⟩ .null) with
    address := fun a : Ref .array => if a = ⟨3⟩ then 2 else a.index }

def relet : World := vacated.after (buildArray (.native (.int true 1)) [2] [])

theorem isApart_lodged : lodged.IsApart ⟨2⟩ := by
  intro a _ ha
  exact congrArg Ref.mk ha

theorem isApart_relet : relet.IsApart ⟨3⟩ := by
  intro a ha hplace
  by_contra hne
  have haddress : relet.address a = a.index := by
    show (if a = ⟨3⟩ then 2 else a.index) = a.index
    rw [if_neg hne]
  have hsecond : a = ⟨2⟩ := congrArg Ref.mk (haddress.symm.trans hplace)
  rw [hsecond] at ha
  revert ha
  decide +kernel

/-- From where the first array has its view to where the third one has one too, the presenter hands
out views only while the first one is kept. -/
theorem movesKeeping_relet : World.MovesKeeping ⟨0⟩ ⟨0⟩
    (lodgings.after (Presenter.present ⟨0⟩ (.array ⟨1⟩) .null))
    (relet.after (Presenter.viewOf ⟨0⟩ ⟨3⟩ .null)) := by
  have hproper : (CellType.native (.int true 1)).content.IsProper := by
    simp [CellType.native, Content.IsProper]
  refine .trans (v := lodged) (Tolerant.plain (plain_of_eq rfl rfl rfl rfl rfl rfl rfl rfl)) ?_
  refine .trans (.handOut lodged ⟨0⟩ ⟨2⟩ .null ?_ (by decide +kernel)) ?_
  · exact fun _ => ⟨by decide +kernel, isApart_lodged⟩
  refine .trans (v := vacated) (.place _ _ fun a ha => ?_) ?_
  · have hsize : (lodged.after (Presenter.viewOf ⟨0⟩ ⟨2⟩ .null)).arrays.items.size = 3 := by
      decide +kernel
    rw [Store.Has, hsize] at ha
    have hne : a ≠ ⟨3⟩ := by
      rintro rfl
      exact Nat.lt_irrefl _ ha
    exact if_neg hne
  refine .trans (v := relet) (.other (leads_buildArray hproper [2] [] _) (spares_buildArray _ _ _ _)) ?_
  refine .handOut relet ⟨0⟩ ⟨3⟩ .null ?_ (by decide +kernel)
  exact fun _ => ⟨by decide +kernel, isApart_relet⟩

/-- In the end there are three views, and the first array is given its view again. -/
theorem Presenter.present_reuses_beside_freed :
    (relet.after (viewOf ⟨0⟩ ⟨3⟩ .null)).views.size = 3 ∧
    present ⟨0⟩ (.array ⟨1⟩) (.scope ⟨0⟩) (relet.after (viewOf ⟨0⟩ ⟨3⟩ .null)) =
      .ok (.view ⟨0⟩) ((relet.after (viewOf ⟨0⟩ ⟨3⟩ .null)).handing ⟨0⟩) := by
  refine ⟨by decide +kernel, ?_⟩
  have hmoves : (World.empty.after (newPresenter reusing)).Moves lodgings := by
    refine moves_afterAll _ ?_
    simp [Operation.IsProper, CellType.native, Content.IsProper]
  obtain ⟨r, u, hpresent, hreuses⟩ := present_reuses (.refl _) reusing hmoves
    (a := ⟨1⟩) (by decide +kernel) .null
  have hr : lodgings.answer (present ⟨0⟩ (.array ⟨1⟩) .null) = .ok (.view ⟨0⟩) := by decide +kernel
  cases hr.symm.trans (answer_of_ok hpresent)
  refine hreuses.again rfl ?_ (by decide +kernel) (.scope ⟨0⟩)
  rw [← after_of_ok hpresent]
  exact movesKeeping_relet

end ScriptedArrays
