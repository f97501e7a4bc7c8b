import ScriptedArrays.Proofs.Reuse

/-! Known views. What a presenter that reuses views hands out for an array is what a new view of it
would be, except for two things: the scope, which is that of the view that is known, and the
prototype, which may have been found already. -/

namespace ScriptedArrays

open World

namespace World

structure IsOf (w : World) (p : Ref .presenter) (r : Ref .view) : Prop where
  presenter : (w.views.get r).presenter = p
  truncates : (w.views.get r).truncates = (w.presenters.get p).truncates
  exposed : (w.views.get r).exposed = (w.presenters.get p).exposed
  counted : (w.views.get r).counted = false

/-- Presenters know no other views than those that they have made. -/
def KnowsOwn (w : World) : Prop :=
  ∀ p known, (w.presenters.get p).known = some known → ∀ e ∈ known, w.IsOf p e.2

section

variable {w w' : World} {p : Ref .presenter} {a : Ref .array} {r : Ref .view} {scope : Value}

theorem IsOf.of_extends (h : w.IsOf p r) (he : w.Extends w') (hr : w.views.Has r)
    (ht : (w'.presenters.get p).truncates = (w.presenters.get p).truncates)
    (hx : (w'.presenters.get p).exposed = (w.presenters.get p).exposed) : w'.IsOf p r := by
  have hview := he.view r hr
  refine ⟨?_, ?_, ?_, ?_⟩
  · rw [hview]
    exact h.presenter
  · rw [hview, ht]
    exact h.truncates
  · rw [hview, hx]
    exact h.exposed
  · rw [hview]
    exact h.counted

theorem KnowsOwn.of_extends (h : w.KnowsOwn) (hw : w.Sound) (he : w.Extends w')
    (hp : w'.presenters = w.presenters) : w'.KnowsOwn := by
  intro p known hknown e hmem
  rw [hp] at hknown
  exact (h p known hknown e hmem).of_extends he (hw.known p known hknown e hmem) (by rw [hp]) (by rw [hp])

theorem KnowsOwn.newPresenter (h : w.KnowsOwn) (s : Settings) :
    (w.after (ScriptedArrays.newPresenter s)).KnowsOwn := by
  intro p known hknown e hmem
  by_cases hp : p = w.presenters.next
  · subst hp
    have hnext : ((w.after (ScriptedArrays.newPresenter s)).presenters.get w.presenters.next).known =
        if s.reusesViews then some [] else none :=
      congrArg Presenter.known (Store.get_push_next _ _)
    rw [hnext] at hknown
    split at hknown
    · cases hknown
      cases hmem
    · cases hknown
  · have hsame : (w.after (ScriptedArrays.newPresenter s)).presenters.get p = w.presenters.get p :=
      Store.get_push_of_ne _ _ hp
    rw [hsame] at hknown
    obtain ⟨hpresenter, htruncates, hexposed, hcounted⟩ := h p known hknown e hmem
    exact ⟨hpresenter, htruncates.trans (by rw [hsame]), hexposed.trans (by rw [hsame]), hcounted⟩

theorem isOf_freshView (hp : (w'.presenters.get p).truncates = (w.presenters.get p).truncates)
    (hx : (w'.presenters.get p).exposed = (w.presenters.get p).exposed)
    (hr : w'.views.get r = w.freshView p a scope) : w'.IsOf p r := by
  refine ⟨?_, ?_, ?_, ?_⟩ <;> rw [hr]
  · rfl
  · exact hp.symm
  · exact hx.symm
  · rfl

theorem KnowsOwn.handOut (h : w.KnowsOwn) (hw : w.Sound) (p : Ref .presenter) (scope : Value)
    (hs : (w.arrays.get a).shape ≠ []) : (w.after (Presenter.viewOf p a scope)).KnowsOwn := by
  have hext := (Presenter.reads_viewOf p scope hs hw).2.1
  rcases Presenter.viewOf_cases w p scope hs with
    ⟨known, r, -, -, hview⟩ | ⟨l, ps, hview, ⟨-, rfl⟩ | ⟨known, hknown, -, rfl⟩⟩
  · rw [after_of_ok hview] at hext ⊢
    exact h.of_extends hw hext rfl
  · rw [after_of_ok hview] at hext ⊢
    exact h.of_extends hw hext rfl
  · rw [after_of_ok hview] at hext ⊢
    intro p' known' hknown' e hmem
    have hset : ∀ q, ((w.presenters.set p { w.presenters.get p with
        known := some ((w.address a, w.views.next) :: known) }).get q).truncates =
          (w.presenters.get q).truncates ∧ ((w.presenters.set p { w.presenters.get p with
        known := some ((w.address a, w.views.next) :: known) }).get q).exposed =
          (w.presenters.get q).exposed := by
      intro q
      rw [Store.get_set]
      split
      · rename_i hq
        rw [hq.1]
        exact ⟨rfl, rfl⟩
      · exact ⟨rfl, rfl⟩
    have hold : ∀ known', (w.presenters.get p').known = some known' → e ∈ known' →
        World.IsOf _ p' e.2 := fun known' hknown hmem =>
      (h p' known' hknown e hmem).of_extends hext (hw.known p' known' hknown e hmem)
        (hset p').1 (hset p').2
    dsimp only at hknown'
    rw [Store.get_set] at hknown'
    split at hknown'
    · rename_i hp
      obtain rfl := hp.1
      cases hknown'
      rcases List.mem_cons.mp hmem with rfl | hmem
      · exact isOf_freshView (hset p').1 (hset p').2 (Store.get_push_next _ _)
      · exact hold known hknown hmem
    · exact hold known' hknown' hmem

theorem KnowsOwn.moves (h : w.KnowsOwn) (hw : w.Sound) (hmoves : w.Moves w') : w'.KnowsOwn := by
  induction hmoves with
  | refl w => exact h
  | trans first _ ih ih' => exact ih' (ih h hw) (first.leads hw).1
  | other hleads hs => exact h.of_extends hw (hleads hw).2 hs.presenters
  | place w address _ =>
    have hplaced : w.Leads { w with address } := leads_of_eq rfl rfl rfl rfl
    exact h.of_extends hw (hplaced hw).2 rfl
  | newPresenter w s => exact h.newPresenter s
  | newView w scope b p truncates counted =>
    exact h.of_extends hw (leads_of_reads (reads_newView scope b p truncates counted) w hw).2
      (spares_presenters_newView w scope b p truncates counted).1
  | handOut w p b scope _ hs => exact h.handOut hw p scope hs
  | findPrototype w q _ =>
    exact h.of_extends hw (View.leads_findPrototype q w hw).2 (spares_presenters_findPrototype w q).1

theorem knowsOwn_of_moves (h : World.empty.Moves w) : w.KnowsOwn := by
  refine KnowsOwn.moves (fun p known hknown => ?_) sound_empty h
  rw [Store.get_of_not_has _ (Nat.not_lt_zero _)] at hknown
  cases hknown

theorem view_of_known? (h : World.empty.Moves w) {known : List (Nat × Ref .view)}
    (hknown : (w.presenters.get p).known = some known) (hr : Presenter.known? w known a = some r)
    (scope : Value) : w.views.get r = { w.freshView p a scope with
      scope := (w.views.get r).scope, prototype := (w.views.get r).prototype } := by
  have hw : w.Sound := (h.leads sound_empty).1
  obtain ⟨⟨l, hmem⟩, -, harray⟩ := Presenter.known?_eq_some hr
  have hhas := hw.known p known hknown _ hmem
  obtain ⟨hpresenter, htruncates, hexposed, hcounted⟩ := knowsOwn_of_moves h p known hknown _ hmem
  have hlength := hw.length r hhas
  have hslot := hw.slot r hhas
  dsimp only at hpresenter htruncates hexposed hcounted
  rw [harray] at hlength hslot
  generalize w.views.get r = view at *
  cases view
  simp_all [freshView]

/-- The prototype that views get from a scope where the constructor of arrays, if there is one, is a
record or a function. -/
inductive Provides (w : World) : (scope prototype : Value) → Prop
  | unscoped : Provides w .null .null
  | bare {t : Ref .scope} (h : w.constructor? t = .ok .null) : Provides w (.scope t) .null
  | record {t : Ref .scope} {c : Ref .record} (h : w.constructor? t = .ok (.record c)) :
      Provides w (.scope t) (w.prototypeOf (.record c))
  | function {t : Ref .scope} {f : Ref .function} (h : w.constructor? t = .ok (.function f)) :
      Provides w (.scope t) (w.prototypeOf (.function f))

theorem Provides.of_eq {x : Value} (h : w.Provides scope x) (hs : w'.scopes = w.scopes)
    (hr : w'.records = w.records) (hf : w'.functions = w.functions) : w'.Provides scope x := by
  have hconstructor : ∀ t, w'.constructor? t = w.constructor? t :=
    constructor?_congr hs fun _ => by rw [hr]
  cases h with
  | unscoped => exact .unscoped
  | bare h => exact .bare ((hconstructor _).trans h)
  | @record t c h =>
    have hprototype : w'.prototypeOf (.record c) = w.prototypeOf (.record c) := by
      rw [prototypeOf, prototypeOf, hr]
    exact hprototype ▸ .record ((hconstructor t).trans h)
  | @function t f h =>
    have hprototype : w'.prototypeOf (.function f) = w.prototypeOf (.function f) := by
      simp only [prototypeOf, World.member?, Value.content, hf]
    exact hprototype ▸ .function ((hconstructor t).trans h)

theorem Provides.resolved? {x : Value} (h : w.Provides (w.views.get r).scope x)
    (hp : (w.views.get r).prototype = none) : w.resolved? r = .ok x := by
  rw [World.resolved?, hp]
  generalize (w.views.get r).scope = scope at h
  cases h with
  | unscoped => rfl
  | bare h | record h | function h =>
    dsimp only
    rw [prototypeAt, h]
    rfl

theorem Provides.resolved?_made {x : Value} (h : w.Provides scope x) {log : Array Event}
    {presenters : Store .presenter Presenter} : World.resolved? { w with
      views := w.views.push (w.freshView p a scope)
      handed := w.handed ++ [w.views.next], log, presenters } w.views.next = .ok x := by
  have hmade := Store.get_push_next w.views (w.freshView p a scope)
  refine Provides.resolved? ?_ ?_
  · dsimp only
    rw [hmade]
    exact h.of_eq rfl rfl rfl
  · dsimp only
    rw [hmade]
    rfl

def forgetting (w : World) (p : Ref .presenter) : World :=
  { w with presenters := w.presenters.set p { w.presenters.get p with known := none } }

end

end World

namespace Presenter

/-- What a presenter hands out of an array for a scope: a view `r` if it reuses views, where it
would make a view `q` if it did not. -/
structure StandsIn (w : World) (p : Ref .presenter) (a : Ref .array) (scope : Value)
    (r : Ref .view) (v : World) (q : Ref .view) (u : World) : Prop where
  /-- The view that would be made is a new one for the scope. -/
  made : ¬ w.views.Has q ∧ u.views.get q = w.freshView p a scope
  /-- A view that is handed out again stays as it is. -/
  kept : w.views.Has r → v = w.handing r
  /-- A view that is made is the one that would be made without reuse. -/
  new : ¬ w.views.Has r → r = q ∧ v.views = u.views
  /-- In either case only the scope and the prototype may differ. -/
  alike : v.views.get r = { u.views.get q with
    scope := (v.views.get r).scope, prototype := (v.views.get r).prototype }
  /-- A view that is made has the prototype that its scope provides. -/
  resolved : ∀ x, w.Provides scope x →
    u.resolved? q = .ok x ∧ (¬ w.views.Has r → v.resolved? r = .ok x)

/-- For an array with an axis a presenter hands out what stands in for a new view. -/
theorem present_standsIn {w : World} (h : World.empty.Moves w) (p : Ref .presenter) {a : Ref .array}
    (hs : (w.arrays.get a).shape ≠ []) (scope : Value) : ∃ r v q u,
      present p (.array a) scope w = .ok (.view r) v ∧
      present p (.array a) scope (w.forgetting p) = .ok (.view q) u ∧
      StandsIn w p a scope r v q u := by
  have hs' : ((w.forgetting p).arrays.get a).shape ≠ [] := hs
  have hforgets : ((w.forgetting p).presenters.get p).known = none := by
    by_cases hp : w.presenters.Has p
    · exact congrArg Presenter.known (Store.get_set_self _ _ hp)
    · have hno : ¬ (w.forgetting p).presenters.Has p := fun h => hp ((Store.has_set _ _ _ _).mp h)
      rw [Store.get_of_not_has _ hno]
      rfl
  have hfresh : (w.forgetting p).freshView p a scope = w.freshView p a scope := by
    have hset := Store.get_set w.presenters { w.presenters.get p with known := none } p p
    simp only [freshView, forgetting, hset]
    split <;> rfl
  have hpresent : ∀ {w : World}, (w.arrays.get a).shape ≠ [] → ∀ {r v},
      viewOf p a scope w = .ok r v → present p (.array a) scope w = .ok (.view r) v := by
    intro w hs r v hr
    rw [present_array_eq hs, bind_apply_of_ok _ hr]
    rfl
  rcases viewOf_cases (w.forgetting p) p scope hs' with
    ⟨known, r, hknown, -⟩ | ⟨l, ps, hu, -⟩
  · rw [hforgets] at hknown
    cases hknown
  · rw [hfresh] at hu
    have hnew : ¬ w.views.Has w.views.next := fun hhas => w.views.ne_next_of_has hhas rfl
    have hmade := Store.get_push_next w.views (w.freshView p a scope)
    rcases viewOf_cases w p scope hs with ⟨known, r, hknown, hr, hv⟩ | ⟨l', ps', hv, -⟩
    · obtain ⟨⟨l, hmem⟩, -⟩ := known?_eq_some hr
      have hhas := (h.leads sound_empty).1.known p known hknown _ hmem
      refine ⟨r, _, _, _, hpresent hs hv, hpresent hs' hu, ⟨hnew, hmade⟩, fun _ => rfl,
        fun hno => absurd hhas hno, ?_, fun x hx => ⟨hx.resolved?_made, absurd hhas⟩⟩
      exact (view_of_known? h hknown hr scope).trans (congrArg (fun view : View =>
        { view with scope := (w.views.get r).scope, prototype := (w.views.get r).prototype }) hmade.symm)
    · refine ⟨_, _, _, _, hpresent hs hv, hpresent hs' hu, ⟨hnew, hmade⟩, fun hhas => absurd hhas hnew,
        fun _ => ⟨rfl, rfl⟩, rfl, fun x hx => ⟨hx.resolved?_made, fun _ => hx.resolved?_made⟩⟩

end Presenter

end ScriptedArrays
