import ScriptedArrays.Proofs.Consistency
import ScriptedArrays.Proofs.Inheritance
import ScriptedArrays.Proofs.OuterScopes

/-! Resolution. A view takes its prototype from the arrays that the outermost scope around it binds
when the view is first asked for it. That is looked up once: what the lookup comes to is what the
view answers with from then on, and a lookup that fails leaves the view as it was. -/

open Relation

namespace ScriptedArrays

open World

namespace World

def requestsOf (w : World) (q : Ref .view) : List Request := w.requests.filter (·.view = q)

def completed (w : World) (q : Ref .view) : List Value := (w.requestsOf q).filterMap (·.answer)

structure Leaves (q : Ref .view) (w w' : World) : Prop where
  requests : w'.requestsOf q = w.requestsOf q
  has : w.views.Has q → w'.views.Has q ∧ w'.views.get q = w.views.get q
  /-- A view that is made has no prototype yet. -/
  fresh : ¬ w.views.Has q → (w'.views.get q).prototype = none

def AsksAtMost (q : Ref .view) (w w' : World) : Prop :=
  w.MovesBut q w' ∨ w' = w.after (View.findPrototype q)

section

variable {w w' : World} {q r : Ref .view}

instance : IsPreorder World (Leaves q) where
  refl w := ⟨rfl, fun h => ⟨h, rfl⟩, fun h => by rw [Store.get_of_not_has _ h]; rfl⟩
  trans u v w h h' := by
    refine ⟨h'.requests.trans h.requests, fun hu => ?_, fun hu => ?_⟩
    · obtain ⟨hv, heq⟩ := h.has hu
      obtain ⟨hw, heq'⟩ := h'.has hv
      exact ⟨hw, heq'.trans heq⟩
    · by_cases hv : v.views.Has q
      · rw [(h'.has hv).2]
        exact h.fresh hu
      · exact h'.fresh hv

theorem leaves_of_eq (hv : w'.views = w.views) (hr : w'.requests = w.requests) : w.Leaves q w' := by
  refine ⟨by rw [requestsOf, requestsOf, hr], fun h => by rw [hv]; exact ⟨h, rfl⟩, fun h => ?_⟩
  rw [hv, Store.get_of_not_has _ h]
  rfl

theorem leaves_of_push {view : View} (hv : w'.views = w.views.push view)
    (hp : view.prototype = none) (hr : w'.requests = w.requests) : w.Leaves q w' := by
  refine ⟨by rw [requestsOf, requestsOf, hr], fun h => ?_, fun h => ?_⟩
  · rw [hv, Store.get_push_of_ne _ _ (w.views.ne_next_of_has h)]
    exact ⟨Store.has_push_of_has _ _ h, rfl⟩
  · by_cases hq : q = w.views.next
    · rw [hv, hq, Store.get_push_next, hp]
    · rw [hv, Store.get_push_of_ne _ _ hq, Store.get_of_not_has _ h]
      rfl

theorem view_of_mem_asks {a : Request} (h : a ∈ View.asks w q) : a.view = q := by
  unfold View.asks at h
  split at h
  · cases h
  · split at h
    · rw [List.mem_singleton.mp h]
    · cases h
    · rw [List.mem_singleton.mp h]

theorem requests_findPrototype (w : World) (q : Ref .view) :
    (w.after (View.findPrototype q)).requests = w.requests ++ View.asks w q := by
  obtain ⟨l, hl⟩ := View.findPrototype_eq q w
  cases hr : w.resolved? q with
  | ok p =>
    rw [hr] at hl
    rw [after_of_ok hl]
  | error f =>
    rw [hr] at hl
    rw [after_of_error hl]

theorem requestsOf_findPrototype (w : World) (q : Ref .view) :
    (w.after (View.findPrototype q)).requestsOf q = w.requestsOf q ++ View.asks w q := by
  rw [requestsOf, requests_findPrototype, List.filter_append, requestsOf]
  congr 1
  exact List.filter_eq_self.mpr fun a ha => decide_eq_true (view_of_mem_asks ha)

theorem views_findPrototype (w : World) (q : Ref .view) :
    (w.after (View.findPrototype q)).views = match w.resolved? q with
      | .ok p => w.views.set q { w.views.get q with prototype := some p }
      | .error _ => w.views := by
  obtain ⟨l, hl⟩ := View.findPrototype_eq q w
  cases hr : w.resolved? q with
  | ok p =>
    rw [hr] at hl
    rw [after_of_ok hl]
  | error f =>
    rw [hr] at hl
    rw [after_of_error hl]

theorem leaves_findPrototype (h : r ≠ q) : w.Leaves q (w.after (View.findPrototype r)) := by
  have hget : ∀ view, (w.views.set r view).get q = w.views.get q :=
    fun view => Store.get_set_of_ne _ _ h.symm
  have hviews := views_findPrototype w r
  have hsame : (w.after (View.findPrototype r)).views.get q = w.views.get q := by
    rw [hviews]
    split
    · exact hget _
    · rfl
  refine ⟨?_, fun hq => ⟨?_, hsame⟩, fun hq => ?_⟩
  · rw [requestsOf, requests_findPrototype, List.filter_append, requestsOf]
    refine (congrArg _ (List.filter_eq_nil_iff.mpr fun a ha => ?_)).trans (List.append_nil _)
    rw [view_of_mem_asks ha]
    simpa using h
  · rw [hviews]
    split
    · exact (Store.has_set _ _ _ _).mpr hq
    · exact hq
  · rw [hsame, Store.get_of_not_has _ hq]
    rfl

/-- Moves that do not look up the prototype of a view leave it as it is. -/
theorem MovesIf.leaves {may : World → Ref .presenter → Ref .array → Prop} {asks : Ref .view → Prop}
    (hq : ¬ asks q) (h : MovesIf may asks w w') : w.Leaves q w' := by
  induction h with
  | refl w => exact refl_of (Leaves q) w
  | trans _ _ ih ih' => exact trans_of (Leaves q) ih ih'
  | other _ hs => exact leaves_of_eq hs.views hs.requests
  | place w address _ => exact leaves_of_eq rfl rfl
  | newPresenter w s => exact leaves_of_eq rfl rfl
  | newView w scope array p truncates counted =>
    by_cases hs : (w.arrays.get array).shape = []
    · rw [after_of_error (newView_of_plain scope p truncates counted hs)]
      exact refl_of (Leaves q) w
    · obtain ⟨view, l, hw, -, -, -, hp, -⟩ := newView_eq w scope p truncates counted hs
      rw [after_of_ok hw]
      exact leaves_of_push rfl hp rfl
  | handOut w p array scope _ hs =>
    rcases Presenter.viewOf_cases w p scope hs with ⟨known, r, -, -, hw⟩ | ⟨l, ps, hw, -⟩
    · rw [after_of_ok hw]
      exact leaves_of_eq rfl rfl
    · rw [after_of_ok hw]
      exact leaves_of_push rfl rfl rfl
  | findPrototype w r hr =>
    refine leaves_findPrototype ?_
    rintro rfl
    exact hq hr

theorem Moves.asksAtMost (h : w.Moves w') (q : Ref .view) :
    ReflTransGen (AsksAtMost q) w w' := by
  induction h with
  | refl w => exact .refl
  | trans _ _ ih ih' => exact ih.trans ih'
  | other h hs => exact .single (.inl (.other h hs))
  | place w address h => exact .single (.inl (.place w address h))
  | newPresenter w s => exact .single (.inl (.newPresenter w s))
  | newView w scope array p truncates counted =>
    exact .single (.inl (.newView w scope array p truncates counted))
  | handOut w p array scope h hs => exact .single (.inl (.handOut w p array scope h hs))
  | findPrototype w r _ =>
    by_cases hr : r = q
    · exact .single (.inr (by rw [hr]))
    · exact .single (.inl (.findPrototype w r hr))

end

structure Settled (w : World) (q : Ref .view) : Prop where
  inScope : ∀ s, (w.views.get q).scope = .scope s →
    w.completed q = (w.views.get q).prototype.toList
  unscoped : (∀ s, (w.views.get q).scope ≠ .scope s) → w.completed q = []

section

variable {w w' : World} {q : Ref .view} {p : Value}

theorem settled_empty (q : Ref .view) : World.empty.Settled q := ⟨fun _ _ => rfl, fun _ => rfl⟩

theorem Leaves.settled (h : w.Leaves q w') (hw : w.Settled q) : w'.Settled q := by
  have hcompleted : w'.completed q = w.completed q := by rw [completed, completed, h.requests]
  by_cases hq : w.views.Has q
  · refine ⟨fun s hs => ?_, fun hs => ?_⟩
    · rw [(h.has hq).2] at hs ⊢
      rw [hcompleted, hw.inScope s hs]
    · rw [(h.has hq).2] at hs
      rw [hcompleted, hw.unscoped hs]
  · have hnone : w.completed q = [] := by
      refine hw.unscoped fun s hs => ?_
      rw [Store.get_of_not_has _ hq] at hs
      cases hs
    refine ⟨fun s _ => ?_, fun _ => hcompleted.trans hnone⟩
    rw [hcompleted, hnone, h.fresh hq]
    rfl

theorem completed_findPrototype (w : World) (q : Ref .view) :
    (w.after (View.findPrototype q)).completed q =
      w.completed q ++ (View.asks w q).filterMap (·.answer) := by
  rw [completed, requestsOf_findPrototype, List.filterMap_append, completed]

theorem findPrototype_of_some (hp : (w.views.get q).prototype = some p) :
    View.findPrototype q w = .ok p w := by
  rw [View.findPrototype, look_bind_apply, hp]
  rfl

theorem has_of_prototype (hp : (w.views.get q).prototype = some p) : w.views.Has q := by
  by_contra hno
  rw [Store.get_of_not_has _ hno] at hp
  cases hp

theorem view_findPrototype (hq : w.views.Has q) :
    (w.after (View.findPrototype q)).views.get q = match w.resolved? q with
      | .ok p => { w.views.get q with prototype := some p }
      | .error _ => w.views.get q := by
  rw [views_findPrototype]
  split
  · exact Store.get_set_self _ _ hq
  · rfl

theorem Settled.findPrototype (hw : w.Settled q) : (w.after (View.findPrototype q)).Settled q := by
  by_cases hq : w.views.Has q
  · cases hp : (w.views.get q).prototype with
    | some p =>
      rw [after_of_ok (findPrototype_of_some hp)]
      exact hw
    | none =>
      have hview := view_findPrototype hq
      have hcompleted := completed_findPrototype w q
      rw [World.resolved?, hp] at hview
      rw [View.asks, hp] at hcompleted
      cases hs : (w.views.get q).scope with
      | scope s =>
        have hbefore : w.completed q = [] := by rw [hw.inScope s hs, hp]; rfl
        rw [hs] at hview hcompleted
        rw [hbefore] at hcompleted
        dsimp only at hview hcompleted
        cases hat : w.prototypeAt s with
        | ok p =>
          rw [hat] at hview hcompleted
          refine ⟨fun t _ => by rw [hcompleted, hview]; rfl, fun hno => ?_⟩
          rw [hview] at hno
          exact absurd hs (hno s)
        | error f =>
          rw [hat] at hview hcompleted
          refine ⟨fun t _ => by rw [hcompleted, hview, hp]; rfl, fun _ => hcompleted⟩
      | _ =>
        have hbefore : w.completed q = [] := hw.unscoped fun s h => by rw [hs] at h; cases h
        rw [hs] at hview hcompleted
        rw [hbefore] at hcompleted
        refine ⟨fun t ht => ?_, fun _ => hcompleted⟩
        rw [hview] at ht
        cases hs.symm.trans ht
  · -- what there is not has no scope to be asked
    have hview : w.views.get q = default := Store.get_of_not_has _ hq
    have hbefore : w.completed q = [] := hw.unscoped fun s h => by rw [hview] at h; cases h
    have hcompleted := completed_findPrototype w q
    rw [View.asks, hview, hbefore] at hcompleted
    have hsame : (w.after (View.findPrototype q)).views.get q = default := by
      rw [views_findPrototype, World.resolved?, hview]
      exact hview
    refine ⟨fun s hs => ?_, fun _ => hcompleted⟩
    rw [hsame] at hs
    cases hs

theorem AsksAtMost.settled (h : AsksAtMost q w w') (hw : w.Settled q) : w'.Settled q := by
  rcases h with h | rfl
  · exact (h.leaves (fun hne => hne rfl)).settled hw
  · exact hw.findPrototype

theorem Moves.settled (h : w.Moves w') (hw : w.Settled q) : w'.Settled q := by
  replace h := h.asksAtMost q
  induction h with
  | refl => exact hw
  | tail _ hstep ih => exact hstep.settled ih

theorem AsksAtMost.moves (h : AsksAtMost q w w') : w.Moves w' := by
  rcases h with h | rfl
  · exact h.mono (fun _ _ _ => id) fun _ _ => True.intro
  · exact .findPrototype w q True.intro

theorem moves_of_asksAtMost (h : ReflTransGen (AsksAtMost q) w w') : w.Moves w' := by
  induction h with
  | refl => exact .refl w
  | tail _ hstep ih => exact .trans ih hstep.moves

theorem AsksAtMost.hasView (h : AsksAtMost q w w') (hq : w.views.Has q) : w'.views.Has q := by
  rcases h with h | rfl
  · exact ((h.leaves fun hne => hne rfl).has hq).1
  · rw [views_findPrototype]
    split
    · exact (Store.has_set _ _ _ _).mpr hq
    · exact hq

theorem hasView_of_asksAtMost (h : ReflTransGen (AsksAtMost q) w w') (hq : w.views.Has q) :
    w'.views.Has q := by
  induction h with
  | refl => exact hq
  | tail _ hstep ih => exact hstep.hasView ih

theorem AsksAtMost.prototype (h : AsksAtMost q w w') (hp : (w.views.get q).prototype = some p) :
    (w'.views.get q).prototype = some p ∧ w'.requestsOf q = w.requestsOf q := by
  rcases h with h | rfl
  · have hleaves := h.leaves fun hne => hne rfl
    rw [(hleaves.has (has_of_prototype hp)).2]
    exact ⟨hp, hleaves.requests⟩
  · rw [after_of_ok (findPrototype_of_some hp)]
    exact ⟨hp, rfl⟩

theorem Moves.prototype (h : w.Moves w') (hp : (w.views.get q).prototype = some p) :
    (w'.views.get q).prototype = some p ∧ w'.requestsOf q = w.requestsOf q := by
  replace h := h.asksAtMost q
  induction h with
  | refl => exact ⟨hp, rfl⟩
  | tail _ hstep ih =>
    obtain ⟨hp', hrequests⟩ := hstep.prototype ih.1
    exact ⟨hp', hrequests.trans ih.2⟩

theorem AsksAtMost.unscoped (h : AsksAtMost q w w') (hq : w.views.Has q)
    (hs : (w.views.get q).scope = .null) :
    (w'.views.get q).scope = .null ∧ w'.requestsOf q = w.requestsOf q := by
  rcases h with h | rfl
  · have hleaves := h.leaves fun hne => hne rfl
    rw [(hleaves.has hq).2]
    exact ⟨hs, hleaves.requests⟩
  · have hasks : View.asks w q = [] := by
      rw [View.asks, hs]
      cases (w.views.get q).prototype <;> rfl
    refine ⟨?_, by rw [requestsOf_findPrototype, hasks, List.append_nil]⟩
    rw [view_findPrototype hq]
    split <;> exact hs

theorem Moves.unscoped (h : w.Moves w') (hq : w.views.Has q)
    (hs : (w.views.get q).scope = .null) :
    (w'.views.get q).scope = .null ∧ w'.requestsOf q = w.requestsOf q := by
  replace h := h.asksAtMost q
  induction h with
  | refl => exact ⟨hs, rfl⟩
  | tail hsteps hstep ih =>
    obtain ⟨hs', hrequests⟩ := hstep.unscoped (hasView_of_asksAtMost hsteps hq) ih.1
    exact ⟨hs', hrequests.trans ih.2⟩

/-- A view that gets a prototype gets it by a lookup in some world on the way. -/
theorem Moves.exists_lookup (h : w.Moves w') (hq : w.views.Has q)
    (hnone : (w.views.get q).prototype = none) (hp : (w'.views.get q).prototype = some p) :
    ∃ u, w.Moves u ∧ (u.views.get q).prototype = none ∧ u.resolved? q = .ok p ∧
      (u.after (View.findPrototype q)).Moves w' := by
  replace h := h.asksAtMost q
  induction h with
  | refl =>
    rw [hnone] at hp
    cases hp
  | @tail b c hsteps hstep ih =>
    have hb : w.Moves b := moves_of_asksAtMost hsteps
    cases hbp : (b.views.get q).prototype with
    | some p' =>
      have hsame : p' = p := Option.some.inj ((hstep.prototype hbp).1.symm.trans hp)
      obtain ⟨u, hu, hun, hup, hrest⟩ := ih (hsame ▸ hbp)
      exact ⟨u, hu, hun, hup, .trans hrest hstep.moves⟩
    | none =>
      have hbq : b.views.Has q := hasView_of_asksAtMost hsteps hq
      rcases hstep with hbut | rfl
      · rw [((hbut.leaves fun hne => hne rfl).has hbq).2, hbp] at hp
        cases hp
      · refine ⟨b, hb, hbp, ?_, .refl _⟩
        rw [view_findPrototype hbq] at hp
        split at hp
        · rename_i p' hp'
          rw [hp', Option.some.inj hp]
        · rw [hbp] at hp
          cases hp

end

end World

namespace View

/-- Whatever a view is asked for that it does not have itself, it answers with its prototype, which
it finds at once or has found. -/
structure AnswersWith (q : Ref .view) (p : Value) (w u : World) : Prop where
  found : findPrototype q w = .ok p u
  stays : findPrototype q u = .ok p u
  has : ∀ name, hasOwn w q name = false →
    Property.has (.view q) name w = Property.hasTo (2 * max w.views.size w.handed.length + 1) p name u
  own : ∀ name, hasOwn w q name = false → View.own q name w = (Property.has p name >>= fun b =>
    if b then pure .missing else fail (.noSuchMember "numpy.ndarray" name)) u
  read : ∀ name, hasOwn w q name = false → Property.read (.view q) name w =
    (Property.hasTo (2 * max w.views.size w.handed.length + 1) p name >>= fun b =>
      if b then Property.along (2 * max w.views.size w.handed.length + 1) name p
      else fail (.noSuchMember "numpy.ndarray" name)) u

structure FailsWith (q : Ref .view) (f : Fault) (w u : World) : Prop where
  found : findPrototype q w = .error f u
  has : ∀ name, hasOwn w q name = false → Property.has (.view q) name w = .error f u
  own : ∀ name, hasOwn w q name = false → View.own q name w = .error f u
  read : ∀ name, hasOwn w q name = false → Property.read (.view q) name w = .error f u

variable {w u : World} {q : Ref .view} {p : Value} {f : Fault} {name : String}

/-- A view that gives a prototype away answers with it. -/
theorem answersWith_of_found (h : findPrototype q w = .ok p u)
    (hp : (u.views.get q).prototype = some p) : AnswersWith q p w u := by
  refine ⟨h, findPrototype_of_some hp, fun name ho => ?_, fun name ho => ?_, fun name ho => ?_⟩
  · rw [has_eq ho, bind_apply_of_ok _ h]
  · exact (ownBy_of_not_hasOwn _ ho).trans (bind_apply_of_ok _ h)
  · rw [Property.read, get_bind_apply, Property.nesting, Property.readTo_view]
    have hown := ownBy_of_not_hasOwn (Property.hasTo (2 * max w.views.size w.handed.length + 1)) ho
    rw [bind_apply_of_ok _ h] at hown
    cases hhas : Property.hasTo (2 * max w.views.size w.handed.length + 1) p name u with
    | error f v =>
      rw [bind_apply_of_error _ hhas] at hown ⊢
      exact bind_apply_of_error _ hown
    | ok b v =>
      rw [bind_apply_of_ok _ hhas] at hown ⊢
      cases b with
      | false => exact bind_apply_of_error _ hown
      | true =>
        -- whatever the prototype was asked for, the view still has it
        have hmoves : u.Moves v := by
          have hkeeps := (moves_parts.lookup (2 * max w.views.size w.handed.length + 1)).2 p name u
          rwa [after_of_ok hhas] at hkeeps
        rw [bind_apply_of_ok _ hown]
        exact bind_apply_of_ok _ (findPrototype_of_some (hmoves.prototype hp).1)

theorem failsWith_of_error (h : findPrototype q w = .error f u) : FailsWith q f w u := by
  refine ⟨h, fun name ho => ?_, fun name ho => ?_, fun name ho => ?_⟩
  · rw [has_eq ho, bind_apply_of_error _ h]
  · exact (ownBy_of_not_hasOwn _ ho).trans (bind_apply_of_error _ h)
  · have hown := ownBy_of_not_hasOwn (Property.hasTo (2 * max w.views.size w.handed.length + 1)) ho
    rw [bind_apply_of_error _ h] at hown
    rw [Property.read, get_bind_apply, Property.nesting, Property.readTo_view]
    exact bind_apply_of_error _ hown

theorem answersWith_of_resolved (hq : w.views.Has q) (h : w.resolved? q = .ok p) :
    ∃ u, AnswersWith q p w u ∧ (u.views.get q).prototype = some p ∧ u.records = w.records := by
  obtain ⟨u, hfound, hrecords, -⟩ := findPrototype_settled hq h
  have hview := view_findPrototype hq
  rw [h, after_of_ok hfound] at hview
  have hp : (u.views.get q).prototype = some p := by rw [hview]
  exact ⟨u, answersWith_of_found hfound hp, hp, hrecords⟩

structure NeedsNone (q : Ref .view) (w : World) : Prop where
  own : ∀ name, hasOwn w q name = true → w.MovesBut q (w.after (Property.read (.view q) name)) ∧
    w.MovesBut q (w.after (Property.has (.view q) name)) ∧
    w.MovesBut q (w.after (View.own q name))
  index : ∀ i v, w.MovesBut q (w.after (getIndex q i)) ∧ w.MovesBut q (w.after (hasIndex q i)) ∧
    w.MovesBut q (w.after (setIndex q i v)) ∧ w.MovesBut q (w.after (elements q))
  search : ∀ kind test args,
    w.MovesBut q (w.after (Search.call kind (w.views.get q).array test args))
  method : ∀ name args,
    w.MovesBut q (w.after (HostMethod.run (.array (w.views.get q).array) name args))

theorem needsNone (h : w.Sound) (q : Ref .view) : NeedsNone q w where
  own name ho := by
    have hown : ∀ has, w.MovesBut q (w.after (ownBy has q name)) :=
      fun has => moves_members.ownBy_of_hasOwn ho
    obtain ⟨x, u, hx, -, hm⟩ := ownBy_of_hasOwn Property.has h ho
    have hread := Property.read_of_own (fun has => (ownBy_congr ho has Property.has).trans hx) hm
    refine ⟨?_, ?_, hown _⟩
    · rw [after_of_ok hread, ← after_of_ok hx]
      exact hown _
    · rw [after_of_ok (has_of_hasOwn ho)]
      exact .refl w
  index i v := ⟨moves_getIndex q i w, moves_hasIndex q i w, moves_setIndex q i v w, moves_elements q w⟩
  search kind test args := Search.moves_call kind _ test args w
  method name args := HostMethod.moves_run _ name args w

/-- The prototype of a view is looked up once, between a world and a later one. -/
structure ResolvesOnce (w w' : World) (q : Ref .view) : Prop where
  /-- No more than one lookup ever comes to something. -/
  once : (w'.completed q).length ≤ 1
  /-- Without a scope there is no lookup. -/
  unscoped : (w.views.get q).scope = .null → w'.requestsOf q = w.requestsOf q ∧ w'.completed q = []
  /-- There is none either as long as nothing but what needs none is done to the view. -/
  unasked : w.MovesBut q w' → w'.requestsOf q = w.requestsOf q
  needsNone : NeedsNone q w'
  /-- What the lookup comes to is the prototype of the arrays that the outermost scope binds just
  then. -/
  moment : ∀ s p, (w.views.get q).scope = .scope s → (w.views.get q).prototype = none →
    (w'.views.get q).prototype = some p → w'.completed q = [p] ∧ ∃ u top, w.Moves u ∧
      (u.views.get q).prototype = none ∧ u.IsOutermost s top ∧ p = u.prototypeIn top ∧
      (u.after (findPrototype q)).Moves w'
  /-- From then on the view answers with it, and nothing is looked up again. -/
  fixed : ∀ p, (w.views.get q).prototype = some p →
    AnswersWith q p w' w' ∧ w'.requestsOf q = w.requestsOf q
  /-- If the scopes lie within themselves every lookup fails, and only that it was tried is known
  afterwards. -/
  fails : ∀ s, (w.views.get q).scope = .scope s → (w'.views.get q).prototype = none →
    w'.Circles s → ∃ log, FailsWith q .cyclicScopes w'
      { w' with requests := w'.requests ++ [⟨q, none⟩], log }
  /-- Otherwise it succeeds, whatever failed before. -/
  resolves : ∀ s top, (w.views.get q).scope = .scope s → (w'.views.get q).prototype = none →
    w'.IsOutermost s top → ∃ u, AnswersWith q (w'.prototypeIn top) w' u ∧
      u.completed q = [w'.prototypeIn top]

/-- However the world moves, with operations and runs of any kind, the prototype of a view is looked
up once. -/
theorem resolvesOnce {w₀ w : World} (h₀ : World.empty.Moves w₀) {q : Ref .view}
    (hq : w₀.views.Has q) (h : w₀.Moves w) : ResolvesOnce w₀ w q := by
  have hsound₀ : w₀.Sound := (h₀.leads sound_empty).1
  obtain ⟨hsound, hext⟩ := h.leads hsound₀
  have hhas := hext.hasView q hq
  have hscope : (w.views.get q).scope = (w₀.views.get q).scope := by rw [hext.view q hq]
  have hsettled : w.Settled q := Moves.settled (.trans h₀ h) (settled_empty q)
  refine {
    once := ?_
    unscoped := ?_
    unasked := fun hbut => (hbut.leaves fun hne => hne rfl).requests
    needsNone := needsNone hsound q
    moment := ?_
    fixed := ?_
    fails := ?_
    resolves := ?_ }
  · by_cases hs : ∃ s, (w.views.get q).scope = .scope s
    · obtain ⟨s, hs⟩ := hs
      rw [hsettled.inScope s hs]
      cases (w.views.get q).prototype <;> simp
    · rw [hsettled.unscoped fun s h => hs ⟨s, h⟩]
      exact Nat.zero_le 1
  · intro hs
    refine ⟨(h.unscoped hq hs).2, hsettled.unscoped fun s h => ?_⟩
    rw [hscope, hs] at h
    cases h
  · intro s p hs hnone hp
    refine ⟨by rw [hsettled.inScope s (hscope.trans hs), hp]; rfl, ?_⟩
    obtain ⟨u, hu, hun, hup, hrest⟩ := h.exists_lookup hq hnone hp
    have huscope : (u.views.get q).scope = .scope s := by
      rw [(hu.leads hsound₀).2.view q hq]
      exact hs
    rw [resolved?_of_none hun huscope] at hup
    rcases circles_or_isOutermost u s with hc | ⟨top, htop⟩
    · rw [prototypeAt_of_circles hc] at hup
      cases hup
    · rw [prototypeAt_of_isOutermost htop] at hup
      exact ⟨u, top, hu, hun, htop, (Except.ok.inj hup).symm, hrest⟩
  · intro p hp
    obtain ⟨hp', hrequests⟩ := h.prototype hp
    exact ⟨answersWith_of_found (findPrototype_of_some hp') hp', hrequests⟩
  · intro s hs hnone hc
    have hresolved : w.resolved? q = .error .cyclicScopes := by
      rw [resolved?_of_none hnone (hscope.trans hs)]
      exact prototypeAt_of_circles hc
    obtain ⟨log, hlog⟩ := findPrototype_of_failed hresolved
    have hasks : View.asks w q = [⟨q, none⟩] := by
      rw [View.asks, hnone, hscope, hs]
      dsimp only
      rw [prototypeAt_of_circles hc]
      rfl
    rw [hasks] at hlog
    exact ⟨log, failsWith_of_error hlog⟩
  · intro s top hs hnone htop
    have hresolved : w.resolved? q = .ok (w.prototypeIn top) := by
      rw [resolved?_of_none hnone (hscope.trans hs)]
      exact prototypeAt_of_isOutermost htop
    obtain ⟨u, hanswers, hp, -⟩ := answersWith_of_resolved hhas hresolved
    have hmoved : w.Moves (w.after (findPrototype q)) := .findPrototype w q True.intro
    rw [after_of_ok hanswers.found] at hmoved
    refine ⟨u, hanswers, ?_⟩
    have huscope : (u.views.get q).scope = .scope s := by
      rw [(hmoved.leads hsound).2.view q hhas]
      exact hscope.trans hs
    rw [(hmoved.settled hsettled).inScope s huscope, hp]
    rfl

end View

def detour : World := World.empty.afterAll [
  .createEnvironment .standard,
  .newScope (some ⟨0⟩),
  .setParent ⟨0⟩ (some ⟨1⟩),
  .buildArray (.native (.int true 1)) [2] [],
  .newView (.scope ⟨1⟩) ⟨1⟩ ⟨0⟩ none true]

theorem reachable_detour : Reachable detour := by
  apply Reachable.start.afterAll
  simp [Operation.IsProper, CellType.native, Content.IsProper]

def shortcut : World := detour.afterAll [
  .readProperty (.view ⟨0⟩) "map",
  .setParent ⟨0⟩ none,
  .readProperty (.view ⟨0⟩) "map",
  .assignHere ⟨0⟩ "Array" .null,
  .readProperty (.view ⟨0⟩) "map"]

/-- The first lookup fails, the second one finds the prototype, and there is no third one. -/
theorem View.resolvesOnce_after_repair : detour.Circles ⟨1⟩ ∧
    (shortcut.requestsOf ⟨0⟩).map (·.answer) = [none, some (.record ⟨1⟩)] ∧
    (shortcut.completed ⟨0⟩).length = 1 ∧ ResolvesOnce detour shortcut ⟨0⟩ := by
  refine ⟨cyclic_chain_iff.mp (by decide +kernel), by decide +kernel, by decide +kernel, ?_⟩
  refine View.resolvesOnce reachable_detour.moves (by decide +kernel) (moves_afterAll _ ?_)
  simp [Operation.IsProper]

end ScriptedArrays
