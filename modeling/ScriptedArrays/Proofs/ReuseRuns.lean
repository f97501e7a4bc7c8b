import ScriptedArrays.Proofs.Resolution
import ScriptedArrays.Proofs.Twins

/-! Runs with and without reuse. A run presents arrays, reads and writes slots of the views that it
has got, looks up their prototypes and sets entries of records. Whether presenters reuse views or make
new ones, it gets the same answers, views aside, and views that show the same arrays. -/

namespace ScriptedArrays

open World

/-- Steps of a run. A view is named by the step that answered with it. -/
inductive Crossing
  | present (p : Ref .presenter) (a : Ref .array) (scope : Value)
  | read (k : Nat) (i : Int)
  | write (k : Nat) (i : Int) (v : Value)
  /-- The prototype of a view is looked up. What it is remains untold. -/
  | resolve (k : Nat)
  | setEntry (r : Ref .record) (key : String) (v : Value)
  /-- Nothing but these views stays in use. -/
  | hold (ks : List Nat)

def viewAt? (answers : List (Except Fault Value)) (k : Nat) : Option (Ref .view) :=
  match answers[k]? with
  | some (.ok (.view r)) => some r
  | _ => none

namespace Crossing

def act (answers : List (Except Fault Value)) : Crossing → Action Value
  | present p a scope => Presenter.present p (.array a) scope
  | read k i => (viewAt? answers k).elim (pure .undefined) fun r => View.getIndex r (.int i)
  | write k i v => (viewAt? answers k).elim (pure .undefined) fun r => do
    View.setIndex r (.int i) v
    return .undefined
  | resolve k => (viewAt? answers k).elim (pure .undefined) fun r w =>
    .ok .undefined (w.after (View.findPrototype r))
  | setEntry r key v => do
    ScriptedArrays.setEntry r key v
    return .undefined
  | hold ks => do
    modify fun w => { w with inUse := ks.filterMap fun k => (viewAt? answers k).map .view }
    return .undefined

def IsPlain : Crossing → Prop
  | write _ _ v => v.IsPrimitive
  | _ => True

/-- Arrays are presented for one scope only, and no entry is set. -/
def IsWithin (scope : Value) : Crossing → Prop
  | present _ _ s => s = scope
  | setEntry .. => False
  | _ => True

end Crossing

/-- A run under way: the world, and the answers so far. -/
structure Course where
  world : World
  answers : List (Except Fault Value)

namespace Course

def next (c : Course) (x : Crossing) : Course :=
  ⟨c.world.after (x.act c.answers), c.answers ++ [c.world.answer (x.act c.answers)]⟩

end Course

def World.play (w : World) (xs : List Crossing) : Course := xs.foldl Course.next ⟨w, []⟩

/-- The answers are alike, or both are the same fault. -/
inductive Concurs (P : Ref .view → Ref .view → Prop) : (x y : Except Fault Value) → Prop
  | error (f : Fault) : Concurs P (.error f) (.error f)
  | ok {x y : Value} (h : Twinned P x y) : Concurs P (.ok x) (.ok y)

theorem Concurs.mono {P P' : Ref .view → Ref .view → Prop} (hP : ∀ r q, P r q → P' r q)
    {x y : Except Fault Value} (h : Concurs P x y) : Concurs P' x y := by
  cases h with
  | error f => exact .error f
  | ok h =>
    cases h with
    | view h => exact .ok (.view (hP _ _ h))
    | same h => exact .ok (.same h)

section

variable {P : Ref .view → Ref .view → Prop} {w u : World}

theorem Together.concurs {act act' : Action Value}
    (h : Together (Parallels P) TwinnedIn (act w) (act' u)) :
    ∃ P', (∀ r q, P r q → P' r q) ∧ Parallels P' (w.after act) (u.after act') ∧
      Concurs P' (w.answer act) (u.answer act') := by
  rw [World.after, World.after, World.answer, World.answer]
  generalize act w = result at h ⊢
  generalize act' u = result' at h ⊢
  cases h with
  | error h => exact ⟨P, fun _ _ => id, h, .error _⟩
  | ok h hv =>
    cases hv with
    | same hv => exact ⟨P, fun _ _ => id, h, .ok (.same hv)⟩
    | @view r q hv =>
      -- the views that the step answers with are a further pair
      refine ⟨fun r' q' => P r' q' ∨ r' = r ∧ q' = q, fun _ _ => .inl, ?_,
        .ok (.view (.inr ⟨rfl, rfl⟩))⟩
      refine { h with pairs := ?_, cells := fun b c hc r hr => .inl (h.cells b c hc r hr) }
      rintro r' q' (hp | ⟨rfl, rfl⟩)
      · exact h.pairs r' q' hp
      · exact hv

theorem viewAt?_cases {xs ys : List (Except Fault Value)} (h : List.Forall₂ (Concurs P) xs ys)
    (k : Nat) :
    viewAt? xs k = none ∧ viewAt? ys k = none ∨
      ∃ r q, viewAt? xs k = some r ∧ viewAt? ys k = some q ∧ P r q := by
  have hnone : ∀ {v : Value}, (∀ r, v ≠ .view r) → ∀ rest, viewAt? (.ok v :: rest) 0 = none := by
    intro v hv rest
    cases v with
    | view r => exact absurd rfl (hv r)
    | _ => rfl
  induction h generalizing k with
  | nil => exact .inl ⟨rfl, rfl⟩
  | cons h _ ih =>
    cases k with
    | succ k => exact ih k
    | zero =>
      cases h with
      | error f => exact .inl ⟨rfl, rfl⟩
      | ok h =>
        cases h with
        | view h => exact .inr ⟨_, _, rfl, rfl, h⟩
        | same h => exact .inl ⟨hnone h _, hnone h _⟩

theorem TwinViews.set_prototype {st st' : Store .view View} {r q : Ref .view} (h : TwinViews st st' r q)
    (r' q' : Ref .view) (x y : Option Value) :
    TwinViews (st.set r' { st.get r' with prototype := x })
      (st'.set q' { st'.get q' with prototype := y }) r q := by
  refine ⟨(Store.has_set _ _ _ _).mpr h.left, (Store.has_set _ _ _ _).mpr h.right, ?_⟩
  have htwins := h.twins
  rw [View.Twins] at htwins ⊢
  rw [Store.get_set, Store.get_set]
  split
  · rename_i hr
    rw [← hr.1]
    split
    · rename_i hq
      rw [← hq.1]
      rw [htwins]
    · rw [htwins]
  · split
    · rename_i hq
      rw [← hq.1]
      rw [htwins]
    · exact htwins

namespace World.Parallels

theorem findPrototype (h : Parallels P w u) (r q : Ref .view) :
    Parallels P (w.after (View.findPrototype r)) (u.after (View.findPrototype q)) := by
  have hview : ∀ (z : World) (r : Ref .view), ∃ x l, z.after (View.findPrototype r) = { z with
      views := z.views.set r { z.views.get r with prototype := x }
      requests := z.requests ++ View.asks z r
      log := l } := fun z r => by
    obtain ⟨l, hl⟩ := View.findPrototype_eq r z
    cases hp : z.resolved? r with
    | ok x =>
      rw [hp] at hl
      exact ⟨some x, l, after_of_ok hl⟩
    | error f =>
      rw [hp] at hl
      refine ⟨(z.views.get r).prototype, l, (after_of_error hl).trans ?_⟩
      rw [Store.set_get]
  obtain ⟨x, l, hw⟩ := hview w r
  obtain ⟨y, l', hu⟩ := hview u q
  rw [hw, hu]
  exact { h with pairs := fun r' q' hp => (h.pairs r' q' hp).set_prototype r q x y }

theorem setEntry (h : Parallels P w u) (r : Ref .record) (key : String) (v : Value) :
    Together (Parallels P) (fun _ _ _ _ => True) (ScriptedArrays.setEntry r key v w)
      (ScriptedArrays.setEntry r key v u) := by
  refine (h.keep v).bind ?_
  rintro x y z z' hz ⟨rfl, -, -⟩
  show Together _ _ (setRecord r ((z.records.get r).set key x) z)
    (setRecord r ((z'.records.get r).set key x) z')
  rw [hz.records]
  refine .ok { hz with records := ?_ } True.intro
  exact congrArg (fun st : Store .record Entries => st.set r ((z.records.get r).set key x)) hz.records

end World.Parallels

/-- Whatever a step does, the world goes on by moves. -/
theorem Crossing.moves_act (answers : List (Except Fault Value)) (x : Crossing) :
    Keeps Moves (x.act answers) := by
  have hview : ∀ (k : Nat) (f : Ref .view → Action Value), (∀ r, Keeps Moves (f r)) →
      Keeps Moves ((viewAt? answers k).elim (pure .undefined) f) := by
    intro k f hf
    cases viewAt? answers k with
    | none => exact .pure _
    | some r => exact hf r
  cases x with
  | present p a scope => exact moves_present p _ scope
  | read k i => exact hview k _ fun r => View.moves_getIndex r _
  | write k i v => exact hview k _ fun r => .bind (View.moves_setIndex r _ v) fun _ => .pure _
  | resolve k => exact hview k _ fun r w => .findPrototype w r True.intro
  | setEntry r key v => exact .bind (keeps_setEntry r key v) fun _ => .pure _
  | hold ks =>
    refine .bind (.modify fun w => ?_) fun _ => .pure _
    exact Tolerant.plain (plain_of_eq rfl rfl rfl rfl rfl rfl rfl rfl)

/-- A step of either run ends alike. -/
theorem Crossing.together_act (h : Parallels P w u) (hw : World.empty.Moves w) (hu : u.Sound)
    {xs ys : List (Except Fault Value)} (ha : List.Forall₂ (Concurs P) xs ys) {x : Crossing}
    (hx : x.IsPlain) : Together (Parallels P) TwinnedIn (x.act xs w) (x.act ys u) := by
  have hview : ∀ (k : Nat) (f g : Ref .view → Action Value),
      (∀ r q, P r q → Together (Parallels P) TwinnedIn (f r w) (g q u)) →
      Together (Parallels P) TwinnedIn ((viewAt? xs k).elim (pure .undefined) f w)
        ((viewAt? ys k).elim (pure .undefined) g u) := by
    intro k f g hfg
    rcases viewAt?_cases ha k with ⟨hr, hq⟩ | ⟨r, q, hr, hq, hp⟩
    · rw [hr, hq]
      exact .ok h (.same fun _ => Value.noConfusion)
    · rw [hr, hq]
      exact hfg r q hp
  have hdone : ∀ {a b : Action Unit}, Together (Parallels P) (fun _ _ _ _ => True) (a w) (b u) →
      Together (Parallels P) TwinnedIn ((a >>= fun _ => (pure .undefined : Action Value)) w)
        ((b >>= fun _ => (pure .undefined : Action Value)) u) := fun hab =>
    hab.bind fun h _ => .ok h (.same fun _ => Value.noConfusion)
  cases x with
  | present p a scope => exact h.present hw p scope scope fun _ => Value.noConfusion
  | read k i => exact hview k _ _ fun r q hp => h.getIndex hw hu (h.pairs r q hp) i
  | write k i v =>
    refine hview k _ _ fun r q hp => hdone ?_
    exact h.setIndex (hw.leads sound_empty).1 (h.pairs r q hp) i hx
  | resolve k =>
    exact hview k _ _ fun r q _ => .ok (h.findPrototype r q) (.same fun _ => Value.noConfusion)
  | setEntry r key v => exact hdone (h.setEntry r key v)
  | hold ks => exact .ok { h with } (.same fun _ => Value.noConfusion)

namespace World

/-- What scopes provide stays, and so do the views. New ones are made for the given scope. -/
structure Confines (scope : Value) (w w' : World) : Prop where
  scopes : w'.scopes = w.scopes
  records : w'.records = w.records
  functions : w'.functions = w.functions
  views : ∀ r, w'.views.Has r → w.views.Has r ∧ w'.views.get r = w.views.get r ∨
    (w'.views.get r).scope = scope ∧ (w'.views.get r).prototype = none

variable {scope : Value}

theorem confines_of_eq {w' : World} (hs : w'.scopes = w.scopes) (hr : w'.records = w.records)
    (hf : w'.functions = w.functions) (hv : w'.views = w.views) : Confines scope w w' :=
  ⟨hs, hr, hf, fun r h => .inl (by rw [hv] at h ⊢; exact ⟨h, rfl⟩)⟩

instance : IsPreorder World (Confines scope) where
  refl _ := confines_of_eq rfl rfl rfl rfl
  trans u v w h h' := by
    refine ⟨h'.scopes.trans h.scopes, h'.records.trans h.records, h'.functions.trans h.functions,
      fun r hr => ?_⟩
    rcases h'.views r hr with ⟨hv, heq⟩ | hnew
    · rw [heq]
      exact h.views r hv
    · exact .inr hnew

theorem confines_logEvent (e : Event) : Keeps (Confines scope) (logEvent e) := by
  intro w
  obtain ⟨l, hl⟩ := logEvent_eq e w
  rw [after_of_ok hl]
  exact confines_of_eq rfl rfl rfl rfl

theorem confines_keep (v : Value) : Keeps (Confines scope) (ScriptedArrays.keep v) := by
  intro w
  obtain ⟨x, n, hx, -⟩ := keep_eq v w
  rw [after_of_ok hx]
  exact confines_of_eq rfl rfl rfl rfl

theorem confines_viewOf (w : World) (p : Ref .presenter) {a : Ref .array}
    (hs : (w.arrays.get a).shape ≠ []) : w.Confines scope (w.after (Presenter.viewOf p a scope)) := by
  rcases Presenter.viewOf_cases w p scope hs with ⟨known, r, -, -, hw⟩ | ⟨l, ps, hw, -⟩
  · rw [after_of_ok hw]
    exact confines_of_eq rfl rfl rfl rfl
  · rw [after_of_ok hw]
    refine ⟨rfl, rfl, rfl, fun r hr => ?_⟩
    dsimp only
    rcases (Store.has_push_iff _ _).mp hr with hr | rfl
    · rw [Store.get_push_of_ne _ _ (w.views.ne_next_of_has hr)]
      exact .inl ⟨hr, rfl⟩
    · rw [Store.get_push_next]
      exact .inr ⟨rfl, rfl⟩

theorem confines_present (p : Ref .presenter) (v : Value) :
    Keeps (Confines scope) (Presenter.present p v scope) := by
  have hbox : ∀ v, Keeps (Confines scope) (ScriptedArrays.newBox scope v p none) := fun v =>
    .bind (confines_keep v) fun _ => .modifyGet fun _ => confines_of_eq rfl rfl rfl rfl
  exact .bind .get fun _ =>
    Presenter.keeps_presentFrom confines_keep hbox (fun w _ hs => confines_viewOf w p hs) _ _

theorem confines_hostSlot (win : Window) (i : Value) : Keeps (Confines scope) (hostSlot win i) := by
  have harray : ∀ type shape cells, Keeps (Confines scope) (newArray type shape cells) := by
    intro type shape cells w
    obtain ⟨vs, n, hw, -⟩ := newArray_eq type shape cells w
    rw [after_of_ok hw]
    exact confines_of_eq rfl rfl rfl rfl
  refine .bind .get fun w => ?_
  split
  · exact .ite (.bind .get fun _ => .pure _)
      (.bind (.modifyGet fun _ => confines_of_eq rfl rfl rfl rfl) fun _ => .pure _)
  · exact .bind .get fun _ => .bind (harray _ _ _) fun _ => .pure _
  · exact .failHost _

theorem confines_getIndex {r : Ref .view} (hr : (w.views.get r).scope = scope) (i : Value) :
    w.Confines scope (w.after (View.getIndex r i)) := by
  rw [View.getIndex, after_look_bind, hr]
  refine Keeps.bind .get (fun _ => .bind (.orFail _) fun b => .ite ?_ (.pure _)) w
  exact .bind (.look _) fun win => .bind (confines_hostSlot win i) fun v => confines_present _ v

theorem confines_setIndex {v : Value} (hv : v.IsPrimitive) (r : Ref .view) (i : Value) :
    Keeps (Confines scope) (View.setIndex r i v) := by
  have hconvert : ∀ truncates slot,
      Keeps (Confines scope) (ScriptedArrays.convert truncates slot v) := by
    intro truncates slot w
    rcases convert_of_isPrimitive hv truncates slot with ⟨f, hf⟩ | ⟨-, x, hx, -⟩
    · obtain ⟨l, hl⟩ := hf w
      rw [after_of_error hl]
      exact confines_of_eq rfl rfl rfl rfl
    · rw [after_of_ok (hx w)]
      exact confines_of_eq rfl rfl rfl rfl
  refine .bind (.look _) fun view => .bind .get fun _ => .bind (.orFail _) fun b => .ite ?_ ?_
  · refine .bind (hconvert _ _) fun x => .bind (confines_keep x) fun y => .bind .get fun w => ?_
    refine .bind .get fun w => ?_
    split
    · exact .modify fun _ => confines_of_eq rfl rfl rfl rfl
    · exact .bind (.orFail _) fun _ => .ite (.modify fun _ => confines_of_eq rfl rfl rfl rfl) (.pure _)
    · exact .failHost _
  · refine .bind (.bind .get fun w => .ite ?_ (.pure _)) fun _ => .bind .get fun _ =>
      .bind (.orFail _) fun _ => .fail _
    exact .bind (.orFail _) fun _ => confines_logEvent _

/-- All views are in one scope and have no other prototype than the one that it provides. -/
structure Steady (w : World) (scope x : Value) : Prop where
  provides : w.Provides scope x
  inScope : ∀ r, w.views.Has r → (w.views.get r).scope = scope
  found : ∀ r, w.views.Has r → ∀ y, (w.views.get r).prototype = some y → y = x

namespace Steady

variable {x : Value}

theorem of_confines {w' : World} (h : w.Steady scope x) (hc : w.Confines scope w') :
    w'.Steady scope x := by
  refine ⟨h.provides.of_eq hc.scopes hc.records hc.functions, fun r hr => ?_, fun r hr => ?_⟩
  · rcases hc.views r hr with ⟨hw, heq⟩ | ⟨hs, -⟩
    · rw [heq]
      exact h.inScope r hw
    · exact hs
  · rcases hc.views r hr with ⟨hw, heq⟩ | ⟨-, hp⟩
    · rw [heq]
      exact h.found r hw
    · rw [hp]
      intro x hx
      cases hx

theorem resolved? (h : w.Steady scope x) {r : Ref .view} (hr : w.views.Has r) :
    w.resolved? r = .ok x := by
  cases hp : (w.views.get r).prototype with
  | some y => rw [resolved?_of_some hp, h.found r hr y hp]
  | none => exact Provides.resolved? (h.inScope r hr ▸ h.provides) hp

theorem findPrototype (h : w.Steady scope x) {r : Ref .view} (hr : w.views.Has r) :
    (w.after (View.findPrototype r)).Steady scope x := by
  obtain ⟨l, hl⟩ := View.findPrototype_eq r w
  rw [h.resolved? hr] at hl
  rw [after_of_ok hl]
  refine ⟨h.provides.of_eq rfl rfl rfl, fun q hq => ?_, fun q hq y hy => ?_⟩
  · have hhas := (Store.has_set _ _ _ _).mp hq
    dsimp only
    rw [Store.get_set]
    split
    · rename_i hq
      rw [← hq.1]
      exact h.inScope q hhas
    · exact h.inScope q hhas
  · have hhas := (Store.has_set _ _ _ _).mp hq
    dsimp only at hy
    rw [Store.get_set] at hy
    split at hy
    · exact (Option.some.inj hy).symm
    · exact h.found q hhas y hy

/-- A step within the scope leaves it so. -/
theorem act (h : w.Steady scope x) {answers : List (Except Fault Value)}
    (ha : ∀ k r, viewAt? answers k = some r → w.views.Has r) {c : Crossing} (hc : c.IsPlain)
    (hs : c.IsWithin scope) : (w.after (c.act answers)).Steady scope x := by
  cases c with
  | present p a s =>
    obtain rfl : s = scope := hs
    exact h.of_confines (confines_present p _ w)
  | read k i =>
    rw [Crossing.act]
    cases hr : viewAt? answers k with
    | none => exact h
    | some r => exact h.of_confines (confines_getIndex (h.inScope r (ha k r hr)) _)
  | write k i v =>
    rw [Crossing.act]
    cases viewAt? answers k with
    | none => exact h
    | some r =>
      exact h.of_confines (Keeps.bind (confines_setIndex hc r _) (fun _ => .pure _) w)
  | resolve k =>
    rw [Crossing.act]
    cases hr : viewAt? answers k with
    | none => exact h
    | some r => exact h.findPrototype (ha k r hr)
  | setEntry r key v => exact hs.elim
  | hold ks => exact h.of_confines (confines_of_eq rfl rfl rfl rfl)

end Steady
end World

end

namespace Course

structure Abreast (P : Ref .view → Ref .view → Prop) (c d : Course) : Prop where
  worlds : Parallels P c.world d.world
  moves : World.empty.Moves c.world
  sound : d.world.Sound
  answers : List.Forall₂ (Concurs P) c.answers d.answers

variable {P : Ref .view → Ref .view → Prop} {c d : Course}

theorem Abreast.step (h : Abreast P c d) {x : Crossing} (hx : x.IsPlain) :
    ∃ P', Abreast P' (c.next x) (d.next x) := by
  obtain ⟨P', hP, hworlds, hanswer⟩ :=
    (Crossing.together_act h.worlds h.moves h.sound h.answers hx).concurs
  refine ⟨P', hworlds, .trans h.moves (x.moves_act _ _), ?_, ?_⟩
  · exact ((x.moves_act _ _).leads h.sound).1
  · exact List.rel_append (h.answers.imp fun _ _ => .mono hP) (.cons hanswer .nil)

theorem Abreast.hasLeft (h : Abreast P c d) {k : Nat} {r : Ref .view}
    (hr : viewAt? c.answers k = some r) : c.world.views.Has r := by
  rcases viewAt?_cases h.answers k with ⟨hnone, -⟩ | ⟨r', q, hr', -, hp⟩
  · cases hnone.symm.trans hr
  · cases hr'.symm.trans hr
    exact (h.worlds.pairs r q hp).left

theorem Abreast.hasRight (h : Abreast P c d) {k : Nat} {q : Ref .view}
    (hq : viewAt? d.answers k = some q) : d.world.views.Has q := by
  rcases viewAt?_cases h.answers k with ⟨-, hnone⟩ | ⟨r, q', -, hq', hp⟩
  · cases hnone.symm.trans hq
  · cases hq'.symm.trans hq
    exact (h.worlds.pairs r q hp).right

theorem Abreast.run (h : Abreast P c d) {xs : List Crossing} (hxs : ∀ x ∈ xs, x.IsPlain) :
    (∃ P', Abreast P' (xs.foldl next c) (xs.foldl next d)) ∧
    ∀ {scope y : Value}, (∀ x ∈ xs, x.IsWithin scope) → c.world.Steady scope y →
      d.world.Steady scope y →
      (xs.foldl next c).world.Steady scope y ∧ (xs.foldl next d).world.Steady scope y := by
  -- the pairs grow with each step, so the induction is for any pairs
  induction xs generalizing P c d with
  | nil => exact ⟨⟨P, h⟩, fun _ hc hd => ⟨hc, hd⟩⟩
  | cons x xs ih =>
    obtain ⟨hx, hxs⟩ := List.forall_mem_cons.mp hxs
    obtain ⟨P', hnext⟩ := h.step hx
    obtain ⟨hrest, hsteady⟩ := ih hnext hxs
    refine ⟨hrest, fun hwithin hc hd => ?_⟩
    obtain ⟨hw, hwithin⟩ := List.forall_mem_cons.mp hwithin
    exact hsteady hwithin (hc.act (fun _ _ => h.hasLeft) hx hw) (hd.act (fun _ _ => h.hasRight) hx hw)

/-- The runs have got the same answers and left the same objects, but for their views, of which those
that answer the same step are twins. -/
structure Agrees (c d : Course) : Prop where
  answers : List.Forall₂ (Concurs (TwinViews c.world.views d.world.views)) c.answers d.answers
  arrays : d.world.arrays = c.world.arrays
  cells : d.world.buffers = c.world.buffers
  records : d.world.records = c.world.records
  lists : d.world.lists = c.world.lists
  tuples : d.world.tuples = c.world.tuples
  functions : d.world.functions = c.world.functions
  scopes : d.world.scopes = c.world.scopes

theorem Abreast.agrees (h : Abreast P c d) : c.Agrees d :=
  ⟨h.answers.imp fun _ _ => .mono h.worlds.pairs, h.worlds.arrays, h.worlds.buffers, h.worlds.records,
    h.worlds.lists, h.worlds.tuples, h.worlds.functions, h.worlds.scopes⟩

end Course

namespace World

variable {w : World}

def forgetful (w : World) : World :=
  { w with presenters := ⟨w.presenters.items.map fun p => { p with known := none }⟩ }

/-- Cells hold no other views than those that there are. -/
def HoldsOwn (w : World) : Prop :=
  ∀ b, ∀ c ∈ w.buffers.get b, ∀ r, c.opened.content = .view r → w.views.Has r

theorem abreast_forgetful (h : World.empty.Moves w) (hw : w.HoldsOwn) :
    Course.Abreast (fun r q => r = q ∧ w.views.Has r) ⟨w, []⟩ ⟨w.forgetful, []⟩ := by
  have hsound : w.Sound := (h.leads sound_empty).1
  have hget : ∀ p, w.forgetful.presenters.get p = { w.presenters.get p with known := none } := by
    intro p
    simp only [forgetful, Store.get, Array.getElem?_map]
    cases w.presenters.items[p.index]? <;> rfl
  have hparallels : Parallels (fun r q => r = q ∧ w.views.Has r) w w.forgetful :=
    ⟨rfl, rfl, rfl, rfl, rfl, rfl, rfl, rfl, rfl, fun _ => rfl, hget, by
      rintro r _ ⟨rfl, hr⟩
      exact ⟨hr, hr, rfl⟩, fun b c hc r hr => ⟨rfl, hw b c hc r hr⟩⟩
  refine ⟨hparallels, h, ?_, .nil⟩
  have hknown : ∀ p known, (w.forgetful.presenters.get p).known = some known →
      ∀ e ∈ known, w.forgetful.views.Has e.2 := by
    intro p known hknown
    rw [hget] at hknown
    cases hknown
  exact { hsound with known := hknown }

end World

namespace Presenter

/-- Each view that is handed out stands in for a new one, and in a whole run nothing but views and
their prototypes tells whether they are reused. Nor do the prototypes tell it while all views are in one
scope, of which the constructor of arrays stays. -/
theorem concurs_without_reuse {w : World} (h : World.empty.Moves w) :
    (∀ (p : Ref .presenter) (a : Ref .array) (scope : Value), (w.arrays.get a).shape ≠ [] →
      ∃ r v q u, present p (.array a) scope w = .ok (.view r) v ∧
        present p (.array a) scope (w.forgetting p) = .ok (.view q) u ∧
        StandsIn w p a scope r v q u) ∧
    (w.HoldsOwn → ∀ xs : List Crossing, (∀ x ∈ xs, x.IsPlain) →
      (w.play xs).Agrees (w.forgetful.play xs) ∧
      ∀ scope y, w.Steady scope y → (∀ x ∈ xs, x.IsWithin scope) → ∀ r q,
        TwinViews (w.play xs).world.views (w.forgetful.play xs).world.views r q →
        (w.play xs).world.resolved? r = .ok y ∧ (w.forgetful.play xs).world.resolved? q = .ok y) := by
  refine ⟨fun p a scope hs => present_standsIn h p hs scope, fun hw xs hxs => ?_⟩
  obtain ⟨⟨P, habreast⟩, hsteady⟩ := (abreast_forgetful h hw).run hxs
  refine ⟨habreast.agrees, fun scope y hy hwithin r q htwins => ?_⟩
  have hforgetful : w.forgetful.Steady scope y := hy.of_confines (confines_of_eq rfl rfl rfl rfl)
  obtain ⟨hleft, hright⟩ := hsteady hwithin hy hforgetful
  exact ⟨hleft.resolved? htwins.left, hright.resolved? htwins.right⟩

end Presenter

def tenancy : World := World.empty.afterAll [
  .createEnvironment reusing,
  .newScope none,
  .buildArray (.native (.int true 1)) [2] [],
  .present ⟨1⟩ (.array ⟨1⟩) (.scope ⟨0⟩),
  .findPrototype ⟨0⟩]

def tenancies : World := { tenancy with inUse := [.view ⟨0⟩] }

theorem moves_tenancies : World.empty.Moves tenancies := by
  have hops : World.empty.Moves tenancy := by
    apply moves_afterAll
    simp [Operation.IsProper, CellType.native, Content.IsProper]
  exact .trans hops (Step.settle tenancy tenancy.threshold tenancy.log [.view ⟨0⟩]).moves

theorem holdsOwn_tenancies : tenancies.HoldsOwn := by
  have hcells : ∀ cells ∈ tenancies.buffers.items, ∀ c ∈ cells, c = .int 0 := by decide +kernel
  intro b c hc r hr
  have hb : tenancies.buffers.Has b := by
    by_contra hno
    rw [Store.get_of_not_has _ hno] at hc
    exact absurd hc (Array.not_mem_empty c)
  have hmem : tenancies.buffers.get b ∈ tenancies.buffers.items := by
    rw [Store.get, Array.getElem?_eq_getElem hb]
    exact Array.getElem_mem hb
  rw [hcells _ hmem c hc] at hr
  cases hr

theorem steady_tenancies : tenancies.Steady (.scope ⟨0⟩) (.record ⟨1⟩) := by
  have hprovides : tenancies.Provides (.scope ⟨0⟩) (tenancies.prototypeOf (.function ⟨0⟩)) :=
    .function (by decide +kernel)
  have honly : ∀ r, tenancies.views.Has r → r = ⟨0⟩ := by
    intro r hr
    have hsize : tenancies.views.items.size = 1 := by decide +kernel
    rw [Store.Has, hsize] at hr
    exact congrArg Ref.mk (Nat.lt_one_iff.mp hr)
  refine ⟨?_, fun r hr => ?_, fun r hr y hy => ?_⟩
  · have hprototype : tenancies.prototypeOf (.function ⟨0⟩) = .record ⟨1⟩ := by decide +kernel
    exact hprototype ▸ hprovides
  · rw [honly r hr]
    decide +kernel
  · rw [honly r hr] at hy
    have hfound : (tenancies.views.get ⟨0⟩).prototype = some (.record ⟨1⟩) := by decide +kernel
    exact Option.some.inj (hy.symm.trans hfound)

def renewal : List Crossing := [
  .present ⟨1⟩ ⟨1⟩ (.scope ⟨0⟩), .write 0 1 (.int 7), .read 0 1, .resolve 0]

/-- For the other scope the view is handed out again with the prototype of the first one, where a new
view would have none. For the first scope it does not show that the view is handed out again. -/
theorem Presenter.prototype_tells_reuse :
    (∃ v q u, present ⟨1⟩ (.array ⟨1⟩) (.scope ⟨1⟩) tenancies = .ok (.view ⟨0⟩) v ∧
      StandsIn tenancies ⟨1⟩ ⟨1⟩ (.scope ⟨1⟩) ⟨0⟩ v q u ∧
      v.resolved? ⟨0⟩ = .ok (.record ⟨1⟩) ∧ u.resolved? q = .ok .null) ∧
    (tenancies.play renewal).Agrees (tenancies.forgetful.play renewal) ∧
    viewAt? (tenancies.play renewal).answers 0 = some ⟨0⟩ ∧
    viewAt? (tenancies.forgetful.play renewal).answers 0 = some ⟨1⟩ ∧
    (tenancies.play renewal).world.resolved? ⟨0⟩ = .ok (.record ⟨1⟩) ∧
    (tenancies.forgetful.play renewal).world.resolved? ⟨1⟩ = .ok (.record ⟨1⟩) := by
  obtain ⟨hcross, hrun⟩ := concurs_without_reuse moves_tenancies
  obtain ⟨hagrees, hsteady⟩ := hrun holdsOwn_tenancies renewal (by
    simp [renewal, Crossing.IsPlain, Value.IsPrimitive])
  have hleft : viewAt? (tenancies.play renewal).answers 0 = some ⟨0⟩ := by decide +kernel
  have hright : viewAt? (tenancies.forgetful.play renewal).answers 0 = some ⟨1⟩ := by decide +kernel
  refine ⟨?_, hagrees, hleft, hright, ?_⟩
  · obtain ⟨r, v, q, u, hv, -, hstands⟩ := hcross ⟨1⟩ ⟨1⟩ (.scope ⟨1⟩) (by decide +kernel)
    have hr : tenancies.answer (present ⟨1⟩ (.array ⟨1⟩) (.scope ⟨1⟩)) = .ok (.view ⟨0⟩) := by
      decide +kernel
    cases hr.symm.trans (answer_of_ok hv)
    obtain rfl : v = tenancies.handing ⟨0⟩ := hstands.kept (by decide +kernel)
    have hbare : tenancies.Provides (.scope ⟨1⟩) .null := .bare (by decide +kernel)
    exact ⟨_, q, u, hv, hstands, by decide +kernel, (hstands.resolved _ hbare).1⟩
  · rcases viewAt?_cases hagrees.answers 0 with ⟨hnone, -⟩ | ⟨r, q, hr, hq, htwins⟩
    · cases hnone.symm.trans hleft
    · cases hr.symm.trans hleft
      cases hq.symm.trans hright
      exact hsteady _ _ steady_tenancies (by simp [renewal, Crossing.IsWithin]) _ _ htwins

end ScriptedArrays
