import ScriptedArrays.Proofs.Lookups
import ScriptedArrays.Proofs.SlotAccess

/-! Moves. Whatever is done, the world goes on by moves of a few kinds: presenters hand out views,
views find their prototypes, and everything else leaves the views alone. What holds along all moves
holds along everything that is made of them. -/

namespace ScriptedArrays

open World

theorem keeps_arrayPrototype {R : World → World → Prop} [IsPreorder World R] [Tolerant R]
    (scope : Ref .scope) : Keeps R (arrayPrototype scope) := by
  refine .bind (.ask _) fun top => .bind (.ask _) fun found => ?_
  split
  · exact .bind (keeps_logEvent _) fun _ => .pure _
  · exact .look _

theorem View.leads_findPrototype (r : Ref .view) : Keeps Leads (View.findPrototype r) := by
  intro w h
  have hnoted : ∀ requests log, w.Leads { w with requests, log } :=
    fun _ _ => leads_of_eq rfl rfl rfl rfl
  obtain ⟨l, hl⟩ := View.findPrototype_eq r w
  cases hr : w.resolved? r with
  | error f =>
    rw [hr] at hl
    rw [after_of_error hl]
    exact hnoted _ _ h
  | ok p =>
    rw [hr] at hl
    rw [after_of_ok hl]
    obtain ⟨hs, he⟩ := hnoted (w.requests ++ View.asks w r) l h
    obtain ⟨hs', he'⟩ := hs.set_prototype r (some p)
    exact ⟨hs', he.trans he'⟩

namespace World

/-- Moves one after the other. A presenter hands out a view of an array only if it may, and the
prototypes of no other views are looked up than those that are asked for them. -/
inductive MovesIf (may : World → Ref .presenter → Ref .array → Prop) (asks : Ref .view → Prop) :
    World → World → Prop
  | refl (w : World) : MovesIf may asks w w
  | trans {u v w : World} (first : MovesIf may asks u v) (rest : MovesIf may asks v w) :
      MovesIf may asks u w
  /-- Views are left alone. -/
  | other {w w' : World} (h : w.Leads w') (hs : w.Spares w') : MovesIf may asks w w'
  /-- It is settled where the arrays to come will lie. -/
  | place (w : World) (address : Ref .array → Nat)
      (h : ∀ a, w.arrays.Has a → address a = w.address a) :
      MovesIf may asks w { w with address }
  | newPresenter (w : World) (s : Settings) : MovesIf may asks w (w.after (newPresenter s))
  | newView (w : World) (scope : Value) (array : Ref .array) (p : Ref .presenter)
      (truncates : Option Bool) (counted : Bool) :
      MovesIf may asks w (w.after (newView scope array p truncates counted))
  | handOut (w : World) (p : Ref .presenter) (array : Ref .array) (scope : Value)
      (h : may w p array) (hs : (w.arrays.get array).shape ≠ []) :
      MovesIf may asks w (w.after (Presenter.viewOf p array scope))
  | findPrototype (w : World) (q : Ref .view) (h : asks q) :
      MovesIf may asks w (w.after (View.findPrototype q))

abbrev MovesAsking (asks : Ref .view → Prop) : World → World → Prop :=
  MovesIf (fun _ _ _ => True) asks

abbrev Moves : World → World → Prop := MovesAsking fun _ => True

abbrev MovesBut (q : Ref .view) : World → World → Prop := MovesAsking (· ≠ q)

variable {may : World → Ref .presenter → Ref .array → Prop} {asks : Ref .view → Prop}

instance : IsPreorder World (MovesIf may asks) where
  refl := .refl
  trans _ _ _ := .trans

instance : Tolerant (MovesIf may asks) := ⟨fun h => .other (Tolerant.plain h) h.toSpares⟩

theorem MovesIf.mono {may' : World → Ref .presenter → Ref .array → Prop} {asks' : Ref .view → Prop}
    (hmay : ∀ w p a, may w p a → may' w p a) (hasks : ∀ q, asks q → asks' q) {w w' : World}
    (h : MovesIf may asks w w') : MovesIf may' asks' w w' := by
  induction h with
  | refl w => exact .refl w
  | trans _ _ ih ih' => exact .trans ih ih'
  | other h hs => exact .other h hs
  | place w address h => exact .place w address h
  | newPresenter w s => exact .newPresenter w s
  | newView w scope array p truncates counted => exact .newView w scope array p truncates counted
  | handOut w p array scope h hs => exact .handOut w p array scope (hmay w p array h) hs
  | findPrototype w q h => exact .findPrototype w q (hasks q h)

theorem MovesIf.leads {w w' : World} (h : MovesIf may asks w w') : w.Leads w' := by
  induction h with
  | refl w => exact refl_of Leads w
  | trans _ _ ih ih' => exact trans_of Leads ih ih'
  | other h _ => exact h
  | place w address _ => exact leads_of_eq rfl rfl rfl rfl
  | newPresenter w s => exact leads_newPresenter s w
  | newView w scope array p truncates counted =>
    exact leads_of_reads (reads_newView scope array p truncates counted) w
  | handOut w p array scope _ hs =>
    exact fun h => ⟨(Presenter.reads_viewOf p scope hs h).1, (Presenter.reads_viewOf p scope hs h).2.1⟩
  | findPrototype w q _ => exact View.leads_findPrototype q w

end World

variable {α : Type} {act : Action α} {asks : Ref .view → Prop}

theorem leads_of_moves (h : Keeps Moves act) : Keeps Leads act := fun w => (h w).leads

theorem moves_of_spares (h : Keeps Leads act) (hs : Keeps Spares act) : Keeps (MovesAsking asks) act :=
  fun w => .other (h w) (hs w)

theorem moves_present (p : Ref .presenter) (v scope : Value) :
    Keeps (MovesAsking asks) (Presenter.present p v scope) :=
  Presenter.keeps_present (fun w r hs => .handOut w p r scope True.intro hs) v

namespace View

theorem moves_getIndex (r : Ref .view) (i : Value) : Keeps (MovesAsking asks) (getIndex r i) := by
  simp only [getIndex]
  refine .bind (.look _) fun view => .bind .get fun _ => .bind (.orFail _) fun b => ?_
  refine .ite (fun w => ?_) (.pure _)
  rw [after_look_bind]
  refine related_after_bind (.other (fun h => ?_) (spares_hostSlot _ i w)) fun x v _ => moves_present _ x _ v
  exact leads_hostSlot (h.shows _) i h

theorem moves_verdict (v : Verdict) : Keeps (MovesAsking asks) v.value :=
  moves_of_spares (leads_verdict v) (spares_verdict v)

theorem moves_hasIndex (r : Ref .view) (i : Value) : Keeps (MovesAsking asks) (hasIndex r i) :=
  .bind .get fun _ => .bind (.look _) fun _ => .bind (.orFail _) fun v => moves_verdict v

theorem moves_setIndex (r : Ref .view) (i v : Value) : Keeps (MovesAsking asks) (setIndex r i v) :=
  moves_of_spares (leads_setIndex r i v) (spares_setIndex r i v)

theorem moves_elementsFrom (r : Ref .view) (indices earlier : List Value) :
    Keeps (MovesAsking asks) (elementsFrom r earlier indices) := by
  induction indices generalizing earlier with
  | nil => exact .pure _
  | cons i rest ih =>
    exact .bind (keeps_holding _ (moves_getIndex r i)) fun v => .bind (ih _) fun _ => .pure _

theorem moves_elements (r : Ref .view) : Keeps (MovesAsking asks) (elements r) :=
  .bind (.look _) fun _ => moves_elementsFrom r _ _

end View

theorem View.moves_findPrototype (r : Ref .view) : Keeps Moves (findPrototype r) :=
  fun w => .findPrototype w r True.intro

theorem moves_members : KeepsMembers (MovesAsking asks) where
  newTuple := keeps_newTuple
  newFunction := keeps_newFunction
  present := moves_present

theorem moves_parts : KeepsParts Moves where
  toKeepsMembers := moves_members
  findPrototype := View.moves_findPrototype

theorem Box.moves_own (r : Ref .box) (name : String) : Keeps (MovesAsking asks) (Box.own r name) :=
  moves_members.own r name

namespace Property

theorem moves_read (v : Value) (name : String) : Keeps Moves (read v name) :=
  .bind .get fun _ => (moves_parts.lookup _).1 v name

theorem moves_has (v : Value) (name : String) : Keeps Moves (has v name) :=
  .bind .get fun _ => (moves_parts.lookup _).2 v name

end Property

theorem View.moves_own (r : Ref .view) (name : String) : Keeps Moves (View.own r name) :=
  moves_parts.ownBy Property.moves_has r name

end ScriptedArrays
