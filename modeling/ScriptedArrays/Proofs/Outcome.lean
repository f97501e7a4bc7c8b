import Mathlib
import ScriptedArrays.Action

/-! Worlds before and after actions. A preorder on worlds is kept by an action if every
world is related to the world after the action, however the action ends; an action that is
composed of such actions keeps the preorder too. -/

namespace ScriptedArrays

variable {α β : Type}

def World.after (w : World) (act : Action α) : World :=
  match act w with
  | .ok _ w' => w'
  | .error _ w' => w'

/-- What an action answers in a world, whatever it does to it. -/
def World.answer (w : World) (act : Action α) : Except Fault α :=
  match act w with
  | .ok a _ => .ok a
  | .error f _ => .error f

namespace World

theorem answer_of_ok {act : Action α} {w w' : World} {a : α} (h : act w = .ok a w') :
    w.answer act = .ok a := by
  rw [answer, h]

theorem answer_of_error {act : Action α} {w w' : World} {f : Fault} (h : act w = .error f w') :
    w.answer act = .error f := by
  rw [answer, h]

theorem after_of_ok {act : Action α} {w w' : World} {a : α} (h : act w = .ok a w') :
    w.after act = w' := by
  rw [after, h]

theorem after_of_error {act : Action α} {w w' : World} {f : Fault} (h : act w = .error f w') :
    w.after act = w' := by
  rw [after, h]

theorem after_get_bind (w : World) (f : World → Action β) : w.after (get >>= f) = w.after (f w) := rfl

theorem after_look_bind (w : World) (g : World → α) (f : α → Action β) :
    w.after (look g >>= f) = w.after (f (g w)) := rfl

theorem after_bind_of_ok {x : Action α} {w w' : World} {a : α} (f : α → Action β)
    (h : x w = .ok a w') : w.after (x >>= f) = w'.after (f a) := by
  simp only [after, bind, EStateM.bind, h]

theorem after_bind_of_error {x : Action α} {w w' : World} {e : Fault} (f : α → Action β)
    (h : x w = .error e w') : w.after (x >>= f) = w' := by
  simp only [after, bind, EStateM.bind, h]

end World

theorem bind_eq_ok {x : Action α} {f : α → Action β} {w u : World} {b : β} :
    (x >>= f) w = .ok b u ↔ ∃ a v, x w = .ok a v ∧ f a v = .ok b u := by
  simp only [bind, EStateM.bind]
  cases x w with
  | ok a v =>
    constructor
    · intro h
      exact ⟨a, v, rfl, h⟩
    · rintro ⟨_, _, ⟨⟩, h⟩
      exact h
  | error e v => simp

theorem get_bind_apply (f : World → Action β) (w : World) : (get >>= f) w = f w w := rfl

theorem look_bind_apply (g : World → α) (f : α → Action β) (w : World) :
    (look g >>= f) w = f (g w) w := rfl

theorem set_bind_apply (u : World) (f : PUnit → Action β) (w : World) :
    (set u >>= f) w = f ⟨⟩ u := rfl

theorem orFail_bind_apply (a : α) (f : α → Action β) (w : World) :
    (orFail (.ok a) >>= f) w = f a w := rfl

theorem orFail_error_bind_apply (e : HostFault) (f : α → Action β) (w : World) :
    (orFail (.error e) >>= f) w = .error (.host e) w := rfl

theorem bind_apply_of_ok {x : Action α} {w w' : World} {a : α} (f : α → Action β)
    (h : x w = .ok a w') : (x >>= f) w = f a w' := by
  simp only [bind, EStateM.bind, h]

theorem bind_apply_of_error {x : Action α} {w w' : World} {e : Fault} (f : α → Action β)
    (h : x w = .error e w') : (x >>= f) w = .error e w' := by
  simp only [bind, EStateM.bind, h]

def Succeeds (act : Action α) (w : World) : Prop := ∃ a w', act w = .ok a w'

theorem succeeds_pure (a : α) (w : World) : Succeeds (pure a : Action α) w := ⟨a, w, rfl⟩

theorem succeeds_bind {x : Action α} {f : α → Action β} {w w' : World} {a : α} (h : x w = .ok a w')
    (hf : Succeeds (f a) w') : Succeeds (x >>= f) w := by
  rw [Succeeds, bind_apply_of_ok f h]
  exact hf

/-- Every run of the action leads from a world to a related one. -/
def Keeps (R : World → World → Prop) (act : Action α) : Prop := ∀ w, R w (w.after act)

section Preorder

variable {R : World → World → Prop} [IsPreorder World R]

/-- A composed action leads to a related world if the second part does so from the world in
which the first one ends well. -/
theorem related_after_bind {x : Action α} {f : α → Action β} {w : World} (hx : R w (w.after x))
    (hf : ∀ a v, x w = .ok a v → R v (v.after (f a))) : R w (w.after (x >>= f)) := by
  cases h : x w with
  | ok a v =>
    rw [World.after_bind_of_ok f h]
    rw [World.after_of_ok h] at hx
    exact trans_of R hx (hf a v h)
  | error e v =>
    rw [World.after_bind_of_error f h]
    rwa [World.after_of_error h] at hx

namespace Keeps

protected theorem pure (a : α) : Keeps R (pure a : Action α) := fun w => refl_of R w

protected theorem fail (f : Fault) : Keeps R (fail f : Action α) := fun w => refl_of R w

protected theorem failHost (f : HostFault) : Keeps R (failHost f : Action α) := fun w => refl_of R w

protected theorem orFail (e : Except HostFault α) : Keeps R (orFail e) := by
  cases e with
  | ok a => exact .pure a
  | error f => exact .failHost f

protected theorem get : Keeps R (get : Action World) := fun w => refl_of R w

protected theorem look (g : World → α) : Keeps R (look g) := fun w => refl_of R w

protected theorem ask (g : World → Except Fault α) : Keeps R (ask g) := by
  intro w
  have h : w.after (ask g) = w := by
    unfold World.after ask
    cases g w <;> rfl
  rw [h]
  exact refl_of R w

protected theorem bind {x : Action α} {f : α → Action β} (hx : Keeps R x) (hf : ∀ a, Keeps R (f a)) :
    Keeps R (x >>= f) :=
  fun w => related_after_bind (hx w) fun a v _ => hf a v

omit [IsPreorder World R] in
protected theorem ite {c : Prop} [Decidable c] {x y : Action α} (hx : Keeps R x) (hy : Keeps R y) :
    Keeps R (if c then x else y) := by
  split
  · exact hx
  · exact hy

protected theorem mapM {f : α → Action β} (xs : List α) (hf : ∀ x ∈ xs, Keeps R (f x)) :
    Keeps R (xs.mapM f) := by
  induction xs with
  | nil =>
    rw [List.mapM_nil]
    exact .pure _
  | cons x xs ih =>
    rw [List.mapM_cons]
    refine (hf x List.mem_cons_self).bind fun y => ?_
    exact (ih fun z hz => hf z (List.mem_cons_of_mem _ hz)).bind fun ys => .pure _

end Keeps
end Preorder

theorem Keeps.modify {R : World → World → Prop} {f : World → World} (h : ∀ w, R w (f w)) :
    Keeps R (modify f : Action Unit) := h

theorem Keeps.modifyGet {R : World → World → Prop} {f : World → α × World} (h : ∀ w, R w (f w).2) :
    Keeps R (modifyGet f : Action α) := h

end ScriptedArrays
