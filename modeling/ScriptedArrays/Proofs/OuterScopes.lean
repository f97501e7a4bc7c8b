import ScriptedArrays.Proofs.Lookups

/-! Outermost scopes. The parents of a scope lead either to an outermost scope, which has none, or
to a scope that lies within itself. The prototype of a view is looked up in the outermost scope, and
only scopes within themselves make that fail. -/

open Relation

namespace ScriptedArrays

namespace World

def LiesIn (w : World) (s t : Ref .scope) : Prop := (w.scopes.get s).parent = some t

/-- The parents of a scope lead to one that lies within itself. -/
def Circles (w : World) (s : Ref .scope) : Prop :=
  ∃ t, ReflTransGen w.LiesIn s t ∧ TransGen w.LiesIn t t

structure IsOutermost (w : World) (s top : Ref .scope) : Prop where
  around : ReflTransGen w.LiesIn s top
  last : (w.scopes.get top).parent = none

def prototypeIn (w : World) (top : Ref .scope) : Value :=
  match ((w.bindings top).get? "Array").getD .null with
  | .null => .null
  | c => w.prototypeOf c

section

variable {w : World} {s t top : Ref .scope}

theorem has_of_liesIn (h : w.LiesIn s t) : w.scopes.Has s := by
  by_contra hno
  rw [LiesIn, Store.get_of_not_has _ hno] at h
  cases h

theorem liesIn_unique : Relator.RightUnique w.LiesIn :=
  fun _ _ _ h h' => Option.some.inj (Eq.trans (Eq.symm h) h')

/-- A walk that comes back has met a scope that lies within itself. What was visited before leads
to where the walk goes on, and there are no more scopes to visit than there are. -/
theorem circles_of_chainFrom {fuel : Nat} {visited : List (Ref .scope)} (hn : visited.Nodup)
    (hv : ∀ v ∈ visited, TransGen w.LiesIn v s) (hf : w.scopes.size < fuel + visited.length)
    (h : (w.chainFrom fuel visited s).cyclic = true) : w.Circles s := by
  induction fuel generalizing visited s with
  | zero =>
    have hlen : visited.length ≤ w.scopes.size := by
      refine length_visited_le hn fun v hmem => ?_
      obtain ⟨u, hu, -⟩ := TransGen.head'_iff.mp (hv v hmem)
      exact has_of_liesIn hu
    omega
  | succ fuel ih =>
    rw [chainFrom] at h
    split at h
    · rename_i hmem
      exact ⟨s, .refl, hv s hmem⟩
    · rename_i hmem
      split at h
      · cases h
      · rename_i p hp
        have hv' : ∀ v ∈ s :: visited, TransGen w.LiesIn v p := by
          intro v hin
          rcases List.mem_cons.mp hin with rfl | hin
          · exact .single hp
          · exact (hv v hin).tail hp
        obtain ⟨t, ht, hc⟩ := ih (List.nodup_cons.mpr ⟨hmem, hn⟩) hv'
          (by rw [List.length_cons]; omega) h
        exact ⟨t, .head hp ht, hc⟩

theorem isOutermost_of_chainFrom {fuel : Nat} {visited : List (Ref .scope)}
    (h : (w.chainFrom fuel visited s).cyclic = false) (s' : Ref .scope) :
    w.IsOutermost s ((w.chainFrom fuel visited s).scopes.getLastD s') := by
  induction fuel generalizing visited s s' with
  | zero => cases h
  | succ fuel ih =>
    rw [chainFrom] at h ⊢
    split at h
    · cases h
    · rename_i hmem
      rw [if_neg hmem]
      split at h
      · rename_i hp
        exact ⟨.refl, hp⟩
      · rename_i p hp
        dsimp only at h ⊢
        rw [List.getLastD_cons]
        obtain ⟨haround, hlast⟩ := ih h s
        exact ⟨.head hp haround, hlast⟩

theorem IsOutermost.of_around (h : w.IsOutermost s top) (ht : ReflTransGen w.LiesIn s t) :
    w.IsOutermost t top := by
  refine ⟨?_, h.last⟩
  rcases ReflTransGen.total_of_right_unique liesIn_unique ht h.around with hto | hfrom
  · exact hto
  · rcases ReflTransGen.cases_head hfrom with rfl | ⟨u, hu, -⟩
    · exact .refl
    · rw [LiesIn, h.last] at hu
      cases hu

theorem IsOutermost.unique (h : w.IsOutermost s top) (h' : w.IsOutermost s t) : top = t := by
  rcases ReflTransGen.cases_head (h.of_around h'.around).around with rfl | ⟨u, hu, -⟩
  · rfl
  · rw [LiesIn, h'.last] at hu
    cases hu

theorem IsOutermost.not_circles (h : w.IsOutermost s top) : ¬ w.Circles s := by
  rintro ⟨t, ht, hc⟩
  -- from a scope within itself the way back is never shorter than the way on
  have hback : ∀ u, TransGen w.LiesIn u u → ∀ v, ReflTransGen w.LiesIn u v → TransGen w.LiesIn v v := by
    intro u hu v huv
    induction huv with
    | refl => exact hu
    | @tail b c _ hbc ih =>
      obtain ⟨d, hd, hrest⟩ := TransGen.head'_iff.mp ih
      rw [liesIn_unique hbc hd]
      exact TransGen.tail' hrest hd
  have htop := hback t hc top (h.of_around ht).around
  obtain ⟨u, hu, -⟩ := TransGen.head'_iff.mp htop
  rw [LiesIn, h.last] at hu
  cases hu

theorem cyclic_chain_iff : (w.chain s).cyclic = true ↔ w.Circles s := by
  constructor
  · intro h
    exact circles_of_chainFrom List.nodup_nil (fun _ hv => absurd hv List.not_mem_nil)
      (Nat.lt_succ_self _) h
  · intro hc
    by_contra hno
    have hends : (w.chain s).cyclic = false := by simpa using hno
    exact (isOutermost_of_chainFrom hends s).not_circles hc

theorem topLevel_of_circles (h : w.Circles s) : w.topLevel s = .error .cyclicScopes := by
  rw [topLevel, if_pos (cyclic_chain_iff.mpr h)]

theorem topLevel_of_isOutermost (h : w.IsOutermost s top) : w.topLevel s = .ok top := by
  have hno : ¬ (w.chain s).cyclic = true := fun hc => h.not_circles (cyclic_chain_iff.mp hc)
  have hends : (w.chain s).cyclic = false := by simpa using hno
  rw [topLevel, if_neg hno]
  exact congrArg Except.ok ((isOutermost_of_chainFrom hends s).unique h)

theorem circles_or_isOutermost (w : World) (s : Ref .scope) :
    w.Circles s ∨ ∃ top, w.IsOutermost s top := by
  cases h : (w.chain s).cyclic with
  | true => exact .inl (cyclic_chain_iff.mp h)
  | false => exact .inr ⟨_, isOutermost_of_chainFrom h s⟩

theorem binding?_of_last (h : (w.scopes.get top).parent = none) (name : String) :
    w.binding? top name = .ok ((w.bindings top).get? name) := by
  have hchain : w.chain top = ⟨[top], false⟩ := by
    rw [chain, chainFrom, if_neg List.not_mem_nil, h]
  rw [binding?, owner, hchain]
  by_cases hb : w.binds name top = true
  · simp only [List.find?_cons_of_pos hb]
    rfl
  · have hnone : (w.bindings top).get? name = none := by
      rw [binds, Entries.has_eq_isSome] at hb
      simpa using hb
    simp only [List.find?_cons_of_neg hb, hnone]
    rfl

theorem prototypeAt_of_isOutermost (h : w.IsOutermost s top) :
    w.prototypeAt s = .ok (w.prototypeIn top) := by
  have hc : w.constructor? s = .ok (((w.bindings top).get? "Array").getD .null) := by
    rw [constructor?, topLevel_of_isOutermost h]
    show (w.binding? top "Array" >>= fun c => Except.ok (c.getD .null)) = _
    rw [binding?_of_last h.last]
    rfl
  rw [prototypeAt, hc, prototypeIn]
  cases ((w.bindings top).get? "Array").getD .null <;> rfl

theorem prototypeAt_of_circles (h : w.Circles s) : w.prototypeAt s = .error .cyclicScopes := by
  rw [prototypeAt, constructor?, topLevel_of_circles h]
  rfl

end

end World
end ScriptedArrays
