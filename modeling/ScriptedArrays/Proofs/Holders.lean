import Mathlib
import ScriptedArrays.Reach

/-! Holders. What holds an object, directly or through others, is found by going from the object to
its holders step by step. There are only so many objects, so nothing is left out, and whatever keeps
an object keeps what it holds. -/

open Relation

namespace ScriptedArrays
namespace World

def IsHeldBy (w : World) (v o : Value) : Prop := o ∈ w.objects ∧ ∃ x ∈ w.held o, x.anchor = v

section

variable {w : World} {u v o : Value} {vs : List Value}

theorem mem_holdersOf : o ∈ w.holdersOf vs ↔ ∃ v ∈ vs, w.IsHeldBy v o := by
  rw [holdersOf, List.mem_filter, List.any_eq_true]
  constructor
  · rintro ⟨ho, x, hx, hv⟩
    exact ⟨_, List.contains_iff_mem.mp hv, ho, x, hx, rfl⟩
  · rintro ⟨v, hv, ho, x, hx, rfl⟩
    exact ⟨ho, x, hx, List.contains_iff_mem.mpr hv⟩

theorem length_objects_le (w : World) : w.objects.length ≤ w.size + w.views.size := by
  simp only [objects, size, List.length_append, List.length_map, List.length_range]
  omega

theorem sound_holdersFrom {steps : Nat} {found fresh : List Value}
    (hfound : ∀ o ∈ found, TransGen w.IsHeldBy v o)
    (hfresh : ∀ o ∈ fresh, ReflTransGen w.IsHeldBy v o) :
    ∀ o ∈ w.holdersFrom steps found fresh, TransGen w.IsHeldBy v o := by
  induction steps generalizing found fresh with
  | zero => exact hfound
  | succ steps ih =>
    rw [holdersFrom]
    split
    · exact hfound
    · rename_i hne
      have hmore : ∀ o ∈ (w.holdersOf fresh).filter (!found.contains ·), TransGen w.IsHeldBy v o := by
        intro o ho
        obtain ⟨x, hx, hxo⟩ := mem_holdersOf.mp (List.mem_filter.mp ho).1
        exact .tail' (hfresh x hx) hxo
      refine ih (fun o ho => ?_) fun o ho => (hmore o ho).to_reflTransGen
      rcases List.mem_append.mp ho with ho | ho
      · exact hmore o ho
      · exact hfound o ho

theorem fewer_left {found more : List Value} (ho : o ∈ w.objects) (hnew : o ∉ found)
    (hmore : o ∈ more) : (w.objects.filter (!(more ++ found).contains ·)).length <
      (w.objects.filter (!found.contains ·)).length := by
  have hleft : w.objects.filter (!(more ++ found).contains ·) =
      (w.objects.filter (!found.contains ·)).filter (!more.contains ·) := by
    rw [List.filter_filter]
    refine List.filter_congr fun x _ => ?_
    simp
  rw [hleft, List.length_filter_lt_length_iff_exists]
  exact ⟨o, List.mem_filter.mpr ⟨ho, by simpa using hnew⟩, by simpa using hmore⟩

/-- Every step finds a further object, so nothing that holds what was found is left out. -/
theorem closed_holdersFrom {steps : Nat} {found fresh : List Value}
    (hsteps : (w.objects.filter (!found.contains ·)).length < steps)
    (hclosed : ∀ x ∈ v :: found, x ∉ fresh → ∀ o, w.IsHeldBy x o → o ∈ found) :
    ∀ x ∈ v :: w.holdersFrom steps found fresh, ∀ o, w.IsHeldBy x o →
      o ∈ w.holdersFrom steps found fresh := by
  induction steps generalizing found fresh with
  | zero => exact absurd hsteps (Nat.not_lt_zero _)
  | succ steps ih =>
    rw [holdersFrom]
    have hmore : ∀ x ∈ fresh, ∀ o, w.IsHeldBy x o → o ∉ found →
        o ∈ (w.holdersOf fresh).filter (!found.contains ·) := fun x hx o ho hno =>
      List.mem_filter.mpr ⟨mem_holdersOf.mpr ⟨x, hx, ho⟩, by simpa using hno⟩
    split
    · rename_i hnone
      intro x hx o ho
      by_cases hfresh : x ∈ fresh
      · by_contra hno
        have hmem := hmore x hfresh o ho hno
        rw [hnone] at hmem
        cases hmem
      · exact hclosed x hx hfresh o ho
    · rename_i hne
      refine ih ?_ ?_
      · obtain ⟨o, ho⟩ := List.exists_mem_of_ne_nil _ hne
        obtain ⟨hholder, hnew⟩ := List.mem_filter.mp ho
        obtain ⟨-, -, hobject, -⟩ := mem_holdersOf.mp hholder
        have hlt := fewer_left hobject (by simpa using hnew) ho
        omega
      · intro x hx hnew o ho
        rw [List.mem_append]
        by_cases hin : o ∈ found
        · exact .inr hin
        · left
          by_cases hfresh : x ∈ fresh
          · exact hmore x hfresh o ho hin
          · have hold : x ∈ v :: found := by
              rw [List.mem_cons, List.mem_append] at hx
              rw [List.mem_cons]
              tauto
            exact absurd (hclosed x hold hfresh o ho) hin

theorem mem_holders_iff : o ∈ w.holders v ↔ TransGen w.IsHeldBy v o := by
  constructor
  · refine sound_holdersFrom (fun _ h => absurd h List.not_mem_nil) (fun x hx => ?_) o
    rw [List.mem_singleton.mp hx]
  · intro h
    have hsteps :
        (w.objects.filter (!([] : List Value).contains ·)).length < w.size + w.views.size + 1 :=
      Nat.lt_succ_of_le (Nat.le_trans (List.length_filter_le _ _) w.length_objects_le)
    have hclosed : ∀ x ∈ v :: w.holders v, ∀ o, w.IsHeldBy x o → o ∈ w.holders v :=
      closed_holdersFrom hsteps fun x hx hno =>
        absurd (List.mem_singleton.mpr (List.mem_singleton.mp hx)) hno
    induction h with
    | single h => exact hclosed v List.mem_cons_self _ h
    | tail _ h ih => exact hclosed _ (List.mem_cons_of_mem _ ih) _ h

theorem isKept_of_isHeldBy (h : w.IsHeldBy v o) (ho : w.isKept o = true) : w.isKept v = true := by
  have hsub : ∀ x ∈ o :: w.holders o, x ∈ v :: w.holders v := by
    intro x hx
    refine List.mem_cons_of_mem _ (mem_holders_iff.mpr ?_)
    rcases List.mem_cons.mp hx with rfl | hx
    · exact .single h
    · exact .head h (mem_holders_iff.mp hx)
  have hany : ∀ f : Value → Bool, (o :: w.holders o).any f = true → (v :: w.holders v).any f = true := by
    intro f hf
    obtain ⟨x, hx, hfx⟩ := List.any_eq_true.mp hf
    exact List.any_eq_true.mpr ⟨x, hsub x hx, hfx⟩
  rw [isKept, Bool.or_eq_true] at ho ⊢
  exact ho.imp (hany _) (hany _)

theorem isKept_array {r : Ref .view} (hr : w.views.Has r) (h : w.isKept (.view r) = true) :
    w.isKept (.array (w.views.get r).array) = true := by
  have hobject : .view r ∈ w.objects := by
    have hmem : .view r ∈ (List.range w.views.size).map fun i => Value.view ⟨i⟩ :=
      List.mem_map.mpr ⟨r.index, List.mem_range.mpr hr, rfl⟩
    simp only [objects, List.mem_append]
    exact .inl (.inl (.inr hmem))
  exact isKept_of_isHeldBy ⟨hobject, .array (w.views.get r).array, List.mem_cons_self, rfl⟩ h

end

end World
end ScriptedArrays
