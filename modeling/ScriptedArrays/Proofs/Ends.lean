import Mathlib

/-! Steps that end. A partial step leads from one thing to the next one, until there is none.
If that ends nothing is met twice, so there are no more steps than things that have a next
one. If there are only so many such things and it does not end, something leads back to itself. -/

open Relation

namespace ScriptedArrays

variable {α : Type} {next : α → Option α}

/-- From something there are `n` steps, and then no further one. -/
inductive Ends (next : α → Option α) : Nat → α → Prop
  | here {a : α} (h : next a = none) : Ends next 0 a
  | there {a b : α} {n : Nat} (h : next a = some b) (rest : Ends next n b) : Ends next (n + 1) a

namespace Ends

theorem rest_of_some {a b : α} {n : Nat} (hn : Ends next n a) (hb : next a = some b) :
    ∃ m, n = m + 1 ∧ Ends next m b := by
  cases hn with
  | here h =>
    rw [h] at hb
    cases hb
  | @there _ b' m h rest =>
    have hsame : b' = b := by
      rw [h] at hb
      exact Option.some.inj hb
    exact ⟨m, rfl, hsame ▸ rest⟩

theorem unique {a : α} {m n : Nat} (hm : Ends next m a) (hn : Ends next n a) : m = n := by
  induction hm generalizing n with
  | here h =>
    cases hn with
    | here _ => rfl
    | there h' _ =>
      rw [h] at h'
      cases h'
  | there h _ ih =>
    obtain ⟨k, rfl, rest⟩ := hn.rest_of_some h
    rw [ih rest]

theorem congr {next' : α → Option α} {p : α → Prop} (heq : ∀ a, p a → next' a = next a)
    (hp : ∀ a b, p a → next a = some b → p b) {a : α} {n : Nat} (ha : p a) :
    Ends next' n a ↔ Ends next n a := by
  constructor
  · intro h
    induction h with
    | here h => exact .here ((heq _ ha).symm.trans h)
    | there h _ ih =>
      have h' := (heq _ ha).symm.trans h
      exact .there h' (ih (hp _ _ ha h'))
  · intro h
    induction h with
    | here h => exact .here ((heq _ ha).trans h)
    | there h _ ih => exact .there ((heq _ ha).trans h) (ih (hp _ _ ha h))

theorem exists_of_lt {a : α} {m n : Nat} (h : Ends next n a) (hm : m < n) :
    ∃ b c, next b = some c ∧ Ends next m c := by
  induction h with
  | here _ => exact absurd hm (Nat.not_lt_zero m)
  | there h rest ih =>
    rcases Nat.lt_succ_iff_lt_or_eq.mp hm with hlt | rfl
    · exact ih hlt
    · exact ⟨_, _, h, rest⟩

theorem le_of_index {a : α} {n size : Nat} (h : Ends next n a) (index : α → Nat)
    (hlt : ∀ b c, next b = some c → index b < size)
    (hnext : ∀ b b' c c', next b = some c → next b' = some c' → index b = index b' → c = c') :
    n ≤ size := by
  have hmet : ∀ m : Fin n, ∃ b c, next b = some c ∧ Ends next m c := fun m => h.exists_of_lt m.isLt
  choose b c hb hc using hmet
  let place : Fin n → Fin size := fun m => ⟨index (b m), hlt _ _ (hb m)⟩
  have hplace : Function.Injective place := by
    intro m m' heq
    have hsame : c m = c m' := hnext _ _ _ _ (hb m) (hb m') (congrArg Fin.val heq)
    have hm := hc m
    rw [hsame] at hm
    exact Fin.ext (hm.unique (hc m'))
  simpa using Fintype.card_le_of_injective place hplace

theorem fewer_of_transGen {a b : α} {n : Nat} (h : Ends next n a)
    (hb : TransGen (fun a b => next a = some b) a b) : ∃ m < n, Ends next m b := by
  induction hb with
  | single hab =>
    obtain ⟨m, rfl, hm⟩ := h.rest_of_some hab
    exact ⟨m, Nat.lt_succ_self m, hm⟩
  | tail _ hbc ih =>
    obtain ⟨k, hk, hends⟩ := ih
    obtain ⟨m, rfl, hm⟩ := hends.rest_of_some hbc
    exact ⟨m, by omega, hm⟩

end Ends

def Recurs (next : α → Option α) (a : α) : Prop :=
  ∃ b, ReflTransGen (fun a b => next a = some b) a b ∧ TransGen (fun a b => next a = some b) b b

theorem Ends.not_recurs {a : α} {n : Nat} (h : Ends next n a) : ¬ Recurs next a := by
  rintro ⟨b, hab, hbb⟩
  have hb : ∃ m, Ends next m b := by
    rcases reflTransGen_iff_eq_or_transGen.mp hab with rfl | hab
    · exact ⟨n, h⟩
    · obtain ⟨m, -, hm⟩ := h.fewer_of_transGen hab
      exact ⟨m, hm⟩
  obtain ⟨m, hm⟩ := hb
  obtain ⟨k, hk, hends⟩ := hm.fewer_of_transGen hbb
  exact absurd (hends.unique hm) (by omega)

open Classical in
/-- If no part of the steps takes more than `size` of them, all of them end or something recurs. -/
theorem ends_or_recurs {a : α} {size : Nat}
    (hsize : ∀ next' n, (∀ b c, next' b = some c → next b = some c) → Ends next' n a → n ≤ size) :
    (∃ n, Ends next n a) ∨ Recurs next a := by
  by_contra! hno
  obtain ⟨hends, hrecurs⟩ := hno
  -- what is met after `n` steps, which is never the same
  let met : Nat → α := fun n => (fun b => (next b).getD b)^[n] a
  have hsucc : ∀ n, (∀ m, ¬ Ends next m (met n)) → next (met n) = some (met (n + 1)) := by
    intro n hn
    obtain ⟨c, hc⟩ := Option.ne_none_iff_exists'.mp fun hnone => hn 0 (.here hnone)
    have hget : met (n + 1) = (next (met n)).getD (met n) := Function.iterate_succ_apply' _ n a
    rw [hget, hc, Option.getD_some]
  have hmet : ∀ n m, ¬ Ends next m (met n) := by
    intro n
    induction n with
    | zero => exact hends
    | succ n ih => exact fun m hm => ih (m + 1) (.there (hsucc n ih) hm)
  have hnext : ∀ n, next (met n) = some (met (n + 1)) := fun n => hsucc n (hmet n)
  have hreach : ∀ n, ReflTransGen (fun a b => next a = some b) a (met n) := by
    intro n
    induction n with
    | zero => exact .refl
    | succ n ih => exact ih.tail (hnext n)
  have hfrom : ∀ i k, TransGen (fun a b => next a = some b) (met i) (met (i + k + 1)) := by
    intro i k
    induction k with
    | zero => exact .single (hnext i)
    | succ k ih => exact ih.tail (hnext _)
  have hne : ∀ i j, i < j → met i ≠ met j := by
    intro i j hij heq
    obtain ⟨k, rfl⟩ := Nat.exists_eq_add_of_lt hij
    exact hrecurs ⟨met i, hreach i, heq ▸ hfrom i k⟩
  let next' : α → Option α := fun b => if b = met (size + 1) then none else next b
  have hfew : ∀ k ≤ size + 1, Ends next' k (met (size + 1 - k)) := by
    intro k hk
    induction k with
    | zero => exact .here (if_pos rfl)
    | succ k ih =>
      have hstep : next' (met (size + 1 - (k + 1))) = some (met (size + 1 - k)) := by
        have hpred : size + 1 - k = size + 1 - (k + 1) + 1 := by omega
        rw [hpred]
        exact (if_neg (hne _ _ (by omega))).trans (hnext _)
      exact .there hstep (ih (by omega))
  have hpart : ∀ b c, next' b = some c → next b = some c := by
    intro b c hb
    simp only [next'] at hb
    split at hb
    · cases hb
    · exact hb
  have hle := hsize next' (size + 1) hpart (by simpa [met] using hfew (size + 1) le_rfl)
  omega

end ScriptedArrays
