import ScriptedArrays.Proofs.OuterScopes

/-! Scopes in a graph of any form. The parents of a scope may lead to an end or into a cycle, and
every walk outwards ends. A name is looked up in the first scope that binds it, and an assignment
changes one binding, which the other scopes see unless a scope nearer to them binds the name. -/

open Relation

namespace ScriptedArrays

open World

namespace World

variable {w u : World} {s t p : Ref .scope} {name : String}

/-- What was visited before a walk goes on from a scope: no scope twice, scopes that lead there, and
with each of them its parent, unless the walk goes on from that. -/
structure Visited (w : World) (visited : List (Ref .scope)) (s : Ref .scope) : Prop where
  nodup : visited.Nodup
  leads : ∀ v ∈ visited, TransGen w.LiesIn v s
  closed : ∀ v ∈ visited, ∀ p, w.LiesIn v p → p ∈ visited ∨ p = s

theorem visited_nil (w : World) (s : Ref .scope) : w.Visited [] s := by
  constructor <;> simp

variable {visited : List (Ref .scope)} {fuel : Nat}

theorem Visited.cons (h : w.Visited visited s) (hs : s ∉ visited) (hp : w.LiesIn s p) :
    w.Visited (s :: visited) p where
  nodup := List.nodup_cons.mpr ⟨hs, h.nodup⟩
  leads := by
    intro v hv
    rcases List.mem_cons.mp hv with rfl | hv
    · exact .single hp
    · exact (h.leads v hv).tail hp
  closed := by
    intro v hv q hq
    rcases List.mem_cons.mp hv with rfl | hv
    · exact .inr (liesIn_unique hq hp)
    · rcases h.closed v hv q hq with hmem | rfl
      · exact .inl (List.mem_cons_of_mem s hmem)
      · exact .inl List.mem_cons_self

theorem Visited.length_le (h : w.Visited visited s) : visited.length ≤ w.scopes.size := by
  refine length_visited_le h.nodup fun v hv => ?_
  obtain ⟨u, hu, -⟩ := TransGen.head'_iff.mp (h.leads v hv)
  exact has_of_liesIn hu

theorem Visited.mem_of_around (h : w.Visited visited s) (hs : s ∈ visited)
    (ht : ReflTransGen w.LiesIn s t) : t ∈ visited := by
  induction ht with
  | refl => exact hs
  | tail _ hstep ih =>
    rcases h.closed _ ih _ hstep with hmem | rfl
    · exact hmem
    · exact hs

theorem Visited.mem_chainFrom (h : w.Visited visited s)
    (hf : w.scopes.size < fuel + visited.length) (ht : ReflTransGen w.LiesIn s t) :
    t ∈ (w.chainFrom fuel visited s).scopes ∨ t ∈ visited := by
  induction fuel generalizing visited s with
  | zero =>
    have := h.length_le
    omega
  | succ fuel ih =>
    rw [chainFrom]
    by_cases hs : s ∈ visited
    · exact .inr (h.mem_of_around hs ht)
    · rw [if_neg hs]
      rcases ReflTransGen.cases_head ht with rfl | ⟨p, hp, ht⟩
      · cases (w.scopes.get s).parent <;> simp
      · have hparent : (w.scopes.get s).parent = some p := hp
        rcases ih (h.cons hs hp) (by simp; omega) ht with hmem | hmem
        · simp [hparent, hmem]
        · simp only [List.mem_cons] at hmem
          simp only [hparent, List.mem_cons]
          tauto

theorem around_of_mem_chainFrom (h : t ∈ (w.chainFrom fuel visited s).scopes) :
    ReflTransGen w.LiesIn s t := by
  induction fuel generalizing visited s with
  | zero => simp [chainFrom] at h
  | succ fuel ih =>
    rw [chainFrom] at h
    split at h
    · simp at h
    · split at h
      · simp only [List.mem_singleton] at h
        rw [h]
      · rename_i p hp
        rcases List.mem_cons.mp h with rfl | h
        · exact .refl
        · exact .head hp (ih h)

theorem mem_chain_iff : t ∈ (w.chain s).scopes ↔ ReflTransGen w.LiesIn s t := by
  constructor
  · exact around_of_mem_chainFrom
  · intro ht
    simpa [chain] using (visited_nil w s).mem_chainFrom (by simp) ht

/-- More fuel than there are scopes changes nothing, so a walk ends for another reason. -/
theorem Visited.chainFrom_eq (h : w.Visited visited s) {more : Nat}
    (hf : w.scopes.size < fuel + visited.length) (hm : w.scopes.size < more + visited.length) :
    w.chainFrom more visited s = w.chainFrom fuel visited s := by
  induction fuel generalizing visited s more with
  | zero =>
    have := h.length_le
    omega
  | succ fuel ih =>
    obtain ⟨more, rfl⟩ : ∃ n, more = n + 1 := by
      refine Nat.exists_eq_succ_of_ne_zero ?_
      rintro rfl
      have := h.length_le
      omega
    rw [chainFrom, chainFrom]
    by_cases hs : s ∈ visited
    · rw [if_pos hs, if_pos hs]
    · rw [if_neg hs, if_neg hs]
      cases hp : (w.scopes.get s).parent with
      | none => rfl
      | some p =>
        have hrest : w.chainFrom more (s :: visited) p = w.chainFrom fuel (s :: visited) p :=
          ih (h.cons hs hp) (by simp; omega) (by simp; omega)
        simp only [hrest]

/-- The first scope that binds the name, on the way outwards from a scope. -/
inductive FirstBinds (w : World) (name : String) : Ref .scope → Ref .scope → Prop
  | here {s : Ref .scope} (hs : w.binds name s = true) : FirstBinds w name s s
  | outer {s p t : Ref .scope} (hs : w.binds name s = false) (hp : w.LiesIn s p)
      (rest : FirstBinds w name p t) : FirstBinds w name s t

theorem FirstBinds.binds (h : w.FirstBinds name s t) : w.binds name t = true := by
  induction h with
  | here hs => exact hs
  | outer _ _ _ ih => exact ih

theorem FirstBinds.around (h : w.FirstBinds name s t) : ReflTransGen w.LiesIn s t := by
  induction h with
  | here => exact .refl
  | outer _ hp _ ih => exact .head hp ih

theorem FirstBinds.unique (h : w.FirstBinds name s t) (h' : w.FirstBinds name s p) : t = p := by
  induction h with
  | here hs =>
    cases h' with
    | here => rfl
    | outer hs' => simp [hs] at hs'
  | outer hs hp _ ih =>
    cases h' with
    | here hs' => simp [hs] at hs'
    | outer _ hp' rest =>
      obtain rfl := liesIn_unique hp hp'
      exact ih rest

theorem exists_firstBinds (ht : ReflTransGen w.LiesIn s t) (hb : w.binds name t = true) :
    ∃ o, w.FirstBinds name s o := by
  induction ht using ReflTransGen.head_induction_on with
  | refl => exact ⟨t, .here hb⟩
  | @head s p hp _ ih =>
    obtain ⟨o, ho⟩ := ih
    cases hs : w.binds name s with
    | true => exact ⟨s, .here hs⟩
    | false => exact ⟨o, .outer hs hp ho⟩

theorem firstBinds_of_find? (h : (w.chainFrom fuel visited s).scopes.find? (w.binds name) = some t) :
    w.FirstBinds name s t := by
  induction fuel generalizing visited s with
  | zero => simp [chainFrom] at h
  | succ fuel ih =>
    rw [chainFrom] at h
    split at h
    · simp at h
    · cases hs : w.binds name s with
      | true =>
        obtain rfl : s = t := by split at h <;> simpa [hs] using h
        exact .here hs
      | false =>
        split at h
        · simp [hs] at h
        · rename_i p hp
          simp only [List.find?_cons, hs] at h
          exact .outer hs hp (ih h)

theorem find?_chain_iff :
    (w.chain s).scopes.find? (w.binds name) = some t ↔ w.FirstBinds name s t := by
  constructor
  · exact firstBinds_of_find?
  · intro h
    cases hfind : (w.chain s).scopes.find? (w.binds name) with
    | some o => rw [h.unique (firstBinds_of_find? hfind)]
    | none =>
      have hnone := List.find?_eq_none.mp hfind t (mem_chain_iff.mpr h.around)
      exact absurd h.binds hnone

theorem owner_of_firstBinds (h : w.FirstBinds name s t) : w.owner s name = .ok (some t) := by
  simp only [owner, find?_chain_iff.mpr h]

theorem find?_chain_of_unbound (h : ∀ t, ¬ w.FirstBinds name s t) :
    (w.chain s).scopes.find? (w.binds name) = none := by
  by_contra hsome
  obtain ⟨t, ht⟩ := Option.ne_none_iff_exists'.mp hsome
  exact h t (find?_chain_iff.mp ht)

theorem owner_of_circles (h : ∀ t, ¬ w.FirstBinds name s t) (hc : w.Circles s) :
    w.owner s name = .error .cyclicScopes := by
  simp only [owner, find?_chain_of_unbound h, cyclic_chain_iff.mpr hc, if_true]

theorem owner_of_isOutermost (h : ∀ t, ¬ w.FirstBinds name s t) (ht : w.IsOutermost s t) :
    w.owner s name = .ok none := by
  have hends : ¬ (w.chain s).cyclic = true := fun hc => ht.not_circles (cyclic_chain_iff.mp hc)
  simp only [owner, find?_chain_of_unbound h, if_neg hends]

theorem binding?_of_firstBinds (h : w.FirstBinds name s t) :
    w.binding? s name = .ok ((w.bindings t).get? name) := by
  rw [binding?, owner_of_firstBinds h]
  rfl

theorem binding?_of_circles (h : ∀ t, ¬ w.FirstBinds name s t) (hc : w.Circles s) :
    w.binding? s name = .error .cyclicScopes := by
  rw [binding?, owner_of_circles h hc]
  rfl

theorem binding?_of_isOutermost (h : ∀ t, ¬ w.FirstBinds name s t) (ht : w.IsOutermost s t) :
    w.binding? s name = .ok none := by
  rw [binding?, owner_of_isOutermost h ht]
  rfl

/-- Scopes that bind names each in a record of its own, and the parents of which are there. -/
structure IsScopeGraph (w : World) : Prop where
  record : ∀ s, w.scopes.Has s → w.records.Has (w.scopes.get s).vars
  apart : ∀ s t, w.scopes.Has s → w.scopes.Has t →
    (w.scopes.get s).vars = (w.scopes.get t).vars → s = t
  parent : ∀ s p, w.LiesIn s p → w.scopes.Has p

theorem IsScopeGraph.has_of_around (h : w.IsScopeGraph) (hs : w.scopes.Has s)
    (ht : ReflTransGen w.LiesIn s t) : w.scopes.Has t := by
  cases ht with
  | refl => exact hs
  | tail _ hlast => exact h.parent _ _ hlast

theorem isScopeGraph_empty : World.empty.IsScopeGraph := by
  constructor
  · intro s hs
    exact absurd hs (Nat.not_lt_zero _)
  · intro s t hs
    exact absurd hs (Nat.not_lt_zero _)
  · intro s p hp
    exact absurd (has_of_liesIn hp) (Nat.not_lt_zero _)

theorem newScope_eq (parent : Option (Ref .scope)) (w : World) :
    newScope parent w = .ok w.scopes.next { w with
      records := w.records.push []
      scopes := w.scopes.push ⟨w.records.next, parent⟩ } := rfl

/-- A new scope within one that is there. -/
theorem IsScopeGraph.newScope (h : w.IsScopeGraph) (parent : Option (Ref .scope))
    (hp : ∀ p, parent = some p → w.scopes.Has p) :
    (w.after (ScriptedArrays.newScope parent)).IsScopeGraph := by
  rw [after_of_ok (newScope_eq parent w)]
  have hold : ∀ s, w.scopes.Has s →
      (w.scopes.push ⟨w.records.next, parent⟩).get s = w.scopes.get s :=
    fun s hs => Store.get_push_of_ne _ _ (Store.ne_next_of_has _ hs)
  have hfresh : ∀ s, w.scopes.Has s → (w.scopes.get s).vars ≠ w.records.next :=
    fun s hs => Store.ne_next_of_has _ (h.record s hs)
  constructor
  · intro s hs
    rcases (Store.has_push_iff _ _).mp hs with hs | rfl
    · simpa [hold s hs] using Store.has_push_of_has _ _ (h.record s hs)
    · simp
  · intro s t hs ht hsame
    rcases (Store.has_push_iff _ _).mp hs with hs | rfl <;>
      rcases (Store.has_push_iff _ _).mp ht with ht | rfl
    · exact h.apart s t hs ht (by simpa [hold s hs, hold t ht] using hsame)
    · exact absurd (by simpa [hold s hs] using hsame) (hfresh s hs)
    · exact absurd (by simpa [hold t ht] using hsame.symm) (hfresh t ht)
    · rfl
  · intro s p hlies
    have hs := has_of_liesIn hlies
    refine Store.has_push_of_has _ _ ?_
    rcases (Store.has_push_iff _ _).mp hs with hs | rfl
    · exact h.parent s p (by simpa [LiesIn, hold s hs] using hlies)
    · exact hp p (by simpa [LiesIn] using hlies)

theorem setParent_eq (s : Ref .scope) (parent : Option (Ref .scope)) (w : World) :
    Scope.setParent s parent w =
      .ok () { w with scopes := w.scopes.set s { w.scopes.get s with parent } } := rfl

/-- A scope is moved into one that is there, which may close a cycle. -/
theorem IsScopeGraph.setParent (h : w.IsScopeGraph) (s : Ref .scope) (parent : Option (Ref .scope))
    (hp : ∀ p, parent = some p → w.scopes.Has p) :
    (w.after (Scope.setParent s parent)).IsScopeGraph := by
  rw [after_of_ok (setParent_eq s parent w)]
  have hget : ∀ t, (w.scopes.set s { w.scopes.get s with parent }).get t =
      { w.scopes.get t with
        parent := if t = s ∧ w.scopes.Has s then parent else (w.scopes.get t).parent } := by
    intro t
    rw [Store.get_set]
    by_cases ht : t = s ∧ w.scopes.Has s <;> simp [ht]
  constructor
  · intro t ht
    rw [Store.has_set] at ht
    simpa [hget] using h.record t ht
  · intro t t' ht ht' hsame
    rw [Store.has_set] at ht ht'
    exact h.apart t t' ht ht' (by simpa [hget] using hsame)
  · intro t p hlies
    rw [Store.has_set]
    simp only [LiesIn, hget] at hlies
    split at hlies
    · exact hp p hlies
    · exact h.parent t p hlies

structure Rebinds (w u : World) (o : Ref .scope) (name : String) (v : Value) : Prop where
  scopes : u.scopes = w.scopes
  entry : ∀ t, w.scopes.Has t → ∀ other,
    (u.bindings t).get? other = if t = o ∧ other = name then some v else (w.bindings t).get? other

theorem assignHere_eq (s : Ref .scope) (name : String) (v : Value) (w : World) : ∃ x n,
    Scope.assignHere s name v w = .ok () { w with
      kept := n
      records := w.records.set (w.scopes.get s).vars ((w.bindings s).set name x) } ∧
    x.content = v.content ∧ (v.isObject = true → x = v) := by
  obtain ⟨x, n, hx, hcontent, hsame⟩ := keep_eq v w
  refine ⟨x, n, ?_, hcontent, hsame⟩
  rw [Scope.assignHere, look_bind_apply, setEntry, bind_apply_of_ok _ hx]
  rfl

theorem IsScopeGraph.setRecord (h : w.IsScopeGraph) (r : Ref .record) (e : Entries) {n : Nat}
    (hu : u = { w with kept := n, records := w.records.set r e }) : u.IsScopeGraph := by
  subst hu
  refine ⟨fun s hs => ?_, h.apart, h.parent⟩
  rw [Store.has_set]
  exact h.record s hs

theorem IsScopeGraph.assignHere (h : w.IsScopeGraph) (s : Ref .scope) (name : String) (v : Value) :
    (w.after (Scope.assignHere s name v)).IsScopeGraph := by
  obtain ⟨x, n, hx, -⟩ := assignHere_eq s name v w
  rw [after_of_ok hx]
  exact h.setRecord _ _ rfl

theorem IsScopeGraph.rebinds (h : w.IsScopeGraph) (hs : w.scopes.Has s) {x : Value} {n : Nat} :
    w.Rebinds { w with
      kept := n
      records := w.records.set (w.scopes.get s).vars ((w.bindings s).set name x) } s name x := by
  refine ⟨rfl, fun t ht other => ?_⟩
  by_cases hst : t = s
  · subst hst
    have hget : ∀ e, (w.records.set (w.scopes.get t).vars e).get (w.scopes.get t).vars = e :=
      fun e => Store.get_set_self _ _ (h.record t ht)
    simp only [bindings, hget]
    by_cases hn : other = name
    · simp [hn]
    · simp [hn, Entries.get?_set_of_ne _ _ hn]
  · have hvars : (w.scopes.get t).vars ≠ (w.scopes.get s).vars :=
      fun hsame => hst (h.apart t s ht hs hsame)
    simp [bindings, hst, Store.get_set_of_ne _ _ hvars]

section Effects

variable {o : Ref .scope} {v : Value} {other : String}

theorem Rebinds.liesIn (h : w.Rebinds u o name v) : u.LiesIn = w.LiesIn := by
  funext s t
  simp [LiesIn, h.scopes]

theorem Rebinds.circles_iff (h : w.Rebinds u o name v) : u.Circles s ↔ w.Circles s := by
  simp [Circles, h.liesIn]

theorem Rebinds.isOutermost (h : w.Rebinds u o name v) (ht : w.IsOutermost s t) :
    u.IsOutermost s t :=
  ⟨by simpa [h.liesIn] using ht.around, by simpa [h.scopes] using ht.last⟩

theorem Rebinds.binds (h : w.Rebinds u o name v) (ht : w.scopes.Has t) (other : String) :
    u.binds other t = (w.binds other t || (decide (t = o) && decide (other = name))) := by
  simp only [World.binds, Entries.has_eq_isSome, h.entry t ht]
  by_cases hto : t = o ∧ other = name
  · simp [hto]
  · rw [if_neg hto]
    simp only [not_and_or] at hto
    rcases hto with hto | hto <;> simp [hto]

theorem Rebinds.firstBinds (hg : w.IsScopeGraph) (h : w.Rebinds u o name v) (hs : w.scopes.Has s)
    (ht : u.FirstBinds other s t) (hother : ¬ (t = o ∧ other = name)) : w.FirstBinds other s t := by
  induction ht with
  | @here s hbinds =>
    rw [h.binds hs] at hbinds
    simp only [not_and_or] at hother
    rcases hother with hother | hother <;> exact .here (by simpa [hother] using hbinds)
  | @outer s p t hnone hp _ ih =>
    rw [h.liesIn] at hp
    rw [h.binds hs, Bool.or_eq_false_iff] at hnone
    exact .outer hnone.1 hp (ih (hg.parent s p hp) hother)

theorem Rebinds.unbound (hg : w.IsScopeGraph) (h : w.Rebinds u o name v) (hs : w.scopes.Has s)
    (hnone : ∀ t, ¬ u.FirstBinds other s t) (t : Ref .scope) : ¬ w.FirstBinds other s t := by
  intro ht
  have hbinds : u.binds other t = true := by
    rw [h.binds (hg.has_of_around hs ht.around), ht.binds]
    rfl
  have haround : ReflTransGen u.LiesIn s t := by
    rw [h.liesIn]
    exact ht.around
  obtain ⟨t', ht'⟩ := exists_firstBinds haround hbinds
  exact hnone t' ht'

theorem Rebinds.binding?_eq (hg : w.IsScopeGraph) (h : w.Rebinds u o name v) (hs : w.scopes.Has s)
    (hunseen : other = name → ¬ u.FirstBinds other s o) :
    u.binding? s other = w.binding? s other := by
  by_cases hbound : ∃ t, u.FirstBinds other s t
  · obtain ⟨t, ht⟩ := hbound
    have hother : ¬ (t = o ∧ other = name) := by
      rintro ⟨rfl, hname⟩
      exact hunseen hname ht
    have hbefore : w.FirstBinds other s t := h.firstBinds hg hs ht hother
    rw [binding?_of_firstBinds ht, binding?_of_firstBinds hbefore,
      h.entry t (hg.has_of_around hs hbefore.around), if_neg hother]
  · have hnow : ∀ t, ¬ u.FirstBinds other s t := fun t ht => hbound ⟨t, ht⟩
    have hbefore := h.unbound hg hs hnow
    rcases circles_or_isOutermost w s with hc | ⟨top, htop⟩
    · rw [binding?_of_circles hnow (h.circles_iff.mpr hc), binding?_of_circles hbefore hc]
    · rw [binding?_of_isOutermost hnow (h.isOutermost htop), binding?_of_isOutermost hbefore htop]

theorem Rebinds.firstBinds_owner (hg : w.IsScopeGraph) (h : w.Rebinds u o name v)
    (hs : w.scopes.Has s) (ho : w.FirstBinds name s o) : u.FirstBinds name s o := by
  induction ho with
  | @here s hbinds =>
    refine .here ?_
    rw [h.binds hs, hbinds]
    rfl
  | @outer s p o hnone hp rest ih =>
    have hne : s ≠ o := by
      rintro rfl
      rw [rest.binds] at hnone
      cases hnone
    refine .outer ?_ (by rwa [h.liesIn]) (ih h (hg.parent s p hp))
    rw [h.binds hs, hnone]
    simp [hne]

end Effects

/-- The walks outwards from a scope end, and tell where a name is bound. -/
structure WalksEnd (w : World) (s : Ref .scope) (name : String) : Prop where
  ends : ∀ fuel, w.scopes.size < fuel → w.chainFrom fuel [] s = w.chain s
  visits : ∀ t, t ∈ (w.chain s).scopes ↔ ReflTransGen w.LiesIn s t
  once : (w.chain s).scopes.Nodup
  settled : w.Circles s ∨ ∃ top, w.IsOutermost s top
  top : ∀ top, w.IsOutermost s top → w.topLevel s = .ok top
  noTop : w.Circles s → w.topLevel s = .error .cyclicScopes
  bound : ∀ t, w.FirstBinds name s t →
    w.owner s name = .ok (some t) ∧ w.binding? s name = .ok ((w.bindings t).get? name)
  unbound : (∀ t, ¬ w.FirstBinds name s t) → ∀ top, w.IsOutermost s top →
    w.owner s name = .ok none ∧ w.binding? s name = .ok none
  lost : (∀ t, ¬ w.FirstBinds name s t) → w.Circles s →
    w.owner s name = .error .cyclicScopes ∧ w.binding? s name = .error .cyclicScopes

theorem walksEnd (w : World) (s : Ref .scope) (name : String) : w.WalksEnd s name where
  ends fuel hf := (visited_nil w s).chainFrom_eq (by simp) (by simpa using hf)
  visits _ := mem_chain_iff
  once := nodup_chain w s
  settled := circles_or_isOutermost w s
  top _ := topLevel_of_isOutermost
  noTop := topLevel_of_circles
  bound _ h := ⟨owner_of_firstBinds h, binding?_of_firstBinds h⟩
  unbound h _ ht := ⟨owner_of_isOutermost h ht, binding?_of_isOutermost h ht⟩
  lost h hc := ⟨owner_of_circles h hc, binding?_of_circles h hc⟩

/-- The scope that an assignment changes: the first one that binds the name, or else the one from
which it is assigned, if the way outwards ends. -/
def Receives (w : World) (s : Ref .scope) (name : String) (o : Ref .scope) : Prop :=
  w.FirstBinds name s o ∨
    (∀ t, ¬ w.FirstBinds name s t) ∧ o = s ∧ ∃ top, w.IsOutermost s top

/-- What an assignment does to one binding and to the lookups of all scopes. -/
structure Assigns (w u : World) (s o : Ref .scope) (name : String) (v : Value) : Prop
    extends Rebinds w u o name v where
  read : u.binding? s name = .ok (some v)
  others : ∀ t, w.scopes.Has t → ∀ other ≠ name, u.binding? t other = w.binding? t other
  seen : ∀ t, u.FirstBinds name t o → u.binding? t name = .ok (some v)
  unseen : ∀ t, w.scopes.Has t → ¬ u.FirstBinds name t o → u.binding? t name = w.binding? t name

section Spec

variable {o : Ref .scope}

theorem Receives.has (h : w.Receives s name o) (hg : w.IsScopeGraph) (hs : w.scopes.Has s) :
    w.scopes.Has o := by
  rcases h with h | ⟨-, rfl, -⟩
  · exact hg.has_of_around hs h.around
  · exact hs

theorem owner_getD_of_receives (h : w.Receives s name o) :
    ∃ r, w.owner s name = .ok r ∧ r.getD s = o := by
  rcases h with h | ⟨h, rfl, top, htop⟩
  · exact ⟨some o, owner_of_firstBinds h, rfl⟩
  · exact ⟨none, owner_of_isOutermost h htop, rfl⟩

theorem Rebinds.firstBinds_of_receives {v : Value} (hg : w.IsScopeGraph) (hs : w.scopes.Has s)
    (ho : w.Receives s name o) (h : w.Rebinds u o name v) : u.FirstBinds name s o := by
  rcases ho with ho | ⟨-, rfl, -⟩
  · exact h.firstBinds_owner hg hs ho
  · refine .here ?_
    rw [h.binds hs]
    simp

theorem Rebinds.assigns {v : Value} (hg : w.IsScopeGraph) (hs : w.scopes.Has s)
    (ho : w.Receives s name o) (h : w.Rebinds u o name v) : w.Assigns u s o name v := by
  have hseen : ∀ t, u.FirstBinds name t o → u.binding? t name = .ok (some v) := by
    intro t ht
    rw [binding?_of_firstBinds ht, h.entry o (ho.has hg hs), if_pos ⟨rfl, rfl⟩]
  refine ⟨h, hseen s (h.firstBinds_of_receives hg hs ho), ?_, hseen, ?_⟩
  · intro t ht other hother
    exact h.binding?_eq hg ht fun hname => absurd hname hother
  · intro t ht hunseen
    exact h.binding?_eq hg ht fun _ => hunseen

end Spec

end World

/-- Assignment and lookup in a graph of scopes of any form. Every walk ends. An assignment changes
one binding, of the first scope that binds the name or of the scope itself if there is none, and
fails without any change if the way outwards circles without a binding. -/
theorem Scope.assign_spec {w : World} (hg : w.IsScopeGraph) {s : Ref .scope} (hs : w.scopes.Has s)
    (name : String) (v : Value) :
    w.WalksEnd s name ∧
    ((∀ t, ¬ w.FirstBinds name s t) → w.Circles s → assign s name v w = .error .cyclicScopes w) ∧
    ∀ o, w.Receives s name o → ∃ x u, assign s name v w = .ok () u ∧
      x.content = v.content ∧ (v.isObject = true → x = v) ∧
      u.IsScopeGraph ∧ w.Assigns u s o name x := by
  refine ⟨walksEnd w s name, ?_, ?_⟩
  · intro hnone hc
    exact ask_bind_of_error _ (owner_of_circles hnone hc)
  · intro o ho
    obtain ⟨r, hr, hgetD⟩ := owner_getD_of_receives ho
    obtain ⟨x, n, hx, hcontent, hsame⟩ := assignHere_eq o name v w
    have hassign : assign s name v w = assignHere o name v w := by
      rw [assign, ask_bind_of_ok _ hr, hgetD]
    exact ⟨x, _, hassign.trans hx, hcontent, hsame, hg.setRecord _ _ rfl,
      (hg.rebinds (ho.has hg hs)).assigns hg hs ho⟩

def ring : World :=
  let tail := ((World.empty.after (newScope none)).after (newScope (some ⟨0⟩))).after
    (newScope (some ⟨0⟩))
  (tail.after (Scope.setParent ⟨0⟩ (some ⟨1⟩))).after (Scope.assignHere ⟨1⟩ "x" (.int 1))

theorem isScopeGraph_ring : ring.IsScopeGraph := by
  have hone : (World.empty.after (newScope none)).IsScopeGraph :=
    isScopeGraph_empty.newScope none nofun
  have htwo := hone.newScope (some ⟨0⟩) (by simp; decide)
  have hthree := htwo.newScope (some ⟨0⟩) (by simp; decide)
  have hring := hthree.setParent ⟨0⟩ (some ⟨1⟩) (by simp; decide)
  exact hring.assignHere ⟨1⟩ "x" (.int 1)

/-- A scope outside the ring sets what the ring binds. -/
theorem Scope.assign_in_ring : ∃ x u, assign ⟨2⟩ "x" (.int 5) ring = .ok () u ∧
    x.content = .int 5 ∧ ring.Assigns u ⟨2⟩ ⟨1⟩ "x" x := by
  have hs : ring.scopes.Has ⟨2⟩ := by decide
  have ho : ring.Receives ⟨2⟩ "x" ⟨1⟩ :=
    .inl (.outer (by decide) rfl (.outer (by decide) rfl (.here (by decide))))
  obtain ⟨-, -, hassign⟩ := Scope.assign_spec isScopeGraph_ring hs "x" (.int 5)
  obtain ⟨x, u, hu, hx, -, -, h⟩ := hassign ⟨1⟩ ho
  exact ⟨x, u, hu, hx, h⟩

end ScriptedArrays
