import ScriptedArrays.Proofs.Inheritance

/-! Ancestors. Records that lead to each other by their prototype entries, in any shape, are walked
through in no more rounds than there are records. What the walk finds is the definition of the
nearest ancestor that has one, and a definition further away never counts. -/

namespace ScriptedArrays

open World

theorem Entries.mem_of_get? {es : Entries} {name : String} {x : Value} (h : es.get? name = some x) :
    (name, x) ∈ es := by
  obtain ⟨e, he, rfl⟩ := Option.map_eq_some_iff.mp h
  have hname : e.1 = name := by simpa using List.find?_some he
  rw [← hname]
  exact List.mem_of_find?_eq_some he

namespace World

def ancestor? (w : World) : Nat → Ref .record → Option (Ref .record)
  | 0, r => some r
  | n + 1, r => match (w.records.get r).getD protoKey .null with
    | .record s => w.ancestor? n s
    | _ => none

/-- The ancestor that many entries away holds the value under the key. -/
def DefinedAt (w : World) (key : String) (r : Ref .record) (n : Nat) (x : Value) : Prop :=
  ∃ s, w.ancestor? n r = some s ∧ (w.records.get s).get? key = some x

/-- The ancestor that many entries away holds the value under the key, and none before it has
the key. -/
structure NearestAt (w : World) (key : String) (r : Ref .record) (n : Nat) (x : Value) : Prop where
  defined : w.DefinedAt key r n x
  nearest : ∀ m < n, ∀ y, ¬ w.DefinedAt key r m y

/-- The rounds of a walk along the prototype entries, given the records that it has visited, and
where it ends by itself. -/
inductive Rounds (w : World) (key : String) : List (Ref .record) → Value → Nat → Trail → Prop
  | ended {visited : List (Ref .record)} : Rounds w key visited .null 1 .nowhere
  | around {visited : List (Ref .record)} {r : Ref .record} (h : r ∈ visited) :
      Rounds w key visited (.record r) 1 .nowhere
  | found {visited : List (Ref .record)} {r : Ref .record} {x : Value} (h : r ∉ visited)
      (hx : (w.records.get r).get? key = some x) : Rounds w key visited (.record r) 1 (.found x)
  | further {visited : List (Ref .record)} {r : Ref .record} {n : Nat} {t : Trail}
      (h : r ∉ visited) (hx : (w.records.get r).get? key = none)
      (rest : Rounds w key (r :: visited) ((w.records.get r).getD protoKey .null) n t) :
      Rounds w key visited (.record r) (n + 1) t

/-- Records whose prototype entries lead to each other or to null, in any way, and that do not hold
the answer of a miss. A record without the entry leads to null. -/
structure IsRecordGraph (w : World) (G : Finset (Ref .record)) : Prop where
  stored : ∀ r ∈ G, w.records.Has r
  links : ∀ r ∈ G, (w.records.get r).getD protoKey .null = .null ∨
    ∃ s ∈ G, (w.records.get r).getD protoKey .null = .record s
  holds : ∀ r ∈ G, ∀ e ∈ w.records.get r, e.2 ≠ .missing

section

variable {w : World} {G : Finset (Ref .record)} {key : String} {r s : Ref .record} {n : Nat}
  {v x y : Value}

theorem ancestor?_succ (h : (w.records.get r).getD protoKey .null = .record s) :
    w.ancestor? (n + 1) r = w.ancestor? n s := by
  rw [ancestor?, h]

theorem definedAt_zero : w.DefinedAt key r 0 x ↔ (w.records.get r).get? key = some x := by
  constructor
  · rintro ⟨s, ⟨⟩, hx⟩
    exact hx
  · exact fun hx => ⟨r, rfl, hx⟩

theorem definedAt_succ (h : (w.records.get r).getD protoKey .null = .record s) :
    w.DefinedAt key r (n + 1) x ↔ w.DefinedAt key s n x := by
  rw [DefinedAt, DefinedAt, ancestor?_succ h]

theorem DefinedAt.link (h : w.DefinedAt key r (n + 1) x) :
    ∃ s, (w.records.get r).getD protoKey .null = .record s := by
  obtain ⟨s, hs, -⟩ := h
  rw [ancestor?] at hs
  split at hs
  · exact ⟨_, ‹_›⟩
  · cases hs

theorem NearestAt.unique {m : Nat} (h : w.NearestAt key r n x) (h' : w.NearestAt key r m y) :
    n = m ∧ x = y := by
  have heq : n = m := by
    rcases Nat.lt_trichotomy n m with hlt | heq | hlt
    · exact absurd h.defined (h'.nearest n hlt x)
    · exact heq
    · exact absurd h'.defined (h.nearest m hlt y)
  subst heq
  obtain ⟨s, hs, hx⟩ := h.defined
  obtain ⟨s', hs', hy⟩ := h'.defined
  rw [hs] at hs'
  cases hs'
  rw [hx] at hy
  exact ⟨rfl, Option.some.inj hy⟩

theorem DefinedAt.nearest (h : w.DefinedAt key r n x) : ∃ m ≤ n, ∃ y, w.NearestAt key r m y := by
  classical
  have hsome : ∃ m y, w.DefinedAt key r m y := ⟨n, x, h⟩
  obtain ⟨y, hy⟩ := Nat.find_spec hsome
  exact ⟨Nat.find hsome, Nat.find_min' hsome ⟨x, h⟩, y, hy, fun m hm z hz =>
    Nat.find_min hsome hm ⟨z, hz⟩⟩

theorem NearestAt.inherits (h : w.NearestAt key r n x) : w.Inherits key (.record r) x := by
  induction n generalizing r with
  | zero => exact .here (definedAt_zero.mp h.defined)
  | succ n ih =>
    obtain ⟨s, hs⟩ := h.defined.link
    have hnone : (w.records.get r).get? key = none := by
      cases hget : (w.records.get r).get? key with
      | none => rfl
      | some y => exact absurd (definedAt_zero.mpr hget) (h.nearest 0 (Nat.succ_pos n) y)
    have hrest : w.NearestAt key s n x := {
      defined := (definedAt_succ hs).mp h.defined
      nearest := fun m hm y hy =>
        h.nearest (m + 1) (Nat.succ_lt_succ hm) y ((definedAt_succ hs).mpr hy) }
    refine .further hnone ?_
    rw [hs]
    exact ih hrest

theorem Inherits.nearestAt (h : w.Inherits key v x) :
    ∃ r n, v = .record r ∧ w.NearestAt key r n x := by
  induction h with
  | @here r x h =>
    exact ⟨r, 0, rfl, definedAt_zero.mpr h, fun m hm => absurd hm (Nat.not_lt_zero m)⟩
  | @further r x h _ ih =>
    obtain ⟨s, n, hs, hx⟩ := ih
    refine ⟨r, n + 1, rfl, (definedAt_succ hs).mpr hx.defined, fun m hm y hy => ?_⟩
    cases m with
    | zero =>
      rw [definedAt_zero, h] at hy
      cases hy
    | succ m => exact hx.nearest m (Nat.lt_of_succ_lt_succ hm) y ((definedAt_succ hs).mp hy)

theorem inherits_record_iff : w.Inherits key (.record r) x ↔ ∃ n, w.NearestAt key r n x := by
  constructor
  · intro h
    obtain ⟨s, n, heq, hx⟩ := h.nearestAt
    cases heq
    exact ⟨n, hx⟩
  · rintro ⟨n, hx⟩
    exact hx.inherits

namespace IsRecordGraph

theorem card_le (hG : w.IsRecordGraph G) : G.card ≤ w.records.size := by
  have hindex : ∀ r ∈ G, r.index ∈ Finset.range w.records.size := fun r hr =>
    Finset.mem_range.mpr (hG.stored r hr)
  have hinj : Set.InjOn Ref.index (G : Set (Ref .record)) := fun ⟨_⟩ _ ⟨_⟩ _ heq => congrArg Ref.mk heq
  simpa using Finset.card_le_card_of_injOn Ref.index hindex hinj

theorem meets (hG : w.IsRecordGraph G) (h : w.Meets v x) (hv : v = .null ∨ ∃ r ∈ G, v = .record r) :
    x = .null ∨ ∃ r ∈ G, x = .record r := by
  induction h with
  | here v => exact hv
  | further _ ih =>
    rcases hv with hv | ⟨r, hr, hv⟩
    · cases hv
    · cases hv
      exact ih (hG.links _ hr)

theorem isLineage (hG : w.IsRecordGraph G) (hr : r ∈ G) : w.IsLineage key (.record r) where
  records := by
    intro x hx
    rcases hG.meets hx (.inr ⟨r, hr, rfl⟩) with rfl | ⟨s, -, rfl⟩
    · exact .inl rfl
    · exact .inr ⟨s, rfl⟩
  holds := by
    intro s hs
    rcases hG.meets hs (.inr ⟨r, hr, rfl⟩) with ⟨⟨⟩⟩ | ⟨s', hs', heq⟩
    cases heq
    exact fun hget => hG.holds s hs' _ (Entries.mem_of_get? hget) rfl

/-- A walk visits a new record of the graph in every round, so there are no more rounds than
records that it has not visited, and one that ends it. -/
theorem rounds_walkFrom (hG : w.IsRecordGraph G) (fuel : Nat) (visited : List (Ref .record))
    (hv : v = .null ∨ ∃ r ∈ G, v = .record r) (hfuel : (G \ visited.toFinset).card < fuel) :
    ∃ n ≤ (G \ visited.toFinset).card + 1, w.Rounds key visited v n (w.walkFrom key fuel visited v) := by
  induction fuel generalizing visited v with
  | zero => exact absurd hfuel (Nat.not_lt_zero _)
  | succ fuel ih =>
    rcases hv with rfl | ⟨r, hr, rfl⟩
    · exact ⟨1, Nat.le_add_left 1 _, .ended⟩
    · rw [walkFrom]
      by_cases hmem : r ∈ visited
      · rw [if_pos hmem]
        exact ⟨1, Nat.le_add_left 1 _, .around hmem⟩
      · rw [if_neg hmem]
        cases hget : (w.records.get r).get? key with
        | some x => exact ⟨1, Nat.le_add_left 1 _, .found hmem hget⟩
        | none =>
          have hin : r ∈ G \ visited.toFinset :=
            Finset.mem_sdiff.mpr ⟨hr, fun h => hmem (List.mem_toFinset.mp h)⟩
          have hcard : (G \ (r :: visited).toFinset).card + 1 = (G \ visited.toFinset).card := by
            rw [List.toFinset_cons, Finset.sdiff_insert, Finset.card_erase_add_one hin]
          obtain ⟨n, hn, hrounds⟩ := ih (r :: visited) (hG.links r hr) (by omega)
          exact ⟨n + 1, by omega, .further hmem hget hrounds⟩

theorem rounds_walk (hG : w.IsRecordGraph G) (hr : r ∈ G) :
    ∃ n ≤ G.card + 1, w.Rounds key [] (.record r) n (w.walk key (.record r)) := by
  have hcard : (G \ ([] : List (Ref .record)).toFinset).card = G.card := by
    rw [List.toFinset_nil, Finset.sdiff_empty]
  have hle := hG.card_le
  obtain ⟨n, hn, hrounds⟩ := hG.rounds_walkFrom (w.records.size + 2) [] (.inr ⟨r, hr, rfl⟩)
    (by omega)
  exact ⟨n, by omega, hrounds⟩

end IsRecordGraph
end
end World

namespace Property

/-- What is answered about a name of a record: its value and its presence. -/
structure IsNearest (w : World) (r : Ref .record) (name : String) (v : Value) (b : Bool) : Prop where
  /-- The value is that of the nearest definition, and undefined without any. -/
  value : (∃ n, w.NearestAt name r n v) ∨ v = .undefined ∧ ∀ n x, ¬ w.DefinedAt name r n x
  /-- The name is present exactly if it is defined, whatever the value. -/
  present : b = true ↔ ∃ n x, w.DefinedAt name r n x
  /-- No definition comes before the one whose value is read. -/
  unshadowed : ∀ m y, w.DefinedAt name r m y → ∃ n ≤ m, w.NearestAt name r n v

theorem IsNearest.eq {w : World} {r : Ref .record} {name : String} {v x : Value} {b : Bool} {n : Nat}
    (h : IsNearest w r name v b) (hx : w.NearestAt name r n x) : v = x := by
  obtain ⟨m, -, hm⟩ := h.unshadowed n x hx.defined
  exact (hm.unique hx).2

/-- A name of a record is looked up in no more rounds than there are records, whatever way their
prototype entries lead among them. The value is that of the nearest definition. -/
theorem lookup_nearest {w : World} {G : Finset (Ref .record)} {r : Ref .record}
    (hG : w.IsRecordGraph G) (hr : r ∈ G) (name : String) :
    (∃ n ≤ G.card + 1, w.Rounds name [] (.record r) n (w.walk name (.record r))) ∧
      ∃ v b, Property.read (.record r) name w = .ok v w ∧ Property.has (.record r) name w = .ok b w ∧
        IsNearest w r name v b := by
  refine ⟨hG.rounds_walk hr, ?_⟩
  have hnone : (∀ x, ¬ w.Inherits name (.record r) x) → ∀ n x, ¬ w.DefinedAt name r n x := by
    intro hno n x hx
    obtain ⟨m, -, y, hy⟩ := hx.nearest
    exact hno y hy.inherits
  have hread : Property.read (.record r) name w = along (2 * max w.views.size w.handed.length + 1)
      name (.record r) w := by
    rw [Property.read, get_bind_apply, nesting, readTo_record]
  rcases asked_lineage (hG.isLineage hr) rfl with ⟨x, hx, hasked⟩ | ⟨hno, hasked⟩
  · obtain ⟨n, hn⟩ := inherits_record_iff.mp hx
    refine ⟨x, true, hread.trans (hasked _).2, ?_, ⟨.inl ⟨n, hn⟩, ?_, ?_⟩⟩
    · rw [Property.has, get_bind_apply, nesting]
      exact (hasked _).1
    · exact iff_of_true rfl ⟨n, x, hn.defined⟩
    · intro m y hy
      obtain ⟨k, hk, z, hz⟩ := hy.nearest
      obtain ⟨rfl, rfl⟩ := hn.unique hz
      exact ⟨n, hk, hn⟩
  · have hno' := hnone hno
    refine ⟨.undefined, false, ?_, ?_, ⟨.inr ⟨rfl, hno'⟩, ?_, ?_⟩⟩
    · rw [hread, along, get_bind_apply]
      rcases (hG.isLineage hr).walk_cases with ⟨x, hx, -⟩ | ⟨-, hwalk⟩
      · exact absurd hx (hno x)
      · rw [hwalk]
        rfl
    · rw [Property.has, get_bind_apply, nesting]
      exact hasked _
    · refine iff_of_false Bool.noConfusion ?_
      rintro ⟨n, x, hx⟩
      exact hno' n x hx
    · exact fun m y hy => absurd hy (hno' m y)

end Property

def kinship : World := World.empty.afterAll [
  .newRecord [("far", .int 3)],
  .newRecord [("near", .int 2), ("far", .undefined), (protoKey, .record ⟨0⟩)],
  .setEntry ⟨0⟩ protoKey (.record ⟨1⟩),
  .newRecord [("near", .int 1), (protoKey, .record ⟨1⟩)]]

theorem isRecordGraph_kinship : kinship.IsRecordGraph {⟨0⟩, ⟨1⟩, ⟨2⟩} where
  stored := by decide +kernel
  links := by decide +kernel
  holds := by decide +kernel

/-- The nearer of two definitions is read, also if it is undefined, and a name of no record is
absent. -/
theorem Property.lookup_in_cycle :
    Property.read (.record ⟨2⟩) "near" kinship = .ok (.int 1) kinship ∧
    Property.read (.record ⟨2⟩) "far" kinship = .ok .undefined kinship ∧
    Property.has (.record ⟨2⟩) "far" kinship = .ok true kinship ∧
    Property.has (.record ⟨2⟩) "else" kinship = .ok false kinship := by
  have hgraph := isRecordGraph_kinship
  obtain ⟨-, v, _, hv, -, hnear⟩ := lookup_nearest hgraph (r := ⟨2⟩) (by decide) "near"
  obtain ⟨-, u, b, hu, hb, hfar⟩ := lookup_nearest hgraph (r := ⟨2⟩) (by decide) "far"
  obtain ⟨-, _, c, -, hc, helse⟩ := lookup_nearest hgraph (r := ⟨2⟩) (by decide) "else"
  have hone : kinship.NearestAt "near" ⟨2⟩ 0 (.int 1) := {
    defined := ⟨⟨2⟩, rfl, by decide +kernel⟩
    nearest := fun m hm => absurd hm (Nat.not_lt_zero m) }
  have htwo : kinship.NearestAt "far" ⟨2⟩ 1 .undefined := {
    defined := ⟨⟨1⟩, by decide +kernel, by decide +kernel⟩
    nearest := by
      rintro m hm y hy
      obtain rfl : m = 0 := Nat.lt_one_iff.mp hm
      have hnone : (kinship.records.get ⟨2⟩).get? "far" = none := by decide +kernel
      rw [World.definedAt_zero, hnone] at hy
      cases hy }
  have hno : c = false := by
    have hwalk : kinship.walk "else" (.record ⟨2⟩) = .nowhere := by decide +kernel
    refine Bool.eq_false_iff.mpr fun hpresent => ?_
    obtain ⟨n, x, hx⟩ := helse.present.mp hpresent
    obtain ⟨m, -, y, hy⟩ := hx.nearest
    rw [World.walk_eq_found_iff.mpr hy.inherits] at hwalk
    cases hwalk
  refine ⟨?_, ?_, ?_, ?_⟩
  · rw [hv, hnear.eq hone]
  · rw [hu, hfar.eq htwo]
  · rw [hb, hfar.present.mpr ⟨1, _, htwo.defined⟩]
  · rw [hc, hno]

end ScriptedArrays
