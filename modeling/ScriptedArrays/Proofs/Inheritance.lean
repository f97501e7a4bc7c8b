import ScriptedArrays.Proofs.Ends
import ScriptedArrays.Proofs.MethodCalls

/-! Inheritance. A record without a name leads to the value of its prototype entry, so a name is
inherited from the first record along these entries that has it. What a view answers about a name,
as its own member, as a property and as the presence of one, follows from that. -/

namespace ScriptedArrays

open World

namespace World

/-- What the first record that has the key, along the prototype entries from a value, holds
under it. -/
inductive Inherits (w : World) (key : String) : Value → Value → Prop
  | here {r : Ref .record} {x : Value} (h : (w.records.get r).get? key = some x) :
      Inherits w key (.record r) x
  | further {r : Ref .record} {x : Value} (h : (w.records.get r).get? key = none)
      (rest : Inherits w key ((w.records.get r).getD protoKey .null) x) :
      Inherits w key (.record r) x

/-- The values that the prototype entries from a value lead to. -/
inductive Meets (w : World) : Value → Value → Prop
  | here (v : Value) : Meets w v v
  | further {r : Ref .record} {x : Value}
      (rest : Meets w ((w.records.get r).getD protoKey .null) x) : Meets w (.record r) x

/-- The prototype entries from a value lead along records only, to their end or around, and no
record holds the answer of a miss under the key. -/
structure IsLineage (w : World) (key : String) (v : Value) : Prop where
  records : ∀ x, w.Meets v x → x = .null ∨ ∃ r, x = .record r
  holds : ∀ r, w.Meets v (.record r) → (w.records.get r).get? key ≠ some .missing

def past (w : World) (key : String) : Value → Option Value
  | .record r => match (w.records.get r).get? key with
    | some _ => none
    | none => some ((w.records.get r).getD protoKey .null)
  | _ => none

section

variable {w w' : World} {key : String} {v x : Value}

theorem past_of_none {r : Ref .record} (h : (w.records.get r).get? key = none) :
    w.past key (.record r) = some ((w.records.get r).getD protoKey .null) := by
  rw [past, h]

theorem Inherits.ends (h : w.Inherits key v x) : ∃ n, Ends (w.past key) n v := by
  induction h with
  | here h => exact ⟨0, .here (by rw [past, h])⟩
  | further h _ ih =>
    obtain ⟨n, hn⟩ := ih
    exact ⟨n + 1, .there (past_of_none h) hn⟩

/-- A way that ends has no more steps than there are records, and one from a reference to none. -/
theorem steps_past_le {n : Nat} (h : Ends (w.past key) n v) : n ≤ w.records.size + 1 := by
  -- references to no record share one place: all of them lead to null
  let place : Value → Nat := fun
    | .record r => min r.index w.records.size
    | _ => 0
  have hrecord : ∀ b c, w.past key b = some c →
      ∃ r, b = .record r ∧ c = (w.records.get r).getD protoKey .null := by
    intro b c hb
    unfold past at hb
    split at hb
    · split at hb
      · cases hb
      · cases hb
        exact ⟨_, rfl, rfl⟩
    · cases hb
  have hnone : ∀ r : Ref .record, w.records.size ≤ r.index →
      (w.records.get r).getD protoKey .null = .null := by
    intro r hr
    rw [Store.get_of_not_has _ (Nat.not_lt_of_le hr)]
    rfl
  refine h.le_of_index place ?_ ?_
  · intro b c hb
    obtain ⟨r, rfl, -⟩ := hrecord b c hb
    show min r.index w.records.size < _
    omega
  · intro b b' c c' hb hb' heq
    obtain ⟨r, rfl, rfl⟩ := hrecord b c hb
    obtain ⟨r', rfl, rfl⟩ := hrecord b' c' hb'
    have hmin : min r.index w.records.size = min r'.index w.records.size := heq
    by_cases hlt : r.index < w.records.size
    · have hsame : r = r' := by
        have hindex : r.index = r'.index := by omega
        exact congrArg Ref.mk hindex
      rw [hsame]
    · rw [hnone r (by omega), hnone r' (by omega)]

theorem not_mem_of_ends {r : Ref .record} {n : Nat} {visited : List (Ref .record)}
    (hn : Ends (w.past key) n (.record r))
    (hv : ∀ s ∈ visited, ∃ m, n < m ∧ Ends (w.past key) m (.record s)) : r ∉ visited := by
  intro hmem
  obtain ⟨m, hlt, hm⟩ := hv r hmem
  exact Nat.ne_of_lt hlt (hn.unique hm)

theorem walkFrom_of_inherits (h : w.Inherits key v x) {n fuel : Nat} {visited : List (Ref .record)}
    (hn : Ends (w.past key) n v) (hf : n < fuel)
    (hv : ∀ s ∈ visited, ∃ m, n < m ∧ Ends (w.past key) m (.record s)) :
    w.walkFrom key fuel visited v = .found x := by
  induction h generalizing n fuel visited with
  | here h =>
    obtain ⟨fuel, rfl⟩ : ∃ k, fuel = k + 1 := Nat.exists_eq_succ_of_ne_zero (by omega)
    rw [walkFrom, if_neg (not_mem_of_ends hn hv), h]
  | @further r x h _ ih =>
    obtain ⟨fuel, rfl⟩ : ∃ k, fuel = k + 1 := Nat.exists_eq_succ_of_ne_zero (by omega)
    obtain ⟨m, rfl, rest⟩ := hn.rest_of_some (past_of_none h)
    rw [walkFrom, if_neg (not_mem_of_ends hn hv), h]
    refine ih rest (by omega) fun s hs => ?_
    rcases List.mem_cons.mp hs with rfl | hs
    · exact ⟨m + 1, Nat.lt_succ_self m, hn⟩
    · obtain ⟨l, hl, hends⟩ := hv s hs
      exact ⟨l, by omega, hends⟩

theorem inherits_of_walkFrom {fuel : Nat} {visited : List (Ref .record)}
    (h : w.walkFrom key fuel visited v = .found x) : w.Inherits key v x := by
  induction fuel generalizing visited v with
  | zero => cases h
  | succ fuel ih =>
    cases v with
    | record r =>
      rw [walkFrom] at h
      split at h
      · cases h
      · split at h
        · rename_i hget
          cases h
          exact .here hget
        · rename_i hget
          exact .further hget (ih h)
    | _ => cases h

theorem walk_eq_found_iff : w.walk key v = .found x ↔ w.Inherits key v x := by
  refine ⟨inherits_of_walkFrom, fun h => ?_⟩
  obtain ⟨n, hn⟩ := h.ends
  have hle := steps_past_le hn
  exact walkFrom_of_inherits h hn (by omega) fun r hr => absurd hr List.not_mem_nil

theorem Inherits.unique {y : Value} (h : w.Inherits key v x) (h' : w.Inherits key v y) : x = y := by
  have hx := walk_eq_found_iff.mpr h
  rw [walk_eq_found_iff.mpr h'] at hx
  cases hx
  rfl

theorem meets_of_walkFrom {fuel : Nat} {visited : List (Ref .record)}
    (h : w.walkFrom key fuel visited v = .beyond x) :
    w.Meets v x ∧ x ≠ .null ∧ ∀ r, x ≠ .record r := by
  induction fuel generalizing visited v with
  | zero => cases h
  | succ fuel ih =>
    cases v with
    | record r =>
      rw [walkFrom] at h
      split at h
      · cases h
      · split at h
        · cases h
        · obtain ⟨hmeets, hx⟩ := ih h
          exact ⟨.further hmeets, hx⟩
    | null => cases h
    | _ =>
      cases h
      exact ⟨.here _, Value.noConfusion, fun _ => Value.noConfusion⟩

theorem Inherits.meets (h : w.Inherits key v x) :
    ∃ r, w.Meets v (.record r) ∧ (w.records.get r).get? key = some x := by
  induction h with
  | here h => exact ⟨_, .here _, h⟩
  | further _ _ ih =>
    obtain ⟨r, hr, hx⟩ := ih
    exact ⟨r, .further hr, hx⟩

theorem IsLineage.walk_cases (h : w.IsLineage key v) :
    (∃ x, w.Inherits key v x ∧ x ≠ .missing ∧ w.walk key v = .found x) ∨
      (∀ x, ¬ w.Inherits key v x) ∧ w.walk key v = .nowhere := by
  cases hwalk : w.walk key v with
  | found x =>
    have hx := walk_eq_found_iff.mp hwalk
    refine .inl ⟨x, hx, ?_, rfl⟩
    rintro rfl
    obtain ⟨r, hr, hget⟩ := hx.meets
    exact h.holds r hr hget
  | nowhere =>
    refine .inr ⟨fun x hx => ?_, rfl⟩
    rw [walk_eq_found_iff.mpr hx] at hwalk
    cases hwalk
  | beyond x =>
    obtain ⟨hmeets, hnull, hrecord⟩ := meets_of_walkFrom hwalk
    rcases h.records x hmeets with rfl | ⟨r, rfl⟩
    · exact absurd rfl hnull
    · exact absurd rfl (hrecord r)

theorem walk_congr (h : w'.records = w.records) (key : String) (v : Value) :
    w'.walk key v = w.walk key v := by
  have hfrom : ∀ fuel visited v, w'.walkFrom key fuel visited v = w.walkFrom key fuel visited v := by
    intro fuel
    induction fuel with
    | zero => exact fun visited v => rfl
    | succ fuel ih =>
      intro visited v
      cases v with
      | record r => simp only [walkFrom, h, ih]
      | _ => rfl
  rw [walk, walk, h, hfrom]

end
end World

namespace Property

variable {w u : World} {name : String} {p : Value}

/-- A lineage tells whether the name is inherited, and from it the inherited value is read. -/
theorem asked_lineage (h : w.IsLineage name p) (hu : u.records = w.records) :
    (∃ x, w.Inherits name p x ∧ ∀ depth, hasTo (depth + 1) p name u = .ok true u ∧
      along depth name p u = .ok x u) ∨
    (∀ x, ¬ w.Inherits name p x) ∧ ∀ depth, hasTo (depth + 1) p name u = .ok false u := by
  have hwalk := walk_congr hu name p
  rcases h.records p (.here p) with rfl | ⟨r, rfl⟩
  · refine .inr ⟨fun x hx => ?_, fun depth => ?_⟩
    · cases hx
    · rw [hasTo]
      rfl
  · rcases h.walk_cases with ⟨x, hx, hne, hfound⟩ | ⟨hno, hnowhere⟩
    · rw [hfound] at hwalk
      refine .inl ⟨x, hx, fun depth => ⟨?_, ?_⟩⟩
      · rw [hasTo, get_bind_apply, hwalk]
        show EStateM.Result.ok (x != .missing) u = _
        rw [bne_iff_ne.mpr hne]
      · rw [along, get_bind_apply, hwalk]
        show EStateM.Result.ok (orUndefined x) u = _
        rw [orUndefined_of_ne hne]
    · rw [hnowhere] at hwalk
      refine .inr ⟨hno, fun depth => ?_⟩
      rw [hasTo, get_bind_apply, hwalk]
      rfl

end Property

namespace View

/-- What a view answers about a name agrees, however it is asked, given its prototype. -/
structure Agrees (w : World) (q : Ref .view) (p : Value) (name : String) : Prop where
  told : ∃ b u, Property.has (.view q) name w = .ok b u
  present : (∃ u, Property.has (.view q) name w = .ok true u) ↔
    hasOwn w q name = true ∨ ∃ x, w.Inherits name p x
  absent : (∃ u, Property.has (.view q) name w = .ok false u) ↔
    ∃ u, Property.read (.view q) name w = .error (.noSuchMember "numpy.ndarray" name) u
  /-- An own member is read as it is. -/
  own : hasOwn w q name = true → ∃ x u, View.own q name w = .ok x u ∧ x ≠ .missing ∧
    Property.read (.view q) name w = .ok x u
  /-- Without an own member what is inherited is read, also if it is undefined. -/
  inherited : hasOwn w q name = false → ∀ x, w.Inherits name p x →
    ∃ u, Property.read (.view q) name w = .ok x u
  handed : (∃ u, View.own q name w = .ok .missing u) ↔
    hasOwn w q name = false ∧ ∃ x, w.Inherits name p x

variable {w : World} {q : Ref .view} {name : String} {p : Value}

theorem ownBy_congr (ho : hasOwn w q name = true) (has has' : Value → String → Action Bool) :
    ownBy has q name w = ownBy has' q name w := by
  rw [ownBy, ownBy, get_bind_apply, get_bind_apply]
  split
  · rfl
  · rfl
  · rfl
  · rw [if_pos ho, if_pos ho]

theorem has_of_hasOwn (ho : hasOwn w q name = true) :
    Property.has (.view q) name w = .ok true w := by
  rw [Property.has, get_bind_apply, Property.nesting, Property.hasTo, get_bind_apply, if_pos ho]
  rfl

theorem has_eq (ho : hasOwn w q name = false) : Property.has (.view q) name w =
    (findPrototype q >>= fun p => Property.hasTo (2 * max w.views.size w.handed.length + 1) p name) w := by
  rw [Property.has, get_bind_apply, Property.nesting, Property.hasTo, get_bind_apply, ho]
  show (findPrototype q >>= _) w = _
  cases hfound : findPrototype q w with
  | ok p u =>
    rw [bind_apply_of_ok _ hfound, bind_apply_of_ok _ hfound]
    cases p with
    | null => rw [Property.hasTo]
    | _ => rfl
  | error f u => rw [bind_apply_of_error _ hfound, bind_apply_of_error _ hfound]

theorem has_of_not_hasOwn (ho : hasOwn w q name = false) {u : World}
    (hfound : findPrototype q w = .ok p u) {b : Bool}
    (hb : ∀ depth, Property.hasTo (depth + 1) p name u = .ok b u) :
    Property.has (.view q) name w = .ok b u := by
  rw [has_eq ho, bind_apply_of_ok _ hfound]
  exact hb _

theorem ownBy_of_asked (ho : hasOwn w q name = false) {u : World}
    (hfound : findPrototype q w = .ok p u) {has : Value → String → Action Bool} {b : Bool}
    (hb : has p name u = .ok b u) : ownBy has q name w =
      if b then .ok .missing u else .error (.noSuchMember "numpy.ndarray" name) u := by
  rw [ownBy_of_not_hasOwn _ ho, bind_apply_of_ok _ hfound, bind_apply_of_ok _ hb]
  cases b <;> rfl

/-- Presence, value and own member of a view agree on every name, if its prototype is null or a
record whose prototype entries lead along records. -/
theorem lookups_agree (hw : Reachable w) (hq : w.views.Has q) (hp : w.resolved? q = .ok p)
    (hline : w.IsLineage name p) : Agrees w q p name := by
  cases ho : hasOwn w q name with
  | true =>
    have hhas := has_of_hasOwn ho
    obtain ⟨x, u, hx, -, hm⟩ := ownBy_of_hasOwn Property.has hw.sound ho
    have hown : View.own q name w = .ok x u := hx
    have hread : Property.read (.view q) name w = .ok x u :=
      Property.read_of_own (fun has => (ownBy_congr ho has Property.has).trans hx) hm
    exact {
      told := ⟨true, w, hhas⟩
      present := iff_of_true ⟨w, hhas⟩ (.inl ho)
      absent := by simp [hhas, hread]
      own := fun _ => ⟨x, u, hown, hm, hread⟩
      inherited := fun h => Bool.noConfusion (ho.symm.trans h)
      handed := by simp [hown, hm, ho] }
  | false =>
    -- the first question finds the prototype and keeps it, so the second one asks the same records
    obtain ⟨u, hfound, hrecords, hagain⟩ := findPrototype_settled hq hp
    rcases Property.asked_lineage hline hrecords with ⟨x, hx, hasked⟩ | ⟨hno, hasked⟩
    · have hhas := has_of_not_hasOwn ho hfound fun depth => (hasked depth).1
      have hown : View.own q name w = .ok .missing u :=
        ownBy_of_asked (b := true) ho hfound (hasked _).1
      have hread : Property.read (.view q) name w = .ok x u := by
        rw [Property.read, get_bind_apply, Property.nesting, Property.readTo_view,
          bind_apply_of_ok _ (ownBy_of_asked (b := true) ho hfound (hasked _).1)]
        dsimp only
        rw [bind_apply_of_ok _ hagain]
        exact (hasked _).2
      exact {
        told := ⟨true, u, hhas⟩
        present := iff_of_true ⟨u, hhas⟩ (.inr ⟨x, hx⟩)
        absent := by simp [hhas, hread]
        own := fun h => Bool.noConfusion (ho.symm.trans h)
        inherited := fun _ y hy => ⟨u, by rw [hy.unique hx, hread]⟩
        handed := iff_of_true ⟨u, hown⟩ ⟨ho, x, hx⟩ }
    · have hhas := has_of_not_hasOwn ho hfound hasked
      have hown : View.own q name w = .error (.noSuchMember "numpy.ndarray" name) u :=
        ownBy_of_asked (b := false) ho hfound (hasked _)
      have hread : Property.read (.view q) name w = .error (.noSuchMember "numpy.ndarray" name) u := by
        rw [Property.read, get_bind_apply, Property.nesting, Property.readTo_view]
        exact bind_apply_of_error _ (ownBy_of_asked (b := false) ho hfound (hasked _))
      exact {
        told := ⟨false, u, hhas⟩
        present := by simp [hhas, ho, hno]
        absent := iff_of_true ⟨u, hhas⟩ ⟨u, hread⟩
        own := fun h => Bool.noConfusion (ho.symm.trans h)
        inherited := fun _ x hx => absurd hx (hno x)
        handed := by simp [hown, hno] }

end View

def heirlooms : World := World.empty.afterAll [
  .createEnvironment .standard,
  .newRecord [("colour", .undefined), (protoKey, .record ⟨1⟩)],
  .setEntry ⟨1⟩ protoKey (.record ⟨9⟩),
  .buildArray (.native (.int true 1)) [2] [],
  .newView (.scope ⟨0⟩) ⟨1⟩ ⟨0⟩ none false]

theorem reachable_heirlooms : Reachable heirlooms := by
  apply Reachable.start.afterAll
  simp [Operation.IsProper, CellType.native, Content.IsProper]

theorem isLineage_heirlooms (name : String) (h : (heirlooms.records.get ⟨1⟩).get? name ≠ some .missing)
    (h' : (heirlooms.records.get ⟨9⟩).get? name ≠ some .missing) :
    heirlooms.IsLineage name (.record ⟨1⟩) := by
  have hproto : (heirlooms.records.get ⟨1⟩).getD protoKey .null = .record ⟨9⟩ := by decide +kernel
  have hproto' : (heirlooms.records.get ⟨9⟩).getD protoKey .null = .record ⟨1⟩ := by decide +kernel
  have hmeets : ∀ v x, heirlooms.Meets v x → v = .record ⟨1⟩ ∨ v = .record ⟨9⟩ →
      x = .record ⟨1⟩ ∨ x = .record ⟨9⟩ := by
    intro v x hx
    induction hx with
    | here v => exact id
    | further _ ih =>
      rintro (⟨⟨⟩⟩ | ⟨⟨⟩⟩)
      · exact ih (.inr hproto)
      · exact ih (.inl hproto')
  constructor
  · intro x hx
    rcases hmeets _ _ hx (.inl rfl) with rfl | rfl
    · exact .inr ⟨_, rfl⟩
    · exact .inr ⟨_, rfl⟩
  · intro r hr
    rcases hmeets _ _ hr (.inl rfl) with ⟨⟨⟩⟩ | ⟨⟨⟩⟩
    · exact h
    · exact h'

/-- The view has a name that is inherited as undefined, and reads it as that. -/
theorem View.has_inherited_undefined : ∃ u u' u'',
    Property.has (.view ⟨0⟩) "colour" heirlooms = .ok true u ∧
    Property.read (.view ⟨0⟩) "colour" heirlooms = .ok .undefined u' ∧
    View.own ⟨0⟩ "colour" heirlooms = .ok .missing u'' := by
  have hagrees := View.lookups_agree reachable_heirlooms (q := ⟨0⟩) (by decide +kernel)
    (p := .record ⟨1⟩) (by decide +kernel)
    (isLineage_heirlooms "colour" (by decide +kernel) (by decide +kernel))
  have hown : View.hasOwn heirlooms ⟨0⟩ "colour" = false := by decide +kernel
  have hx : heirlooms.Inherits "colour" (.record ⟨1⟩) .undefined := by
    rw [← World.walk_eq_found_iff]
    decide +kernel
  obtain ⟨u, hu⟩ := hagrees.present.mpr (.inr ⟨_, hx⟩)
  obtain ⟨u', hu'⟩ := hagrees.inherited hown _ hx
  obtain ⟨u'', hu''⟩ := hagrees.handed.mpr ⟨hown, _, hx⟩
  exact ⟨u, u', u'', hu, hu', hu''⟩

end ScriptedArrays
