import ScriptedArrays.Proofs.Execution
import ScriptedArrays.Proofs.RowForms

/-! Visits. The methods of script arrays that call back visit each index below the length that the
receiver had at first, one round after the other: the item is read, and then the callback answers
to it. A fault ends the visits, and what the rounds before it did stays. -/

namespace ScriptedArrays

open World

def World.Resembles (w w' : World) : Prop := w' = { w with inUse := w'.inUse }

def Gives {α : Type} (act : Action α) (w : World) (a : α) (w' : World) : Prop :=
  ∃ u u', w.Resembles u ∧ act u = .ok a u' ∧ u'.Resembles w'

def Fails {α : Type} (act : Action α) (w : World) (e : Fault) (w' : World) : Prop :=
  ∃ u, w.Resembles u ∧ act u = .error e w'

def EndsLike {α : Type} (act act' : Action α) : Prop :=
  ∀ w, (∃ a w', act w = .ok a w' ∧ Gives act' w a w') ∨
    ∃ e w', act w = .error e w' ∧ Fails act' w e w'

theorem World.Resembles.refl (w : World) : w.Resembles w := rfl

theorem World.resembles_inUse (w : World) (vs : List Value) : w.Resembles { w with inUse := vs } := rfl

theorem endsLike_self {α : Type} (act : Action α) : EndsLike act act := by
  intro w
  cases h : act w with
  | ok a w' => exact .inl ⟨a, w', rfl, w, w', .refl w, h, .refl w'⟩
  | error e w' => exact .inr ⟨e, w', rfl, w, .refl w, h⟩

theorem endsLike_holding {α : Type} (vs : List Value) (act : Action α) :
    EndsLike (holding vs act) act := by
  intro w
  cases h : act { w with inUse := vs ++ w.inUse } with
  | ok a w' =>
    exact .inl ⟨a, _, holding_of_ok h, _, w', w.resembles_inUse _, h, w'.resembles_inUse _⟩
  | error e w' => exact .inr ⟨e, w', holding_of_error h, _, w.resembles_inUse _, h⟩

namespace ArrayMethod

structure Round where
  item : Value
  answer : Value

namespace Visit

/-- One round leads from one world to another one: in the first one the item at the index is read,
and the callback runs in the world that this leaves. -/
def Does (visit : Visit) (i : Nat) (w : World) (round : Round) (w' : World) : Prop :=
  ∃ u, Gives (Receiver.item visit.this i) w round.item u ∧
    Gives (visit.answer round.item i) u round.answer w'

/-- The round at the index fails: the item cannot be read, or the callback fails. -/
def Breaks (visit : Visit) (i : Nat) (w : World) (e : Fault) (w' : World) : Prop :=
  Fails (Receiver.item visit.this i) w e w' ∨
    ∃ v u, Gives (Receiver.item visit.this i) w v u ∧ Fails (visit.answer v i) u e w'

/-- The rounds at the first indices in order, each in the world that the one before it leaves. -/
inductive Rounds (visit : Visit) (start : World) : List Round → World → Prop
  | none : Rounds visit start [] start
  | next {done : List Round} {round : Round} {w w' : World} (earlier : Rounds visit start done w)
      (h : visit.Does done.length w round w') : Rounds visit start (done ++ [round]) w'

/-- After some rounds an action makes the given number of further ones and ends with what comes out
of them, unless one of them fails. -/
def Makes {α : Type} (visit : Visit) (done : List Round) (count : Nat) (act : Action α)
    (out : List Round → α) : Prop :=
  ∀ start w, Rounds visit start done w →
    (∃ later u, Rounds visit start (done ++ later) u ∧ later.length = count ∧
      act w = .ok (out later) u) ∨
    ∃ later u e u', Rounds visit start (done ++ later) u ∧ later.length < count ∧
      visit.Breaks (done.length + later.length) u e u' ∧ act w = .error e u'

section

variable {α β : Type} {visit : Visit} {done : List Round} {count : Nat}

theorem makes_pure (out : List Round → α) : Makes visit done 0 (pure (out [])) out := fun _ w h =>
  .inl ⟨[], w, by rwa [List.append_nil], rfl, rfl⟩

theorem Makes.map {act : Action α} {out : List Round → α} (h : Makes visit done count act out)
    (f : α → β) : Makes visit done count (act >>= fun a => pure (f a)) (f ∘ out) := by
  intro start w hw
  rcases h start w hw with ⟨later, u, hu, hl, hok⟩ | ⟨later, u, e, u', hu, hl, hb, herr⟩
  · exact .inl ⟨later, u, hu, hl, bind_apply_of_ok _ hok⟩
  · exact .inr ⟨later, u, e, u', hu, hl, hb, bind_apply_of_error _ herr⟩

/-- A round and what follows it. -/
theorem Makes.step {read : Action Value} {answer : Value → Action Value}
    {rest : Value → Value → Action α} {out : List Round → α}
    (hread : EndsLike read (Receiver.item visit.this done.length))
    (hanswer : ∀ v, EndsLike (answer v) (visit.answer v done.length))
    (hrest : ∀ v a, Makes visit (done ++ [⟨v, a⟩]) count (rest v a) fun later =>
      out (⟨v, a⟩ :: later)) :
    Makes visit done (count + 1) (read >>= fun v => answer v >>= fun a => rest v a) out := by
  intro start w hw
  -- either the item cannot be read, or the callback fails, or the round is added to those before it
  rcases hread w with ⟨v, u, hv, hitem⟩ | ⟨e, u, he, hitem⟩
  · rw [bind_apply_of_ok _ hv]
    rcases hanswer v u with ⟨a, w', ha, hcall⟩ | ⟨e, w', he, hcall⟩
    · rw [bind_apply_of_ok _ ha]
      have hnext : Rounds visit start (done ++ [⟨v, a⟩]) w' := .next hw ⟨u, hitem, hcall⟩
      rcases hrest v a start w' hnext with
        ⟨later, x, hx, hl, hok⟩ | ⟨later, x, e, x', hx, hl, hb, herr⟩
      · rw [List.append_assoc] at hx
        exact .inl ⟨⟨v, a⟩ :: later, x, hx, by rw [List.length_cons, hl], hok⟩
      · rw [List.append_assoc] at hx
        refine .inr ⟨⟨v, a⟩ :: later, x, e, x', hx, Nat.succ_lt_succ hl, ?_, herr⟩
        rw [List.length_append, List.length_singleton, Nat.add_assoc, Nat.add_comm 1] at hb
        exact hb
    · refine .inr ⟨[], w, e, w', by rwa [List.append_nil], Nat.succ_pos count, ?_,
        bind_apply_of_error _ he⟩
      exact .inr ⟨v, u, hitem, hcall⟩
  · refine .inr ⟨[], w, e, u, by rwa [List.append_nil], Nat.succ_pos count, .inl hitem, ?_⟩
    exact bind_apply_of_error _ he

theorem Makes.finish {act : Action α} {out : List Round → α} (h : Makes visit [] count act out)
    (rest : α → Action β) (start : World) :
    (∃ rounds u, Rounds visit start rounds u ∧ rounds.length = count ∧
      (act >>= rest) start = rest (out rounds) u) ∨
    ∃ rounds u e u', Rounds visit start rounds u ∧ rounds.length < count ∧
      visit.Breaks rounds.length u e u' ∧ (act >>= rest) start = .error e u' := by
  rcases h start start .none with ⟨rounds, u, hu, hl, hok⟩ | ⟨rounds, u, e, u', hu, hl, hb, herr⟩
  · exact .inl ⟨rounds, u, hu, hl, bind_apply_of_ok _ hok⟩
  · refine .inr ⟨rounds, u, e, u', hu, hl, ?_, bind_apply_of_error _ herr⟩
    rwa [List.length_nil, Nat.zero_add] at hb

theorem makes_runAt (visit : Visit) (done : List Round) (count : Nat) :
    Makes visit done count (visit.runAt (List.range' done.length count)) fun _ => () := by
  induction count generalizing done with
  | zero => exact makes_pure fun _ => ()
  | succ count ih =>
    rw [List.range'_succ, runAt]
    refine .step (endsLike_self _) (fun v => endsLike_holding _ _) fun v a => ?_
    have hnext := ih (done ++ [⟨v, a⟩])
    rwa [List.length_append] at hnext

theorem makes_answersAt (visit : Visit) (earlier : List Value) (done : List Round) (count : Nat) :
    Makes visit done count (visit.answersAt earlier (List.range' done.length count))
      fun later => later.map (·.answer) := by
  induction count generalizing earlier done with
  | zero => exact makes_pure fun later => later.map (·.answer)
  | succ count ih =>
    rw [List.range'_succ, answersAt]
    refine .step (endsLike_holding _ _) (fun v => endsLike_holding _ _) fun v a => ?_
    have hnext := ih (a :: earlier) (done ++ [⟨v, a⟩])
    rw [List.length_append] at hnext
    exact hnext.map (a :: ·)

def accepted (rounds : List Round) : List Value :=
  (rounds.filter (·.answer.truth)).map (·.item)

theorem makes_acceptedAt (visit : Visit) (previous : Value) (earlier : List Value)
    (done : List Round) (count : Nat) : Makes visit done count
      (visit.acceptedAt previous earlier (List.range' done.length count)) accepted := by
  induction count generalizing previous earlier done with
  | zero => exact makes_pure accepted
  | succ count ih =>
    rw [List.range'_succ, acceptedAt]
    refine .step (endsLike_holding _ _) (fun v => endsLike_holding _ _) fun v a => ?_
    by_cases ha : a.truth = true
    · have hnext := ih v (v :: earlier) (done ++ [⟨v, a⟩])
      have hout : (fun later => accepted (⟨v, a⟩ :: later)) = (v :: ·) ∘ accepted := by
        funext later
        simp [accepted, ha]
      rw [List.length_append] at hnext
      rw [if_pos ha, hout]
      exact hnext.map (v :: ·)
    · have hnext := ih v earlier (done ++ [⟨v, a⟩])
      have hout : (fun later => accepted (⟨v, a⟩ :: later)) = accepted := by
        funext later
        simp [accepted, ha]
      rw [List.length_append] at hnext
      rw [if_neg ha, hout]
      exact hnext

end
end Visit
end ArrayMethod

/-- The entries of a script array of these items as they are kept. -/
structure Entries.IsArray (e : Entries) (prototype : Ref .record) (items : List Value) : Prop where
  names : e.names = protoKey :: "length" :: (List.range items.length).map fun i : Nat => toString i
  prototype : e.get? protoKey = some (.record prototype)
  length : ∃ n, e.get? "length" = some n ∧ n.content = .int items.length
  item : ∀ i, ∀ h : i < items.length, ∃ x, e.get? (toString i) = some x ∧ x.IsKept items[i]

theorem get?_of_kept {es e : Entries}
    (h : List.Forall₂ (fun a b => a.1 = b.1 ∧ a.2.IsKept b.2) es e) {name : String} {x : Value}
    (hx : e.get? name = some x) : ∃ y, es.get? name = some y ∧ y.IsKept x := by
  induction h with
  | nil => cases hx
  | @cons a b es e hab _ ih =>
    simp only [Entries.get?] at hx ih ⊢
    by_cases hb : b.1 = name
    · rw [List.find?_cons_of_pos (by simpa using hb)] at hx
      cases hx
      refine ⟨a.2, ?_, hab.2⟩
      rw [List.find?_cons_of_pos (by simpa [hab.1] using hb)]
      rfl
    · rw [List.find?_cons_of_neg (by simpa using hb)] at hx
      rw [List.find?_cons_of_neg (by simpa [hab.1] using hb)]
      exact ih hx

def IsNewArray (prototype : Ref .record) (items : List Value) (w : World)
    (result : EStateM.Result Fault World Value) : Prop :=
  ∃ es n, result =
      .ok (.record w.records.next) { w with kept := n, records := w.records.push es } ∧
    es.IsArray prototype items

theorem isNewArray_makeArray (prototype : Ref .record) (items : List Value) (w : World) :
    IsNewArray prototype items w (makeArray prototype items w) := by
  obtain ⟨es, n, hes, hkept⟩ := newRecord_spec (arrayEntries prototype items) w
  have hentry : ∀ i, ∀ h : i < (arrayEntries prototype items).length,
      ∃ x, es.get? (arrayEntries prototype items)[i].1 = some x ∧
        x.IsKept (arrayEntries prototype items)[i].2 := fun i h =>
    get?_of_kept hkept (Entries.get?_of_nodup (nodup_arrayEntries prototype items) h)
  refine ⟨es, n, ?_, ?_⟩
  · rw [makeArray, bind_apply_of_ok _ hes]
    rfl
  · constructor
    · rw [names_of_kept hkept, names_arrayEntries]
    · obtain ⟨x, hx, hsame⟩ := hentry 0 (by simp [arrayEntries])
      rw [hsame.same rfl] at hx
      exact hx
    · obtain ⟨x, hx, hsame⟩ := hentry 1 (by simp [arrayEntries])
      exact ⟨x, hx, hsame.content⟩
    · intro i hi
      obtain ⟨x, hx, hsame⟩ := hentry (i + 2) (by simp [arrayEntries, hi])
      exact ⟨x, by simpa [arrayEntries] using hx, by simpa [arrayEntries] using hsame⟩

namespace ArrayMethod

def Concludes (m : ArrayMethod) (prototype : Ref .record) (rounds : List Round) (w : World)
    (result : EStateM.Result Fault World Value) : Prop :=
  match m with
  | forEach => result = .ok .undefined w
  | map => IsNewArray prototype (rounds.map (·.answer)) w result
  | filter => IsNewArray prototype (Visit.accepted rounds) w result
  | _ => False

/-- The methods that call back make one round at each index below the length that the receiver has
at first, in order. They come to their result, or a round fails and ends them as it ends. -/
theorem visits_in_order {m : ArrayMethod} (hm : m = forEach ∨ m = map ∨ m = filter) (call : Caller)
    (prototype : Ref .record) {this : Value} (args : List Value) {w w₀ : World} {n : Nat}
    (hn : Receiver.length this w = .ok n w₀) :
    (∃ rounds u, (Visit.ofArguments call this args).Rounds w₀ rounds u ∧ rounds.length = n ∧
      m.Concludes prototype rounds u (run call m prototype this args w)) ∨
    ∃ rounds u e u', (Visit.ofArguments call this args).Rounds w₀ rounds u ∧ rounds.length < n ∧
      (Visit.ofArguments call this args).Breaks rounds.length u e u' ∧
      run call m prototype this args w = .error e u' := by
  have hrange : List.range n = List.range' ([] : List Round).length n := List.range_eq_range'
  rcases hm with rfl | rfl | rfl
  · have hrun : run call forEach prototype this args w =
        ((Visit.ofArguments call this args).runAt (List.range n) >>= fun _ => pure .undefined) w₀ :=
      bind_apply_of_ok _ hn
    rw [hrun, hrange]
    rcases (Visit.makes_runAt _ [] n).finish _ w₀ with ⟨rounds, u, hu, hl, hok⟩ | hbroken
    · exact .inl ⟨rounds, u, hu, hl, hok⟩
    · exact .inr hbroken
  · have hrun : run call map prototype this args w =
        ((Visit.ofArguments call this args).answersAt [] (List.range n) >>= makeArray prototype) w₀ :=
      bind_apply_of_ok _ hn
    rw [hrun, hrange]
    rcases (Visit.makes_answersAt _ [] [] n).finish _ w₀ with ⟨rounds, u, hu, hl, hok⟩ | hbroken
    · refine .inl ⟨rounds, u, hu, hl, ?_⟩
      rw [hok]
      exact isNewArray_makeArray _ _ _
    · exact .inr hbroken
  · have hrun : run call filter prototype this args w =
        ((Visit.ofArguments call this args).acceptedAt .undefined [] (List.range n) >>=
          makeArray prototype) w₀ := bind_apply_of_ok _ hn
    rw [hrun, hrange]
    rcases (Visit.makes_acceptedAt _ .undefined [] [] n).finish _ w₀ with
      ⟨rounds, u, hu, hl, hok⟩ | hbroken
    · refine .inl ⟨rounds, u, hu, hl, ?_⟩
      rw [hok]
      exact isNewArray_makeArray _ _ _
    · exact .inr hbroken

def couplet : World := World.empty.afterAll [
  .newRecord [],
  .newRecord [("length", .int 2), ("0", .text "rose"), ("1", .text "thorn")]]

def emptying : Caller := fun _ this args => (Callback.writeLength (.int 0)).run this args

theorem length_couplet : Receiver.length (.record ⟨1⟩) couplet = .ok 2 couplet := by
  have hn : couplet.numberOf (((couplet.records.get ⟨1⟩).getD "length" (.int 0))) =
      .ok (Double.ofInt (2 : Nat)) := numberOf_length couplet (by decide) (by decide)
  have hnum : numberOf (((couplet.records.get ⟨1⟩).getD "length" (.int 0))) couplet =
      .ok (Double.ofInt (2 : Nat)) couplet := by
    rw [numberOf, hn]
  rw [Receiver.length, get_bind_apply, bind_apply_of_ok _ hnum, Double.asLength_ofInt (by decide)]
  rfl

/-- The callback answers twice, although the receiver has no length any more from the first round
on. -/
theorem map_over_emptied :
    ∃ rounds u, (Visit.ofArguments emptying (.record ⟨1⟩) []).Rounds couplet rounds u ∧
      rounds.length = 2 ∧
      map.Concludes ⟨0⟩ rounds u (run emptying map ⟨0⟩ (.record ⟨1⟩) [] couplet) := by
  rcases visits_in_order (.inr (.inl rfl)) emptying ⟨0⟩ [] length_couplet with h | h
  · exact h
  · obtain ⟨_, _, e, u, _, _, _, herror⟩ := h
    have hends : (match run emptying map ⟨0⟩ (.record ⟨1⟩) [] couplet with
      | .ok .. => true
      | .error .. => false) = true := by decide +kernel
    rw [herror] at hends
    cases hends

end ArrayMethod
end ScriptedArrays
