import ScriptedArrays.Proofs.Searching

/-! Searches with any predicate. A search finds the first element from its start on that satisfies
the predicate, in the array as it is when the search is called, and changes nothing. -/

namespace ScriptedArrays

open World

namespace World

def LogsOnly (w u : World) : Prop := ∃ l, u = { w with log := l }

instance : IsPreorder World LogsOnly where
  refl w := ⟨w.log, rfl⟩
  trans := by
    rintro w _ _ ⟨l, rfl⟩ ⟨m, rfl⟩
    exact ⟨m, rfl⟩

theorem logsOnly_logEvent (e : Event) : Keeps LogsOnly (logEvent e) := by
  intro w
  obtain ⟨l, hl⟩ := logEvent_eq e w
  exact ⟨l, after_of_ok hl⟩

end World

namespace Search

section Scans

variable {p : Nat → Except HostFault Bool} {s n j k : Nat} {q q' : Except HostFault Bool}

def RefusesUpTo (p : Nat → Except HostFault Bool) (s j : Nat) : Prop :=
  ∀ m, s ≤ m → m < j → p m = .ok false

structure First (p : Nat → Except HostFault Bool) (s n : Nat) (q : Except HostFault Bool)
    (j : Nat) : Prop where
  start : s ≤ j
  bound : j < n
  outcome : p j = q
  before : RefusesUpTo p s j

/-- What a scan of a range ends with. -/
inductive Finds (p : Nat → Except HostFault Bool) (s n : Nat) :
    Except HostFault (Option Nat) → Prop
  | found {j : Nat} : First p s n (.ok true) j → Finds p s n (.ok (some j))
  | absent : RefusesUpTo p s n → Finds p s n (.ok none)
  | fault {f : HostFault} {j : Nat} : First p s n (.error f) j → Finds p s n (.error f)

theorem RefusesUpTo.cons (hs : p s = .ok false) (h : RefusesUpTo p (s + 1) j) :
    RefusesUpTo p s j := by
  intro m hm hj
  by_cases hfirst : m = s
  · simp [hfirst, hs]
  · exact h m (by omega) hj

theorem First.cons (hs : p s = .ok false) (h : First p (s + 1) n q j) : First p s n q j :=
  ⟨Nat.le_of_succ_le h.start, h.bound, h.outcome, .cons hs h.before⟩

theorem Finds.cons {x : Except HostFault (Option Nat)} (hs : p s = .ok false)
    (h : Finds p (s + 1) n x) : Finds p s n x := by
  cases h with
  | found h => exact .found (.cons hs h)
  | absent h => exact .absent (.cons hs h)
  | fault h => exact .fault (.cons hs h)

theorem First.here (hs : s < n) : First p s n (p s) s := by
  refine ⟨Nat.le_refl s, hs, rfl, ?_⟩
  intro m hm hlt
  omega

theorem finds_firstFrom (passes : Operand → Except HostFault Bool) (e : Nat → Operand) (s n : Nat) :
    Finds (fun m => passes (e m)) s n (firstFrom passes s ((List.range' s (n - s)).map e)) := by
  induction hk : n - s generalizing s with
  | zero =>
    refine .absent fun m hm hn => ?_
    omega
  | succ k ih =>
    have hrest := ih (s + 1) (by omega)
    have hhere : First (fun m => passes (e m)) s n (passes (e s)) s := .here (by omega)
    simp only [List.range'_succ, List.map_cons, firstFrom]
    cases hs : passes (e s) with
    | error f => exact .fault (hs ▸ hhere)
    | ok b =>
      cases b with
      | true => exact .found (hs ▸ hhere)
      | false => exact hrest.cons hs

theorem RefusesUpTo.le (h : RefusesUpTo p s j) (hs : s ≤ k) (hk : p k ≠ .ok false) : j ≤ k := by
  by_contra hlt
  exact hk (h k hs (by omega))

theorem First.unique (hj : First p s n q j) (hk : First p s n q' k) (hq : q ≠ .ok false)
    (hq' : q' ≠ .ok false) : j = k := by
  have hle : j ≤ k := hj.before.le hk.start (by rwa [hk.outcome])
  have hge : k ≤ j := hk.before.le hj.start (by rwa [hj.outcome])
  omega

theorem First.not_refuses (hj : First p s n q j) (hq : q ≠ .ok false) : ¬ RefusesUpTo p s n :=
  fun h => hq (hj.outcome.symm.trans (h j hj.start hj.bound))

/-- A range has no more than one outcome. -/
theorem Finds.unique {x y : Except HostFault (Option Nat)} (hx : Finds p s n x)
    (hy : Finds p s n y) : x = y := by
  cases hx with
  | found hx =>
    cases hy with
    | found hy => simp [hx.unique hy nofun nofun]
    | absent hy => exact absurd hy (hx.not_refuses nofun)
    | fault hy =>
      have hsame := hx.outcome
      simp [hx.unique hy nofun nofun, hy.outcome] at hsame
  | absent hx =>
    cases hy with
    | found hy => exact absurd hx (hy.not_refuses nofun)
    | absent hy => rfl
    | fault hy => exact absurd hx (hy.not_refuses nofun)
  | fault hx =>
    cases hy with
    | found hy =>
      have hsame := hx.outcome
      simp [hx.unique hy nofun nofun, hy.outcome] at hsame
    | absent hy => exact absurd hy (hx.not_refuses nofun)
    | fault hy =>
      have hsame := hx.outcome
      rw [hx.unique hy nofun nofun, hy.outcome] at hsame
      simpa using hsame.symm

end Scans

section Arrays

variable {w : World} {array : Ref .array} {kind : SearchKind} {passes : Predicate} {args : List Value}
  {v : Value} {rest : List Value} {s : Int}

def judges (passes : Predicate) (w : World) (array : Ref .array) (sought : Value) (k : Nat) :
    Except HostFault Bool :=
  passes w (w.operand (w.hostValue sought)) (w.resolve (w.slotOperand (w.arrays.get array) k))

def givenStart (w : World) (args : List Value) : Except HostFault Int :=
  match args[1]? with
  | some v => w.intValue v
  | none => .ok 0

def indexStart (args : List Value) (s : Int) : Int := if s < 0 then s + args.length else s

def startOf (kind : SearchKind) (args : List Value) (s : Int) : Int :=
  match kind with
  | .indexOf => indexStart args s
  | _ => s

def position (found : Option Nat) : Int := found.elim (-1) Nat.cast

theorem start_eq (kind : SearchKind) (hargs : args ≠ []) :
    start w kind args = (givenStart w args).map (startOf kind args) := by
  match args with
  | [_] => cases kind <;> rfl
  | _ :: u :: _ =>
    show (w.intValue u >>= _) = (w.intValue u).map _
    cases w.intValue u with
    | error f => rfl
    | ok s =>
      cases kind with
      | indexOf =>
        by_cases hs : s < 0 <;> simp [startOf, indexStart, Except.map, hs, Int.add_comm]
      | _ => rfl

theorem drop_operands (w : World) (win : Window) (i : Nat) :
    ((w.operands win).drop i).map w.resolve =
      (List.range' i (win.length - i)).map fun k => w.resolve (w.slotOperand win k) := by
  simp [operands_eq, List.range_eq_range', List.drop_range', ← List.map_drop]

theorem scanBy_of_error {f : HostFault} (hf : start w kind (v :: rest) = .error f) :
    scanBy kind array passes (v :: rest) w = .error (.host f) w := by
  simp only [scanBy, get_bind_apply, hf]
  rfl

theorem scanBy_rejects (passes : Predicate) (hs : (w.arrays.get array).shape ≠ []) (hneg : s < 0)
    (hstart : start w kind (v :: rest) = .ok s) : scanBy kind array passes (v :: rest) w =
      (logEvent (.startRejected (functionName kind) s (w.arrays.get array).length) >>= fun _ =>
        fail (.outOfBounds (toString s) ((w.arrays.get array).length - 1))) w := by
  simp only [scanBy, get_bind_apply, hstart, orFail_bind_apply, List.isEmpty_iff, if_neg hs,
    if_pos hneg]

theorem scanBy_of_neg (passes : Predicate) (hs : (w.arrays.get array).shape ≠ []) (hneg : s < 0)
    (hstart : start w kind (v :: rest) = .ok s) : ∃ l, scanBy kind array passes (v :: rest) w =
      .error (.outOfBounds (toString s) ((w.arrays.get array).length - 1)) { w with log := l } := by
  obtain ⟨l, hl⟩ := logEvent_eq
    (.startRejected (functionName kind) s (w.arrays.get array).length) w
  rw [scanBy_rejects passes hs hneg hstart, bind_apply_of_ok _ hl]
  exact ⟨l, rfl⟩

theorem scanBy_of_nonneg (passes : Predicate) (hs : (w.arrays.get array).shape ≠ []) {i : Nat}
    (hstart : start w kind (v :: rest) = .ok i) :
    ∃ x, Finds (judges passes w array v) i (w.arrays.get array).length x ∧
      scanBy kind array passes (v :: rest) w = orFail (x.map position) w := by
  refine ⟨_, finds_firstFrom _ _ i _, ?_⟩
  simp only [scanBy, get_bind_apply, hstart, orFail_bind_apply, List.isEmpty_iff, if_neg hs,
    if_neg (Int.not_lt.mpr (Int.natCast_nonneg i)), Int.toNat_natCast, drop_operands]
  cases firstFrom _ i _ with
  | error f => rfl
  | ok found => cases found <;> rfl

/-- What the searches answer that are given a start: the first match from there on. -/
structure AnswersFrom (passes : Predicate) (w : World) (array : Ref .array) (args : List Value)
    (s : Int) : Prop where
  rejected : ∀ kind ≠ .bare, startOf kind args s < 0 → ∃ l, callBy kind array passes args w =
    .error (.outOfBounds (toString (startOf kind args s)) ((w.arrays.get array).length - 1))
      { w with log := l }
  found : ∀ i : Nat, indexStart args s = i → ∀ j : Nat,
    callBy .indexOf array passes args w = .ok (.int j) w ↔
      First (judges passes w array (argument args 0)) i (w.arrays.get array).length (.ok true) j
  absent : ∀ i : Nat, indexStart args s = i →
    (callBy .indexOf array passes args w = .ok (.int (-1)) w ↔
      RefusesUpTo (judges passes w array (argument args 0)) i (w.arrays.get array).length)
  fault : ∀ i : Nat, indexStart args s = i → ∀ f,
    callBy .indexOf array passes args w = .error (.host f) w ↔
      ∃ j, First (judges passes w array (argument args 0)) i (w.arrays.get array).length (.error f) j
  includes : 0 ≤ s → callBy .includes array passes args w =
    (callBy .indexOf array passes args >>= fun j => pure (.bool (j != .int (-1)))) w

theorem callBy_indexOf (array : Ref .array) (passes : Predicate) (args : List Value) :
    callBy .indexOf array passes args =
      scanBy .indexOf array passes args >>= fun j => pure (.int j) := rfl

theorem callBy_includes (array : Ref .array) (passes : Predicate) (args : List Value) :
    callBy .includes array passes args =
      scanBy .includes array passes args >>= fun j => pure (.bool (j != -1)) := rfl

theorem callBy_of_error {f : Fault} {u : World} (hkind : kind ≠ .bare)
    (h : scanBy kind array passes args w = .error f u) :
    callBy kind array passes args w = .error f u := by
  cases kind with
  | bare => exact absurd rfl hkind
  | indexOf => rw [callBy_indexOf, bind_apply_of_error _ h]
  | includes => rw [callBy_includes, bind_apply_of_error _ h]

theorem position_injective : Function.Injective position := by
  intro a b h
  cases a <;> cases b <;> simp [position] at h ⊢
  all_goals omega

theorem map_position_injective {x y : Except HostFault (Option Nat)}
    (h : x.map (Value.int ∘ position) = y.map (.int ∘ position)) : x = y := by
  cases x <;> cases y <;> simp [Except.map] at h ⊢
  · exact h
  · exact position_injective h

theorem orFail_injective {α : Type} {a b : Except HostFault α} (h : orFail a w = orFail b w) :
    a = b := by
  cases a <;> cases b <;> cases h <;> rfl

theorem callBy_indexOf_iff (hs : (w.arrays.get array).shape ≠ []) {i : Nat}
    (hstart : start w .indexOf (v :: rest) = .ok i) (y : Except HostFault (Option Nat)) :
    callBy .indexOf array passes (v :: rest) w = orFail (y.map (.int ∘ position)) w ↔
      Finds (judges passes w array v) i (w.arrays.get array).length y := by
  obtain ⟨x, hx, hscan⟩ := scanBy_of_nonneg passes hs hstart
  have hcall : callBy .indexOf array passes (v :: rest) w = orFail (x.map (.int ∘ position)) w := by
    simp only [callBy_indexOf, bind, EStateM.bind, hscan]
    cases x <;> rfl
  constructor
  · intro hy
    have hsame : x.map (Value.int ∘ position) = y.map (Value.int ∘ position) :=
      orFail_injective (hcall.symm.trans hy)
    rwa [← map_position_injective hsame]
  · intro hy
    rw [hcall, hx.unique hy]

theorem start_of_error {f : HostFault} (hargs : args ≠ [])
    (h : givenStart w args = .error f) : start w kind args = .error f := by
  rw [start_eq kind hargs, h]
  rfl

theorem start_of_given (hargs : args ≠ []) (h : givenStart w args = .ok s) :
    start w kind args = .ok (startOf kind args s) := by
  rw [start_eq kind hargs, h]
  rfl

theorem startOf_of_nonneg (hs : 0 ≤ s) : startOf kind args s = s := by
  cases kind <;> simp [startOf, indexStart, Int.not_lt.mpr hs]

theorem found_iff {p : Nat → Except HostFault Bool} {i n j : Nat} :
    Finds p i n (.ok (some j)) ↔ First p i n (.ok true) j := by
  constructor
  · rintro ⟨⟩
    assumption
  · exact .found

theorem absent_iff {p : Nat → Except HostFault Bool} {i n : Nat} :
    Finds p i n (.ok none) ↔ RefusesUpTo p i n := by
  constructor
  · rintro ⟨⟩
    assumption
  · exact .absent

theorem fault_iff {p : Nat → Except HostFault Bool} {i n : Nat} {f : HostFault} :
    Finds p i n (.error f) ↔ ∃ j, First p i n (.error f) j := by
  constructor
  · rintro ⟨⟩
    exact ⟨_, ‹_›⟩
  · rintro ⟨j, h⟩
    exact .fault h

theorem answersFrom (hs : (w.arrays.get array).shape ≠ []) (passes : Predicate) (v : Value)
    (rest : List Value) (h : givenStart w (v :: rest) = .ok s) :
    AnswersFrom passes w array (v :: rest) s := by
  have hstart : ∀ kind, start w kind (v :: rest) = .ok (startOf kind (v :: rest) s) :=
    fun kind => start_of_given (List.cons_ne_nil v rest) h
  have hindex : ∀ i : Nat, indexStart (v :: rest) s = i → start w .indexOf (v :: rest) = .ok i := by
    intro i hi
    rw [hstart, ← hi]
    rfl
  constructor
  · intro kind hkind hneg
    obtain ⟨l, hl⟩ := scanBy_of_neg passes hs hneg (hstart kind)
    exact ⟨l, callBy_of_error hkind hl⟩
  · intro i hi j
    rw [← found_iff]
    exact callBy_indexOf_iff hs (hindex i hi) (.ok (some j))
  · intro i hi
    rw [← absent_iff]
    exact callBy_indexOf_iff hs (hindex i hi) (.ok none)
  · intro i hi f
    rw [← fault_iff]
    exact callBy_indexOf_iff hs (hindex i hi) (.error f)
  · intro hnonneg
    lift s to Nat using hnonneg
    have hsame : ∀ kind, start w kind (v :: rest) = .ok s := by
      intro kind
      rw [hstart, startOf_of_nonneg (Int.natCast_nonneg s)]
    obtain ⟨x, hx, hscan⟩ := scanBy_of_nonneg passes hs (hsame .indexOf)
    obtain ⟨y, hy, hscan'⟩ := scanBy_of_nonneg passes hs (hsame .includes)
    rw [hx.unique hy] at hscan
    have hint : ∀ j : Int, (Value.int j != .int (-1)) = (j != -1) :=
      fun j => congrArg not (Function.Injective.beq_eq fun _ _ => Value.int.inj)
    simp only [callBy_indexOf, callBy_includes, bind, EStateM.bind, hscan, hscan']
    cases y with
    | error f => rfl
    | ok found =>
      show EStateM.Result.ok (Value.bool (position found != -1)) w = _
      rw [← hint]
      rfl

theorem logsOnly_callBy (kind : SearchKind) (array : Ref .array) (passes : Predicate)
    (args : List Value) : Keeps LogsOnly (callBy kind array passes args) :=
  keeps_callBy logsOnly_logEvent kind array passes args

/-- A search with any predicate answers with the first match from its start on, in the array as it
is at the time of the call. Without arguments it does not search. -/
theorem finds_first (hs : (w.arrays.get array).shape ≠ []) (passes : Predicate) :
    (∀ kind ≠ .bare, callBy kind array passes [] w =
      .error (.missingArgument (functionName kind)) w) ∧
    (∀ args ≠ [], (∀ f, givenStart w args = .error f → ∀ kind ≠ .bare,
        callBy kind array passes args w = .error (.host f) w) ∧
      ∀ s, givenStart w args = .ok s → AnswersFrom passes w array args s) ∧
    (∀ kind args, w.LogsOnly (w.after (callBy kind array passes args))) ∧
    ∀ f this args kind test, (w.functions.get f).body = .search kind array test →
      ScriptedArrays.call f this args w = callBy kind array (Search.passes · test) args w := by
  refine ⟨?_, ?_, fun kind args => logsOnly_callBy kind array passes args w, ?_⟩
  · intro kind hkind
    exact callBy_of_error hkind rfl
  · intro args hargs
    obtain ⟨v, rest, rfl⟩ := List.exists_cons_of_ne_nil hargs
    constructor
    · intro f hf kind hkind
      exact callBy_of_error hkind (scanBy_of_error (start_of_error hargs hf))
    · intro s h
      exact answersFrom hs passes v rest h
  · intro f this args kind test hbody
    rw [ScriptedArrays.call, callNesting, callTo, look_bind_apply, hbody]
    rfl

/-- A search from minus one on with two arguments passes over the first byte. -/
theorem indexOf_from_last : (echoes.arrays.get ⟨1⟩).shape ≠ [] ∧
    callBy .indexOf ⟨1⟩ (Search.passes · .equal) [.bytes [233], .int (-1)] echoes =
      .ok (.int 2) echoes := by
  have hshape : (echoes.arrays.get ⟨1⟩).shape ≠ [] := by decide
  have hgiven : givenStart echoes [.bytes [233], .int (-1)] = .ok (-1) := by decide +kernel
  obtain ⟨-, hsearch, -, -⟩ := finds_first hshape (Search.passes · .equal)
  obtain ⟨-, hanswers⟩ := hsearch [.bytes [233], .int (-1)] nofun
  refine ⟨hshape, ((hanswers (-1) hgiven).found 1 rfl 2).mpr ⟨by decide, by decide, by rfl, ?_⟩⟩
  intro m hm hlt
  obtain rfl : m = 1 := by omega
  rfl

end Arrays
end Search
end ScriptedArrays
