import ScriptedArrays.Proofs.Resolution

/-! Concealed members. A name that is not exposed, or that starts with an underscore, is no member
of a box or view, whatever members the host value has. A box knows nothing of it, and what a view
answers about it comes from its prototype alone, so that two views with the same prototype answer
alike. -/

namespace ScriptedArrays

open World

/-- The name is not exposed or starts with an underscore. -/
def Conceals (exposed : List String) (name : String) : Prop :=
  name ∉ exposed ∨ name.startsWith "_" = true

/-- The view has no member of its own under the name, whatever its array has. -/
def View.Conceals (w : World) (q : Ref .view) (name : String) : Prop :=
  name ∉ viewMembers ∧ ScriptedArrays.Conceals (w.views.get q).exposed name

section

variable {w w' u : World} {name key : String} {p v x : Value}

theorem exposes_of_conceals {exposed : List String} (h : Conceals exposed name) (value : Value) :
    w.exposes exposed value name = false := by
  rcases h with h | h
  · simp [exposes, h]
  · simp [exposes, h]

theorem Box.hasOwn_of_conceals {b : Ref .box} (h : Conceals (w.boxes.get b).exposed name) :
    Box.hasOwn w b name = false := exposes_of_conceals h _

theorem View.hasOwn_of_conceals {q : Ref .view} (h : View.Conceals w q name) :
    View.hasOwn w q name = false := by
  rw [hasOwn, exposes_of_conceals h.2, Bool.or_false]
  exact decide_eq_false h.1

namespace World

/-- The prototype entries from a value lead along records only, to their end or around. -/
def IsChain (w : World) (v : Value) : Prop := ∀ x, w.Meets v x → x = .null ∨ ∃ r, x = .record r

def SharesChain (w w' : World) (v : Value) : Prop :=
  ∀ r, w.Meets v (.record r) → w'.records.get r = w.records.get r

theorem SharesChain.next {r : Ref .record} (h : w.SharesChain w' (.record r)) :
    w.SharesChain w' ((w.records.get r).getD protoKey .null) := fun s hs => h s (.further hs)

theorem SharesChain.inherits (h : w.SharesChain w' v) (hx : w.Inherits key v x) :
    w'.Inherits key v x := by
  induction hx with
  | @here r x hget =>
    have hr := h r (.here _)
    exact .here (hr ▸ hget)
  | @further r x hget _ ih =>
    have hr := h r (.here _)
    refine .further (hr ▸ hget) ?_
    rw [hr]
    exact ih h.next

theorem SharesChain.inherits_of (h : w.SharesChain w' v) (hx : w'.Inherits key v x) :
    w.Inherits key v x := by
  induction hx with
  | @here r x hget =>
    have hr := h r (.here _)
    exact .here (hr ▸ hget)
  | @further r x hget _ ih =>
    have hr := h r (.here _)
    refine .further (hr ▸ hget) ?_
    rw [hr] at ih
    exact ih h.next

theorem SharesChain.meets (h : w.SharesChain w' v) (hx : w'.Meets v x) : w.Meets v x := by
  induction hx with
  | here v => exact .here v
  | @further r x _ ih =>
    have hr := h r (.here _)
    rw [hr] at ih
    exact .further (ih h.next)

theorem SharesChain.isChain (h : w.SharesChain w' v) (hc : w.IsChain v) : w'.IsChain v :=
  fun x hx => hc x (h.meets hx)

theorem IsChain.walk_eq_nowhere (h : w.IsChain v) (hno : ∀ x, ¬ w.Inherits key v x) :
    w.walk key v = .nowhere := by
  cases hwalk : w.walk key v with
  | found x => exact absurd (walk_eq_found_iff.mp hwalk) (hno x)
  | nowhere => rfl
  | beyond x =>
    obtain ⟨hmeets, hnull, hrecord⟩ := meets_of_walkFrom hwalk
    rcases h x hmeets with rfl | ⟨r, rfl⟩
    · exact absurd rfl hnull
    · exact absurd rfl (hrecord r)

theorem SharesChain.walk (h : w.SharesChain w' v) (hc : w.IsChain v) :
    w'.walk key v = w.walk key v := by
  by_cases hx : ∃ x, w.Inherits key v x
  · obtain ⟨x, hx⟩ := hx
    rw [walk_eq_found_iff.mpr hx, walk_eq_found_iff.mpr (h.inherits hx)]
  · have hno : ∀ x, ¬ w.Inherits key v x := fun x h => hx ⟨x, h⟩
    rw [hc.walk_eq_nowhere hno, (h.isChain hc).walk_eq_nowhere fun x h' => hno x (h.inherits_of h')]

end World

def Trail.tells : Trail → Bool
  | .found x => x != .missing
  | _ => false

def Trail.value : Trail → Value
  | .found x => Property.orUndefined x
  | _ => .undefined

theorem Property.hasTo_of_chain (h : w.IsChain p) (hu : u.records = w.records) (depth : Nat) :
    hasTo (depth + 1) p name u = .ok (w.walk name p).tells u := by
  have hwalk := walk_congr hu name p
  rcases h p (.here p) with rfl | ⟨r, rfl⟩
  · rw [hasTo]
    rfl
  · rw [hasTo, get_bind_apply, hwalk]
    cases hend : w.walk name (.record r) with
    | found x => rfl
    | nowhere => rfl
    | beyond x =>
      obtain ⟨hmeets, hnull, hrecord⟩ := meets_of_walkFrom hend
      rcases h x hmeets with rfl | ⟨s, rfl⟩
      · exact absurd rfl hnull
      · exact absurd rfl (hrecord s)

theorem Property.along_of_chain (h : w.IsChain p) (hu : u.records = w.records) (depth : Nat) :
    along depth name p u = .ok (w.walk name p).value u := by
  have hwalk := walk_congr hu name p
  rw [along, get_bind_apply, hwalk]
  cases hend : w.walk name p with
  | found x => rfl
  | nowhere => rfl
  | beyond x =>
    obtain ⟨hmeets, hnull, hrecord⟩ := meets_of_walkFrom hend
    rcases h x hmeets with rfl | ⟨s, rfl⟩
    · exact absurd rfl hnull
    · exact absurd rfl (hrecord s)

namespace View

variable {q : Ref .view}

structure Passes (w : World) (q : Ref .view) (name : String) (t : Trail) : Prop where
  present : w.answer (Property.has (.view q) name) = .ok t.tells
  own : w.answer (View.own q name) =
    if t.tells then .ok .missing else .error (.noSuchMember "numpy.ndarray" name)
  value : w.answer (Property.read (.view q) name) =
    if t.tells then .ok t.value else .error (.noSuchMember "numpy.ndarray" name)

/-- What a view answers about a name that it lacks, if its prototype cannot be found. -/
structure Fails (w : World) (q : Ref .view) (name : String) (f : Fault) : Prop where
  present : w.answer (Property.has (.view q) name) = .error f
  own : w.answer (View.own q name) = .error f
  value : w.answer (Property.read (.view q) name) = .error f

theorem has_of_resolved (h : w.resolved? q = .ok p) : w.views.Has q := by
  by_contra hno
  have hview : w.views.get q = default := Store.get_of_not_has _ hno
  rw [resolved?, hview] at h
  cases h

theorem passes_of_resolved (ho : hasOwn w q name = false) (hp : w.resolved? q = .ok p)
    (hc : w.IsChain p) : Passes w q name (w.walk name p) := by
  obtain ⟨u, hanswers, -, hrecords⟩ := answersWith_of_resolved (has_of_resolved hp) hp
  have hasked : ∀ depth, Property.hasTo (depth + 1) p name u = .ok (w.walk name p).tells u :=
    Property.hasTo_of_chain hc hrecords
  have hhas : Property.has p name u = .ok (w.walk name p).tells u := hasked _
  constructor
  · exact answer_of_ok ((hanswers.has name ho).trans (hasked _))
  · rw [answer, hanswers.own name ho, bind_apply_of_ok _ hhas]
    cases (w.walk name p).tells <;> rfl
  · rw [answer, hanswers.read name ho, bind_apply_of_ok _ (hasked _)]
    cases (w.walk name p).tells with
    | false => rfl
    | true =>
      simp only [if_true]
      rw [Property.along_of_chain hc hrecords]

theorem fails_of_resolved {f : Fault} (ho : hasOwn w q name = false)
    (hf : w.resolved? q = .error f) : Fails w q name f := by
  obtain ⟨l, hl⟩ := findPrototype_of_failed hf
  have hfails := failsWith_of_error hl
  constructor
  · exact answer_of_error (hfails.has name ho)
  · exact answer_of_error (hfails.own name ho)
  · exact answer_of_error (hfails.read name ho)

end View
end

/-- Two views whose prototypes are found alike, along the same records. -/
structure World.SharesPrototype (w w' : World) (q q' : Ref .view) : Prop where
  resolved : w'.resolved? q' = w.resolved? q
  chain : ∀ p, w.resolved? q = .ok p → w.IsChain p ∧ w.SharesChain w' p

/-- Nothing of a host value shows under a concealed name. To a box the name is unknown, and a view
hands it on to its prototype: two views with the same prototype answer alike, whatever their arrays
hold and whatever else differs between their worlds. -/
theorem lookups_of_concealed (w w' : World) (name : String) :
    (∀ b, Conceals (w.boxes.get b).exposed name →
      Box.hasOwn w b name = false ∧ w.answer (Box.own b name) = .ok .missing ∧
      w.answer (Property.read (.box b) name) = .ok .undefined ∧
      w.answer (Property.has (.box b) name) = .ok false) ∧
    (∀ q q', View.Conceals w q name → View.Conceals w' q' name → w.SharesPrototype w' q q' →
      View.hasOwn w q name = false ∧
      (∀ x, w.answer (View.own q name) = .ok x → x = .missing) ∧
      w'.answer (View.own q' name) = w.answer (View.own q name) ∧
      w'.answer (Property.read (.view q') name) = w.answer (Property.read (.view q) name) ∧
      w'.answer (Property.has (.view q') name) = w.answer (Property.has (.view q) name) ∧
      ∀ p, w.resolved? q = .ok p →
        (∀ x, w.Inherits name p x → x ≠ .missing →
          w.answer (Property.read (.view q) name) = .ok x ∧
          w.answer (Property.has (.view q) name) = .ok true) ∧
        ((∀ x, w.Inherits name p x → x = .missing) →
          w.answer (Property.read (.view q) name) = .error (.noSuchMember "numpy.ndarray" name) ∧
          w.answer (Property.has (.view q) name) = .ok false)) := by
  refine ⟨fun b hb => ?_, fun q q' hq hq' hsame => ?_⟩
  · have ho := Box.hasOwn_of_conceals hb
    have hown := Box.own_of_not_hasOwn ho
    refine ⟨ho, answer_of_ok hown, ?_, ?_⟩
    · rw [answer, Property.read, get_bind_apply, Property.nesting, Property.readTo_box,
        bind_apply_of_ok _ hown]
      rfl
    · rw [answer, Property.has, get_bind_apply, Property.nesting, Property.hasTo, get_bind_apply, ho]
      rfl
  · have ho := View.hasOwn_of_conceals hq
    have ho' := View.hasOwn_of_conceals hq'
    cases hp : w.resolved? q with
    | error f =>
      have h := View.fails_of_resolved ho hp
      have h' := View.fails_of_resolved ho' (hsame.resolved.trans hp)
      refine ⟨ho, fun x hx => ?_, h'.own.trans h.own.symm, h'.value.trans h.value.symm,
        h'.present.trans h.present.symm, fun p hp => ?_⟩
      · rw [h.own] at hx
        cases hx
      · cases hp
    | ok p =>
      obtain ⟨hc, hshares⟩ := hsame.chain p hp
      have h := View.passes_of_resolved ho hp hc
      have h' := View.passes_of_resolved ho' (hsame.resolved.trans hp) (hshares.isChain hc)
      rw [hshares.walk hc] at h'
      refine ⟨ho, fun x hx => ?_, h'.own.trans h.own.symm, h'.value.trans h.value.symm,
        h'.present.trans h.present.symm, ?_⟩
      · rw [h.own] at hx
        split at hx
        · cases hx
          rfl
        · cases hx
      · rintro _ ⟨⟩
        refine ⟨fun x hx hne => ?_, fun hno => ?_⟩
        · have hwalk := walk_eq_found_iff.mpr hx
          have htells : (w.walk name p).tells = true := by
            rw [hwalk]
            exact bne_iff_ne.mpr hne
          rw [h.value, h.present, htells, hwalk]
          exact ⟨congrArg Except.ok (Property.orUndefined_of_ne hne), rfl⟩
        · have htells : (w.walk name p).tells = false := by
            cases hwalk : w.walk name p with
            | found x =>
              rw [hno x (walk_eq_found_iff.mp hwalk)]
              rfl
            | nowhere => rfl
            | beyond x => rfl
          rw [h.value, h.present, htells]
          exact ⟨rfl, rfl⟩

def enclosures : World := World.empty.afterAll [
  .createEnvironment { Settings.standard with exposed := ["shape"] },
  .setEntry ⟨1⟩ "tolist" (.int 7),
  .buildArray (.native (.int true 1)) [2] [],
  .buildArray (.native .bool) [1, 3] [],
  .newView (.scope ⟨0⟩) ⟨1⟩ ⟨1⟩ none false,
  .newView (.scope ⟨0⟩) ⟨2⟩ ⟨1⟩ none false,
  .newBox .null (.array ⟨2⟩) ⟨1⟩ none]

theorem meets_enclosures {x : Value} (h : enclosures.Meets (.record ⟨1⟩) x) :
    x = .null ∨ x = .record ⟨1⟩ := by
  have hproto : (enclosures.records.get ⟨1⟩).getD protoKey .null = .null := by decide +kernel
  cases h with
  | here => exact .inr rfl
  | further rest =>
    rw [hproto] at rest
    cases rest with
    | here => exact .inl rfl

/-- Both arrays have the method, but both views show the entry and the box shows nothing. -/
theorem concealed_tolist_misses :
    enclosures.member? (.array ⟨1⟩) "tolist" = some .method ∧
    enclosures.member? (.array ⟨2⟩) "tolist" = some .method ∧
    enclosures.answer (Property.read (.view ⟨0⟩) "tolist") = .ok (.int 7) ∧
    enclosures.answer (Property.read (.view ⟨1⟩) "tolist") = .ok (.int 7) ∧
    enclosures.answer (Property.read (.box ⟨0⟩) "tolist") = .ok .undefined := by
  obtain ⟨hbox, hview⟩ := lookups_of_concealed enclosures enclosures "tolist"
  have hp : enclosures.resolved? ⟨0⟩ = .ok (.record ⟨1⟩) := by decide +kernel
  have hp' : enclosures.resolved? ⟨1⟩ = .ok (.record ⟨1⟩) := by decide +kernel
  have hsame : enclosures.SharesPrototype enclosures ⟨0⟩ ⟨1⟩ := by
    refine ⟨hp'.trans hp.symm, fun p hres => ⟨fun x hx => ?_, fun r _ => rfl⟩⟩
    rw [hp] at hres
    cases hres
    rcases meets_enclosures hx with rfl | rfl
    · exact .inl rfl
    · exact .inr ⟨_, rfl⟩
  have hx : enclosures.Inherits "tolist" (.record ⟨1⟩) (.int 7) := .here (by decide +kernel)
  obtain ⟨-, -, -, hread, -, hfrom⟩ := hview ⟨0⟩ ⟨1⟩ ⟨by decide, .inl (by decide +kernel)⟩
    ⟨by decide, .inl (by decide +kernel)⟩ hsame
  have hfirst := ((hfrom _ hp).1 _ hx nofun).1
  obtain ⟨-, -, hunknown, -⟩ := hbox ⟨0⟩ (.inl (by decide +kernel))
  exact ⟨by decide +kernel, by decide +kernel, hfirst, hread.trans hfirst, hunknown⟩

end ScriptedArrays
