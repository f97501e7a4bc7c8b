import ScriptedArrays.Proofs.Execution
import ScriptedArrays.Proofs.Members

/-! The presence of a property. Asking for a name walks along prototypes until an object has the
name or none is left. Where a record hands the question to a view, the view is not asked whether
it has the name but for its value, and it answers a miss by an error. -/

namespace ScriptedArrays

open World

namespace World

/-- The next object that is asked for a name, if there is one: a view without the name leads to
its prototype, and a record to the view that the walk along its prototypes meets. -/
def onward (w : World) (name : String) : Value → Option Value
  | .record r => match w.walk name (.record r) with
    | .beyond (.view q) => some (.view q)
    | _ => none
  | .view q =>
    if View.hasOwn w q name then none
    else match w.resolved? q with
      | .ok .null | .error _ => none
      | .ok p => some p
  | _ => none

/-- The chain of an object ends at another one, after so many records have handed the question
to a view. -/
inductive EndsAt (w : World) (name : String) : Nat → Value → Value → Prop
  | here {z : Value} (h : w.onward name z = none) : EndsAt w name 0 z z
  | handed {k : Nat} {r : Ref .record} {x z : Value} (h : w.onward name (.record r) = some x)
      (rest : EndsAt w name k x z) : EndsAt w name (k + 1) (.record r) z
  | resolved {k : Nat} {q : Ref .view} {x z : Value} (h : w.onward name (.view q) = some x)
      (rest : EndsAt w name k x z) : EndsAt w name k (.view q) z

end World

inductive Find
  | nothing
  | undefined
  | value
  /-- The member of a box that cannot be presented. -/
  | unreadable
  /-- Such a member, met by the walk along a record. -/
  | sealed
  deriving DecidableEq

open Classical in
noncomputable def World.findInBox (w : World) (name : String) (b : Ref .box) : Find :=
  if Box.hasOwn w b name then
    if w.Readable (w.boxes.get b).value name then .value else .unreadable
  else .nothing

/-- What an object without a next one has under a name. -/
noncomputable def World.find (w : World) (name : String) : Value → Find
  | .record r => match w.walk name (.record r) with
    | .found .missing | .nowhere => .nothing
    | .found .undefined => .undefined
    | .found _ => .value
    | .beyond (.box b) => match w.findInBox name b with
      | .unreadable => .sealed
      | f => f
    | .beyond _ => .nothing
  | .view q => if View.hasOwn w q name then .value else .nothing
  | .box b => w.findInBox name b
  | _ => .nothing

inductive Answer
  | told (b : Bool)
  | noMember
  | endless
  deriving DecidableEq

namespace Find

/-- The answer whether there is the name, by what the chain ends with and how many records have
handed the question to a view. -/
def asked : Find → Nat → Answer
  | .nothing, 0 => .told false
  | .nothing, _ + 1 => .noMember
  | .undefined, 0 => .told true
  | .undefined, 1 => .told false
  | .undefined, _ + 2 => .noMember
  | .value, _ => .told true
  | .unreadable, 0 => .told true
  | .unreadable, _ + 1 => .endless
  | .sealed, _ => .endless

def read : Find → Nat → (isView : Bool) → Answer
  | .nothing, 0, isView => if isView then .noMember else .told false
  | .nothing, _ + 1, _ => .noMember
  | .undefined, 0, _ => .told false
  | .undefined, 1, isView => if isView then .noMember else .told false
  | .undefined, _ + 2, _ => .noMember
  | .value, _, _ => .told true
  | .unreadable, _, _ | .sealed, _, _ => .endless

theorem asked_handed (f : Find) (k : Nat) : f.asked (k + 1) = f.read k true := by
  cases f <;> rcases k with _ | _ | k <;> rfl

theorem read_handed (f : Find) (k : Nat) : f.read (k + 1) false = f.read k true := by
  cases f <;> rcases k with _ | _ | k <;> rfl

theorem read_resolved (f : Find) (k : Nat) (isView : Bool) : f.read k true =
    match f.asked k with
    | .told true => f.read k isView
    | .told false => .noMember
    | a => a := by
  cases f <;> rcases k with _ | _ | k <;> cases isView <;> rfl

end Find

def Value.isView : Value → Bool
  | view _ => true
  | _ => false

def Answer.Describes {α : Type} (name : String) (shows : α → Bool) (a : Answer)
    (result : EStateM.Result Fault World α) : Prop :=
  match a with
  | .told b => ∃ x w', result = .ok x w' ∧ shows x = b
  | .noMember => ∃ t w', result = .error (.noSuchMember t name) w'
  | .endless => ∃ w', result = .error (.host .recursion) w'

namespace Answer

variable {α β : Type} {name : String} {a : Answer}

theorem Describes.bind_pure {s : α → Bool} {s' : β → Bool} {x : Action α} {g : α → β} {u : World}
    (h : a.Describes name s (x u)) (hs : ∀ y, s' (g y) = s y) :
    a.Describes name s' ((x >>= fun y => pure (g y)) u) := by
  cases a with
  | told b =>
    obtain ⟨y, u', hy, hb⟩ := h
    rw [bind_apply_of_ok _ hy]
    exact ⟨g y, u', rfl, (hs y).trans hb⟩
  | noMember =>
    obtain ⟨t, u', ht⟩ := h
    rw [bind_apply_of_error _ ht]
    exact ⟨t, u', rfl⟩
  | endless =>
    obtain ⟨u', he⟩ := h
    rw [bind_apply_of_error _ he]
    exact ⟨u', rfl⟩

end Answer

def Property.along (depth : Nat) (name : String) (v : Value) : Action Value := do
  match (← get).walk name v with
  | .found x => return orUndefined x
  | .nowhere => return .undefined
  | .beyond x => readTo depth x name

namespace Property

variable {depth : Nat} {name : String}

theorem orUndefined_of_ne {x : Value} (h : x ≠ .missing) : orUndefined x = x := by
  cases x with
  | missing => exact absurd rfl h
  | _ => rfl

theorem readTo_record (r : Ref .record) : readTo (depth + 1) (.record r) name =
    along depth name (.record r) := by
  rw [readTo]
  rfl

theorem readTo_view (q : Ref .view) : readTo (depth + 1) (.view q) name =
    (View.ownBy (hasTo depth) q name >>= fun x => match x with
      | .missing => View.findPrototype q >>= fun p => along depth name p
      | x => pure x) := by
  rw [readTo]
  rfl

theorem readTo_box (b : Ref .box) : readTo (depth + 1) (.box b) name =
    (Box.own b name >>= fun x => pure (orUndefined x)) := by
  rw [readTo]

theorem along_of_beyond {v x : Value} {u : World} (h : u.walk name v = .beyond x) :
    along depth name v u = readTo depth x name u := by
  rw [along, get_bind_apply, h]

theorem hasTo_of_beyond {r : Ref .record} {x : Value} {u : World}
    (h : u.walk name (.record r) = .beyond x) : hasTo (depth + 1) (.record r) name u =
      (readTo depth x name >>= fun y => pure (y != .undefined)) u := by
  rw [hasTo, get_bind_apply, h]

end Property

section Lookup

variable {w u : World} {G : Value → Prop} {name : String} {depth : Nat}

theorem World.Grows.hasOwn_view (hw : w.Grows u) {q : Ref .view} (hq : w.views.Has q) :
    View.hasOwn u q name = View.hasOwn w q name := by
  have harray : (u.views.get q).array = (w.views.get q).array := by rw [(hw.view q hq).2]
  have hexposed : (u.views.get q).exposed = (w.views.get q).exposed := by rw [(hw.view q hq).2]
  unfold View.hasOwn
  dsimp only
  rw [harray, hexposed, hw.exposes (v := .array (w.views.get q).array) True.intro]

theorem World.Grows.hasOwn_box (hw : w.Grows u) {b : Ref .box} (hb : w.boxes.Has b)
    (hl : w.Live (w.boxes.get b).value) : Box.hasOwn u b name = Box.hasOwn w b name := by
  unfold Box.hasOwn
  dsimp only
  rw [(hw.box b hb).2, hw.exposes hl]

theorem World.findInBox_cases (w : World) (name : String) (b : Ref .box) :
    (Box.hasOwn w b name = false ∧ w.findInBox name b = .nothing) ∨
    (Box.hasOwn w b name = true ∧ w.Readable (w.boxes.get b).value name ∧
      w.findInBox name b = .value) ∨
    (Box.hasOwn w b name = true ∧ ¬ w.Readable (w.boxes.get b).value name ∧
      w.findInBox name b = .unreadable) := by
  simp only [findInBox]
  by_cases ho : Box.hasOwn w b name = true
  · by_cases hr : w.Readable (w.boxes.get b).value name
    · exact .inr (.inl ⟨ho, hr, by rw [if_pos ho, if_pos hr]⟩)
    · exact .inr (.inr ⟨ho, hr, by rw [if_pos ho, if_neg hr]⟩)
  · exact .inl ⟨by simpa using ho, if_neg ho⟩

theorem describes_read_box (hG : w.IsGraph G) (hu : u.Sound) (hw : w.Grows u) {b : Ref .box}
    (hb : G (.box b)) : ((w.findInBox name b).read 0 false).Describes name (· != .undefined)
      (Property.readTo (depth + 1) (.box b) name u) := by
  obtain ⟨hhas, hlive⟩ := hG.box b hb
  have hown : Box.hasOwn u b name = Box.hasOwn w b name := hw.hasOwn_box hhas hlive
  have hread : u.Readable (u.boxes.get b).value name ↔ w.Readable (w.boxes.get b).value name := by
    rw [(hw.box b hhas).2]
    exact hw.readable hlive name
  rw [Property.readTo_box]
  rcases w.findInBox_cases name b with ⟨ho, hf⟩ | ⟨ho, hr, hf⟩ | ⟨ho, hr, hf⟩
  · rw [hf, bind_apply_of_ok _ (Box.own_of_not_hasOwn (hown.trans ho))]
    exact ⟨.undefined, u, rfl, rfl⟩
  · obtain ⟨x, u', hx, hne, hmiss⟩ := Box.own_of_hasOwn hu (hown.trans ho) (hread.mpr hr)
    rw [hf, bind_apply_of_ok _ hx]
    refine ⟨Property.orUndefined x, u', rfl, ?_⟩
    rw [Property.orUndefined_of_ne hmiss]
    simpa using hne
  · rw [hf, bind_apply_of_error _ (Box.own_of_not_readable (hown.trans ho) (mt hread.mp hr))]
    exact ⟨u, rfl⟩

theorem describes_asked_box (hG : w.IsGraph G) (hw : w.Grows u) {b : Ref .box} (hb : G (.box b)) :
    ((w.findInBox name b).asked 0).Describes name id
      (Property.hasTo (depth + 1) (.box b) name u) := by
  obtain ⟨hhas, hlive⟩ := hG.box b hb
  have hown : Box.hasOwn u b name = Box.hasOwn w b name := hw.hasOwn_box hhas hlive
  have hhasTo : Property.hasTo (depth + 1) (.box b) name u = .ok (Box.hasOwn w b name) u := by
    rw [Property.hasTo, get_bind_apply, hown]
    rfl
  rw [hhasTo]
  rcases w.findInBox_cases name b with ⟨ho, hf⟩ | ⟨ho, hr, hf⟩ | ⟨ho, hr, hf⟩
  · rw [hf]
    exact ⟨_, u, rfl, ho⟩
  · rw [hf]
    exact ⟨_, u, rfl, ho⟩
  · rw [hf]
    exact ⟨_, u, rfl, ho⟩

/-- A record at the end of a chain. -/
theorem describes_record (hG : w.IsGraph G) (hu : u.Sound) (hw : w.Grows u) {r : Ref .record}
    (hr : G (.record r)) (hend : w.onward name (.record r) = none) :
    ((w.find name (.record r)).asked 0).Describes name id
        (Property.hasTo (depth + 2) (.record r) name u) ∧
      ((w.find name (.record r)).read 0 false).Describes name (· != .undefined)
        (Property.readTo (depth + 2) (.record r) name u) := by
  have hwalk : u.walk name (.record r) = w.walk name (.record r) := hG.walk hw (.inr hr) name
  rw [Property.readTo_record]
  cases hc : w.walk name (.record r) with
  | nowhere =>
    rw [hc] at hwalk
    have hf : w.find name (.record r) = .nothing := by rw [find, hc]
    rw [hf, Property.hasTo, Property.along, get_bind_apply, get_bind_apply, hwalk]
    exact ⟨⟨false, u, rfl, rfl⟩, ⟨.undefined, u, rfl, rfl⟩⟩
  | found x =>
    rw [hc] at hwalk
    rw [find, hc, Property.hasTo, Property.along, get_bind_apply, get_bind_apply, hwalk]
    cases x with
    | missing => exact ⟨⟨false, u, rfl, rfl⟩, ⟨.undefined, u, rfl, rfl⟩⟩
    | undefined => exact ⟨⟨true, u, rfl, rfl⟩, ⟨.undefined, u, rfl, rfl⟩⟩
    | _ => exact ⟨⟨true, u, rfl, rfl⟩, ⟨_, u, rfl, rfl⟩⟩
  | beyond x =>
    rw [hc] at hwalk
    obtain ⟨hx, ⟨q, rfl⟩ | ⟨b, rfl⟩⟩ := hG.beyond (.inr hr) hc
    · rw [onward, hc] at hend
      cases hend
    · have hread : ((w.findInBox name b).read 0 false).Describes name (· != .undefined)
          (Property.readTo (depth + 1) (.box b) name u) := describes_read_box hG hu hw hx
      have hfind : w.find name (.record r) = match w.findInBox name b with
          | .unreadable => .sealed
          | f => f := by rw [find, hc]
      rw [Property.hasTo_of_beyond hwalk, Property.along_of_beyond hwalk]
      rcases w.findInBox_cases name b with ⟨-, hf⟩ | ⟨-, -, hf⟩ | ⟨-, -, hf⟩
      · rw [hf] at hread hfind
        rw [hfind]
        exact ⟨hread.bind_pure fun y => rfl, hread⟩
      · rw [hf] at hread hfind
        rw [hfind]
        exact ⟨hread.bind_pure fun y => rfl, hread⟩
      · rw [hf] at hread hfind
        rw [hfind]
        exact ⟨hread.bind_pure fun y => rfl, hread⟩

/-- A view at the end of a chain. -/
theorem describes_view (hG : w.IsGraph G) (hu : u.Sound) (hw : w.Grows u) {q : Ref .view}
    (hq : G (.view q)) (hend : w.onward name (.view q) = none) :
    ((w.find name (.view q)).asked 0).Describes name id
        (Property.hasTo (depth + 2) (.view q) name u) ∧
      ((w.find name (.view q)).read 0 true).Describes name (· != .undefined)
        (Property.readTo (depth + 2) (.view q) name u) := by
  obtain ⟨hhas, hroot, p, hp, -⟩ := hG.view q hq
  have hown : View.hasOwn u q name = View.hasOwn w q name := hw.hasOwn_view hhas
  rw [Property.readTo_view, find]
  by_cases ho : View.hasOwn w q name = true
  · rw [if_pos ho]
    obtain ⟨x, u', hx, hne, hmiss⟩ := View.ownBy_of_hasOwn (Property.hasTo (depth + 1)) hu (hown.trans ho)
    rw [bind_apply_of_ok _ hx, Property.hasTo, get_bind_apply, if_pos (hown.trans ho)]
    refine ⟨⟨true, u, rfl, rfl⟩, ⟨x, u', ?_, by simpa using hne⟩⟩
    cases x with
    | missing => exact absurd rfl hmiss
    | _ => rfl
  · have hnull : p = .null := by
      rw [onward, if_neg ho, hp] at hend
      cases p with
      | null => rfl
      | _ => cases hend
    have hno : View.hasOwn u q name = false := by
      rw [hown]
      simpa using ho
    obtain ⟨u', hw', hfound⟩ := View.findPrototype_of_resolved ((hw.resolved? hhas hroot).trans hp)
    rw [hnull] at hfound
    rw [if_neg ho, Property.hasTo, get_bind_apply, if_neg (by simp [hno]),
      bind_apply_of_ok _ hfound]
    refine ⟨⟨false, u', rfl, rfl⟩, ?_⟩
    have hfail := View.ownBy_of_not_hasOwn (Property.hasTo (depth + 1)) hno
    rw [bind_apply_of_ok _ hfound] at hfail
    rw [bind_apply_of_error _ (hfail.trans rfl)]
    exact ⟨_, u', rfl⟩

theorem describes_here (hG : w.IsGraph G) (hu : u.Sound) (hw : w.Grows u) {z : Value} (hz : G z)
    (hend : w.onward name z = none) :
    ((w.find name z).asked 0).Describes name id (Property.hasTo (depth + 2) z name u) ∧
      ((w.find name z).read 0 z.isView).Describes name (· != .undefined)
        (Property.readTo (depth + 2) z name u) := by
  rcases hG.kind z hz with ⟨r, rfl⟩ | ⟨q, rfl⟩ | ⟨b, rfl⟩
  · exact describes_record hG hu hw hz hend
  · exact describes_view hG hu hw hz hend
  · exact ⟨describes_asked_box hG hw hz, describes_read_box hG hu hw hz⟩

theorem World.view_of_onward {r : Ref .record} {x : Value} (h : w.onward name (.record r) = some x) :
    w.walk name (.record r) = .beyond x ∧ x.isView = true := by
  rw [onward] at h
  split at h
  · rename_i q hc
    cases h
    exact ⟨hc, rfl⟩
  · cases h

theorem World.resolved_of_onward {q : Ref .view} {x : Value} (h : w.onward name (.view q) = some x) :
    View.hasOwn w q name = false ∧ w.resolved? q = .ok x ∧ x ≠ .null := by
  rw [onward] at h
  split at h
  · cases h
  · rename_i ho
    split at h
    · cases h
    · cases h
    · rename_i p hp hr
      cases h
      exact ⟨by simpa using ho, hr, hp⟩

theorem along_of_isGraph (hG : w.IsGraph G) {x : Value} (hx : G x) (depth : Nat) (name : String)
    (u : World) :
    Property.along depth name x u = Property.readTo depth x name u ∨
      Property.along depth name x u = Property.readTo (depth + 1) x name u := by
  rcases hG.kind x hx with ⟨r, rfl⟩ | ⟨q, rfl⟩ | ⟨b, rfl⟩
  · right
    rw [Property.readTo_record]
  · exact .inl (Property.along_of_beyond rfl)
  · exact .inl (Property.along_of_beyond rfl)

/-- A view without the name asks its prototype, and reads it after that. -/
theorem describes_resolved {q : Ref .view} {x : Value} {f : Find} {k : Nat}
    (hno : View.hasOwn u q name = false) (hx : x ≠ .null) (hu : u.Sound) (hw : w.Grows u)
    (hfound : ∀ u : World, u.Sound → w.Grows u →
      ∃ u', u'.Sound ∧ w.Grows u' ∧ View.findPrototype q u = .ok x u')
    (hasked : ∀ u : World, u.Sound → w.Grows u →
      (f.asked k).Describes name id (Property.hasTo depth x name u))
    (hread : ∀ u : World, u.Sound → w.Grows u →
      (f.read k x.isView).Describes name (· != .undefined) (Property.along depth name x u)) :
    (f.asked k).Describes name id (Property.hasTo (depth + 1) (.view q) name u) ∧
      (f.read k true).Describes name (· != .undefined)
        (Property.readTo (depth + 1) (.view q) name u) := by
  obtain ⟨u₁, hu₁, hw₁, hfound₁⟩ := hfound u hu hw
  constructor
  · rw [Property.hasTo, get_bind_apply, if_neg (by simp [hno]), bind_apply_of_ok _ hfound₁]
    have h := hasked u₁ hu₁ hw₁
    cases x with
    | null => exact absurd rfl hx
    | _ => exact h
  · have hown := View.ownBy_of_not_hasOwn (Property.hasTo depth) hno
    rw [bind_apply_of_ok _ hfound₁] at hown
    have h := hasked u₁ hu₁ hw₁
    rw [Property.readTo_view, Find.read_resolved f k x.isView]
    cases ha : f.asked k with
    | told b =>
      rw [ha] at h
      obtain ⟨b', u₂, hb, hb'⟩ := h
      cases hb'
      rw [bind_apply_of_ok _ hb] at hown
      cases b' with
      | false =>
        rw [bind_apply_of_error _ (hown.trans rfl)]
        exact ⟨_, u₂, rfl⟩
      | true =>
        rw [bind_apply_of_ok _ (hown.trans rfl)]
        have hu₂ : u₂.Sound := after_of_ok hb ▸ ((leads_of_moves ((moves_parts.lookup depth).2 x name)) u₁ hu₁).1
        have hw₂ : w.Grows u₂ := hw₁.trans (after_of_ok hb ▸ (grows_parts.lookup depth).2 x name u₁)
        obtain ⟨u₃, hu₃, hw₃, hfound₃⟩ := hfound u₂ hu₂ hw₂
        show Answer.Describes name _ _ ((View.findPrototype q >>= _) u₂)
        rw [bind_apply_of_ok _ hfound₃]
        exact hread u₃ hu₃ hw₃
    | noMember =>
      rw [ha] at h
      obtain ⟨t, u₂, ht⟩ := h
      rw [bind_apply_of_error _ ht] at hown
      rw [bind_apply_of_error _ hown]
      exact ⟨t, u₂, rfl⟩
    | endless =>
      rw [ha] at h
      obtain ⟨u₂, ht⟩ := h
      rw [bind_apply_of_error _ ht] at hown
      rw [bind_apply_of_error _ hown]
      exact ⟨u₂, rfl⟩

theorem World.IsGraph.findPrototype (hG : w.IsGraph G) {q : Ref .view} (hq : G (.view q)) {x : Value}
    (hx : w.resolved? q = .ok x) (u : World) (hu : u.Sound) (hw : w.Grows u) :
    ∃ u', u'.Sound ∧ w.Grows u' ∧ View.findPrototype q u = .ok x u' := by
  obtain ⟨hhas, hroot, -⟩ := hG.view q hq
  obtain ⟨u', hw', hfound⟩ := View.findPrototype_of_resolved ((hw.resolved? hhas hroot).trans hx)
  have hu' : u'.Sound := after_of_ok hfound ▸ (View.leads_findPrototype q u hu).1
  exact ⟨u', hu', hw.trans hw', hfound⟩

theorem World.IsGraph.onward (hG : w.IsGraph G) {v x : Value} (hv : G v)
    (hx : w.onward name v = some x) : G x := by
  rcases hG.kind v hv with ⟨r, rfl⟩ | ⟨q, rfl⟩ | ⟨b, rfl⟩
  · exact (hG.beyond (.inr hv) (view_of_onward hx).1).1
  · obtain ⟨-, hp, hnull⟩ := resolved_of_onward hx
    obtain ⟨-, -, p, hp', hgp⟩ := hG.view q hv
    rw [hp] at hp'
    cases hp'
    exact hgp.resolve_left hnull
  · cases hx

/-- Along a chain every lookup gives the answer that its end makes out. -/
theorem describes_lookup (hG : w.IsGraph G) {k : Nat} {v z : Value} (he : w.EndsAt name k v z)
    (hv : G v) {n : Nat} (hn : Ends (w.onward name) n v) (hu : u.Sound) (hw : w.Grows u)
    (hd : n + 2 ≤ depth) :
    ((w.find name z).asked k).Describes name id (Property.hasTo depth v name u) ∧
      ((w.find name z).read k v.isView).Describes name (· != .undefined)
        (Property.readTo depth v name u) := by
  induction he generalizing n u depth with
  | here hend =>
    obtain ⟨d, rfl⟩ : ∃ d, depth = d + 2 := ⟨depth - 2, by omega⟩
    exact describes_here hG hu hw hv hend
  | @handed k r x z hx _ ih =>
    obtain ⟨m, rfl, rest⟩ := hn.rest_of_some hx
    obtain ⟨d, rfl⟩ : ∃ d, depth = d + 1 := ⟨depth - 1, by omega⟩
    obtain ⟨hwalk, hview⟩ := view_of_onward hx
    have hgx : G x := hG.onward hv hx
    obtain ⟨-, hread⟩ := ih hgx rest hu hw (show m + 2 ≤ d by omega)
    have hwalk' : u.walk name (.record r) = .beyond x := (hG.walk hw (.inr hv) name).trans hwalk
    rw [hview] at hread
    have hrecord : (Value.record r).isView = false := rfl
    rw [Property.hasTo_of_beyond hwalk', Property.readTo_record, Property.along_of_beyond hwalk',
      hrecord, Find.asked_handed, Find.read_handed]
    exact ⟨hread.bind_pure fun y => rfl, hread⟩
  | @resolved k q x z hx _ ih =>
    obtain ⟨m, rfl, rest⟩ := hn.rest_of_some hx
    obtain ⟨d, rfl⟩ : ∃ d, depth = d + 1 := ⟨depth - 1, by omega⟩
    obtain ⟨ho, hp, hnull⟩ := resolved_of_onward hx
    have hgx : G x := hG.onward hv hx
    have hno : View.hasOwn u q name = false := (hw.hasOwn_view (hG.view q hv).1).trans ho
    refine describes_resolved hno hnull hu hw (hG.findPrototype hv hp) ?_ ?_
    · intro u hu hw
      exact (ih hgx rest hu hw (by omega)).1
    · intro u hu hw
      rcases along_of_isGraph hG hgx d name u with h | h
      · rw [h]
        exact (ih hgx rest hu hw (by omega)).2
      · rw [h]
        exact (ih hgx rest hu hw (by omega)).2

theorem World.exists_onward {v : Value} (hno : ∀ k z, ¬ w.EndsAt name k v z) :
    ∃ x, w.onward name v = some x ∧ ∀ k z, ¬ w.EndsAt name k x z := by
  cases hx : w.onward name v with
  | none => exact absurd (.here hx) (hno 0 v)
  | some x =>
    refine ⟨x, rfl, fun k z h => ?_⟩
    cases v with
    | record r => exact hno (k + 1) z (.handed hx h)
    | view q => exact hno k z (.resolved hx h)
    | _ => cases hx

/-- An endless chain is asked as often as objects may ask each other. -/
theorem describes_endless (hG : w.IsGraph G) {v : Value} (hv : G v)
    (hno : ∀ k z, ¬ w.EndsAt name k v z) (hu : u.Sound) (hw : w.Grows u) (depth : Nat) :
    Answer.endless.Describes name id (Property.hasTo depth v name u) ∧
      Answer.endless.Describes name (· != .undefined) (Property.readTo depth v name u) := by
  induction depth generalizing v u with
  | zero => exact ⟨⟨u, by rw [Property.hasTo]; rfl⟩, ⟨u, by rw [Property.readTo]; rfl⟩⟩
  | succ depth ih =>
    have hrecord : ∀ r, G (.record r) → (∀ k z, ¬ w.EndsAt name k (.record r) z) →
        ∀ u : World, u.Sound → w.Grows u → ∃ x, u.walk name (.record r) = .beyond x ∧
          Answer.endless.Describes name (· != .undefined) (Property.readTo depth x name u) := by
      intro r hr hno u hu hw
      obtain ⟨x, hx, hnox⟩ := exists_onward hno
      refine ⟨x, ?_, (ih (hG.onward hr hx) hnox hu hw).2⟩
      rw [hG.walk hw (.inr hr) name, (view_of_onward hx).1]
    rcases hG.kind v hv with ⟨r, rfl⟩ | ⟨q, rfl⟩ | ⟨b, rfl⟩
    · obtain ⟨x, hwalk, hread⟩ := hrecord r hv hno u hu hw
      rw [Property.hasTo_of_beyond hwalk, Property.readTo_record, Property.along_of_beyond hwalk]
      exact ⟨hread.bind_pure fun y => rfl, hread⟩
    · obtain ⟨x, hx, hnox⟩ := exists_onward hno
      have hgx : G x := hG.onward hv hx
      obtain ⟨ho, hp, hnull⟩ := resolved_of_onward hx
      have hnown : View.hasOwn u q name = false := (hw.hasOwn_view (hG.view q hv).1).trans ho
      refine describes_resolved (f := .sealed) (k := 0) hnown hnull hu hw (hG.findPrototype hv hp) ?_ ?_
      · exact fun u hu hw => (ih hgx hnox hu hw).1
      · intro u hu hw
        rcases hG.kind x hgx with ⟨r, rfl⟩ | ⟨q', rfl⟩ | ⟨b, rfl⟩
        · obtain ⟨y, hwalk, hread⟩ := hrecord r hgx hnox u hu hw
          rw [Property.along_of_beyond hwalk]
          exact hread
        · rw [Property.along_of_beyond rfl]
          exact (ih hgx hnox hu hw).2
        · exact absurd (.here rfl) (hnox 0 (.box b))
    · exact absurd (.here rfl) (hno 0 (.box b))

theorem World.EndsAt.ends {k : Nat} {v z : Value} (he : w.EndsAt name k v z) :
    ∃ n, Ends (w.onward name) n v := by
  induction he with
  | here h => exact ⟨0, .here h⟩
  | handed h _ ih =>
    obtain ⟨n, hn⟩ := ih
    exact ⟨n + 1, .there h hn⟩
  | resolved h _ ih =>
    obtain ⟨n, hn⟩ := ih
    exact ⟨n + 1, .there h hn⟩

def World.stepIndex (w : World) (name : String) (v : Value) : Nat :=
  match v, w.onward name v with
  | .view q, _ => 2 * q.index
  | _, some (.view q) => 2 * q.index + 1
  | _, _ => 0

open Classical in
/-- A chain that ends leaves each view once and comes to it from a record at most once. -/
theorem World.IsGraph.steps_le (hG : w.IsGraph G) {v : Value} (hv : G v) {n : Nat}
    (hn : Ends (w.onward name) n v) : n ≤ 2 * w.views.size := by
  let next : Value → Option Value := fun v => if G v then w.onward name v else none
  have hends : Ends next n v := by
    induction hn with
    | here h => exact .here (by simp only [next, if_pos hv, h])
    | there h _ ih => exact .there (by simp only [next, if_pos hv, h]) (ih (hG.onward hv h))
  have hnext : ∀ b c, next b = some c → G b ∧ w.onward name b = some c := by
    intro b c hb
    simp only [next] at hb
    split at hb
    · exact ⟨‹_›, hb⟩
    · cases hb
  have hindex : ∀ b c, next b = some c →
      (∃ q, b = .view q ∧ w.views.Has q ∧ w.stepIndex name b = 2 * q.index) ∨
      ∃ q, c = .view q ∧ w.views.Has q ∧ w.stepIndex name b = 2 * q.index + 1 := by
    intro b c hb
    obtain ⟨hg, hc⟩ := hnext b c hb
    rcases hG.kind b hg with ⟨r, rfl⟩ | ⟨q, rfl⟩ | ⟨x, rfl⟩
    · right
      have hgc := hG.onward hg hc
      obtain ⟨-, hview⟩ := view_of_onward hc
      cases c with
      | view q => exact ⟨q, rfl, (hG.view q hgc).1, by simp only [stepIndex, hc]⟩
      | _ => cases hview
    · exact .inl ⟨q, rfl, (hG.view q hg).1, rfl⟩
    · cases hc
  refine hends.le_of_index (w.stepIndex name) ?_ ?_
  · intro b c hb
    rcases hindex b c hb with ⟨q, -, hq, hi⟩ | ⟨q, -, hq, hi⟩
    · have hlt : q.index < w.views.size := hq
      omega
    · have hlt : q.index < w.views.size := hq
      omega
  · intro b b' c c' hb hb' heq
    rcases hindex b c hb with ⟨q, rfl, -, hi⟩ | ⟨q, rfl, -, hi⟩
    · rcases hindex b' c' hb' with ⟨q', rfl, -, hi'⟩ | ⟨q', rfl, -, hi'⟩
      · have hsame : q = q' := by
          have hidx : q.index = q'.index := by omega
          exact congrArg Ref.mk hidx
        subst hsame
        rw [hb] at hb'
        cases hb'
        rfl
      · omega
    · rcases hindex b' c' hb' with ⟨q', rfl, -, hi'⟩ | ⟨q', rfl, -, hi'⟩
      · omega
      · have hidx : q.index = q'.index := by omega
        exact congrArg (fun i => Value.view ⟨i⟩) hidx

theorem describes_has_of_endsAt (h : w.Sound) (hG : w.IsGraph G) {v : Value} (hv : G v) {k : Nat}
    {z : Value} (he : w.EndsAt name k v z) :
    ((w.find name z).asked k).Describes name id (Property.has v name w) := by
  obtain ⟨n, hn⟩ := he.ends
  have hn' := hG.steps_le hv hn
  rw [Property.has, get_bind_apply]
  exact (describes_lookup hG he hv hn h (.refl w) (by rw [Property.nesting]; omega)).1

theorem describes_has_of_endless (h : w.Sound) (hG : w.IsGraph G) {v : Value} (hv : G v)
    (hno : ∀ k z, ¬ w.EndsAt name k v z) :
    Answer.endless.Describes name id (Property.has v name w) := by
  rw [Property.has, get_bind_apply]
  exact (describes_endless hG hv hno h (.refl w) _).1

/-- A result has one answer. -/
theorem Answer.Describes.unique {a b : Answer} {result : EStateM.Result Fault World Bool}
    (ha : a.Describes name id result) (hb : b.Describes name id result) : a = b := by
  cases a with
  | told x =>
    obtain ⟨_, _, rfl, rfl⟩ := ha
    cases b with
    | told y =>
      obtain ⟨_, _, hy, rfl⟩ := hb
      cases hy
      rfl
    | noMember =>
      obtain ⟨_, _, hb⟩ := hb
      cases hb
    | endless =>
      obtain ⟨_, hb⟩ := hb
      cases hb
  | noMember =>
    obtain ⟨_, _, rfl⟩ := ha
    cases b with
    | told y =>
      obtain ⟨_, _, hy, -⟩ := hb
      cases hy
    | noMember => rfl
    | endless =>
      obtain ⟨_, hb⟩ := hb
      cases hb
  | endless =>
    obtain ⟨_, rfl⟩ := ha
    cases b with
    | told y =>
      obtain ⟨_, _, hy, -⟩ := hb
      cases hy
    | noMember =>
      obtain ⟨_, _, hb⟩ := hb
      cases hb
    | endless => rfl

theorem describes_has_iff (h : w.Sound) (hG : w.IsGraph G) {v : Value} (hv : G v) (name : String)
    (a : Answer) :
    a.Describes name id (Property.has v name w) ↔
      (∃ k z, w.EndsAt name k v z ∧ (w.find name z).asked k = a) ∨
        a = .endless ∧ ∀ k z, ¬ w.EndsAt name k v z := by
  constructor
  · intro ha
    by_cases he : ∃ k z, w.EndsAt name k v z
    · obtain ⟨k, z, he⟩ := he
      exact .inl ⟨k, z, he, (describes_has_of_endsAt h hG hv he).unique ha⟩
    · have hno : ∀ k z, ¬ w.EndsAt name k v z := fun k z hz => he ⟨k, z, hz⟩
      exact .inr ⟨ha.unique (describes_has_of_endless h hG hv hno), hno⟩
  · rintro (⟨k, z, he, rfl⟩ | ⟨rfl, hno⟩)
    · exact describes_has_of_endsAt h hG hv he
    · exact describes_has_of_endless h hG hv hno

end Lookup

/-- What a property test does in a graph of objects. It answers exactly if the chain of the object
ends and what it ends with makes out an answer: a name that is not there is told only as long as
no record has handed the question to a view. Otherwise it fails, for a member that is missing or
for a chain that does not end. -/
theorem Property.has_iff {w : World} (hw : Reachable w) {G : Value → Prop} (hG : w.IsGraph G)
    {v : Value} (hv : G v) (name : String) :
    (∀ b, (∃ u, has v name w = .ok b u) ↔
      ∃ k z, w.EndsAt name k v z ∧ (w.find name z).asked k = .told b) ∧
    ((∃ t u, has v name w = .error (.noSuchMember t name) u) ↔
      ∃ k z, w.EndsAt name k v z ∧ (w.find name z).asked k = .noMember) ∧
    ((∃ u, has v name w = .error (.host .recursion) u) ↔
      (∃ k z, w.EndsAt name k v z ∧ (w.find name z).asked k = .endless) ∨
        ∀ k z, ¬ w.EndsAt name k v z) := by
  have hiff := describes_has_iff hw.sound hG hv name
  refine ⟨fun b => ?_, ?_, ?_⟩
  · constructor
    · rintro ⟨u, hu⟩
      exact ((hiff (.told b)).mp ⟨b, u, hu, rfl⟩).resolve_right nofun
    · intro h
      obtain ⟨_, u, hu, rfl⟩ := (hiff (.told b)).mpr (.inl h)
      exact ⟨u, hu⟩
  · constructor
    · intro h
      exact ((hiff .noMember).mp h).resolve_right nofun
    · intro h
      exact (hiff .noMember).mpr (.inl h)
  · refine (hiff .endless).trans (or_congr Iff.rfl ?_)
    exact ⟨fun h => h.2, fun h => ⟨rfl, h⟩⟩

def linked : World := World.empty.afterAll [
  .newPresenter .standard,
  .buildArray (.native (.int true 1)) [2] [],
  .newView .null ⟨1⟩ ⟨0⟩ none false,
  .newRecord [(protoKey, .view ⟨0⟩)]]

theorem reachable_linked : Reachable linked := by
  apply Reachable.start.afterAll
  simp [Operation.IsProper, CellType.native, Content.IsProper]

theorem isGraph_linked : linked.IsGraph fun v => v = .record ⟨0⟩ ∨ v = .view ⟨0⟩ where
  kind := by
    rintro v (rfl | rfl)
    · exact .inl ⟨_, rfl⟩
    · exact .inr (.inl ⟨_, rfl⟩)
  record := by
    rintro r (⟨⟨⟩⟩ | ⟨⟨⟩⟩)
    exact ⟨by decide, .inr (.inr rfl)⟩
  view := by
    rintro q (⟨⟨⟩⟩ | ⟨⟨⟩⟩)
    refine ⟨by decide, ?_, .null, rfl, .inl rfl⟩
    intro s c hs
    cases hs
  box := by
    rintro b (⟨⟨⟩⟩ | ⟨⟨⟩⟩)

/-- Asked for a name that is nowhere, the record fails. -/
theorem Property.has_of_view_proto_fails : ∃ t u, Property.has (.record ⟨0⟩) "colour" linked =
    .error (.noSuchMember t "colour") u := by
  obtain ⟨-, hmissing, -⟩ := Property.has_iff reachable_linked isGraph_linked (.inl rfl) "colour"
  have hend : linked.onward "colour" (.view ⟨0⟩) = none := by rfl
  have hnothing : linked.find "colour" (.view ⟨0⟩) = .nothing := by
    rw [World.find, if_neg (by decide)]
  refine hmissing.mpr ⟨1, .view ⟨0⟩, .handed (x := .view ⟨0⟩) rfl (.here hend), ?_⟩
  rw [hnothing]
  rfl

end ScriptedArrays
