import ScriptedArrays.Proofs.ItemReads
import ScriptedArrays.Proofs.Instances
import ScriptedArrays.Proofs.Inheritance

/-! Values for scripts. A presentation turns every host value into null, a basic value, a view or a
box, and leaves such a value as it is. Behind what it gives is the host value itself, apart from the
types of single cells and from bytes, which become texts. Only an array without axes that leads to
itself is never presented. What scripts read by index, iterate over, find as a member or get from a
method of the host has been presented. -/

namespace ScriptedArrays

open World

def Value.decoded : Value → Value
  | .bytes b => .text (Latin.decode b)
  | v => v

theorem keep_of_isObject {v : Value} (h : v.isObject = true) (w : World) : keep v w = .ok v w := by
  simp only [keep, modifyGet, MonadStateOf.modifyGet, EStateM.modifyGet, if_pos h]

namespace Presenter

variable {p : Ref .presenter} {scope v x : Value} {w u : World}

theorem isForScripts_of_present (h : present p v scope w = .ok x u) : x.IsForScripts := by
  rw [present, get_bind_apply] at h
  exact (isForScripts_of_presentFrom h).1

/-- A value for scripts is presented as it is, by any presenter at any time. -/
theorem present_of_isForScripts (h : x.IsForScripts) (ho : x.isObject = true) (p : Ref .presenter)
    (scope : Value) (w : World) : present p x scope w = .ok x w := by
  rw [present, get_bind_apply, presentFrom]
  dsimp only
  cases h with
  | null => rfl
  | view q => rfl
  | box b => rfl
  | basic hx =>
    have hopened : x.opened = x := by
      rw [Value.opened]
      split
      · rename_i t y hc
        rw [hc] at hx
        exact hx.elim
      · rfl
    rw [hopened]
    cases hc : x.content with
    | bool _ | int _ | number _ | text _ => exact keep_of_isObject ho w
    | _ =>
      rw [hc] at hx
      exact hx.elim

theorem depicts_of_presentFrom (h : w.Sound) {fuel : Nat} (hx : presentFrom p scope fuel v w = .ok x u) :
    ∃ c, w.Unfolds v c ∧ u.Depicts c x := by
  induction fuel generalizing v with
  | zero => cases hx
  | succ fuel ih =>
    cases hcell : w.onlyCell? v with
    | none => exact ⟨v, .here hcell, depicts_presentFrom_of_none h hcell hx (refl_of Preserves u)⟩
    | some c =>
      rw [presentFrom_of_some hcell] at hx
      obtain ⟨last, hlast, hdepicts⟩ := ih hx
      exact ⟨last, .there hcell hlast, hdepicts⟩

end Presenter

namespace World

/-- Behind what scripts get for a value that is neither a view nor a box is its content. -/
theorem Depicts.content_hostValue {w : World} {v x : Value} (h : w.Depicts v x)
    (hv : v.opened.content.isWrapper = false) : (w.hostValue x).content = v.opened.content.decoded := by
  rw [Depicts] at h
  cases hc : v.opened.content with
  | array r =>
    rw [hc] at h
    obtain ⟨q, rfl, -, harray⟩ := h
    show Value.content (.array (w.views.get q).array) = _
    rw [harray]
    rfl
  | null =>
    rw [hc] at h
    rw [h]
    rfl
  | view q | box b =>
    rw [hc] at hv
    cases hv
  | bytes b =>
    rw [hc] at h
    rw [ScriptedArrays.content_hostValue w h]
    rfl
  | bool _ | int _ | number _ | text _ =>
    rw [hc] at h
    rw [ScriptedArrays.content_hostValue w h, hostValue_eq_self (Value.isWrapper_of_content hv), hc]
    rfl
  | _ =>
    rw [hc] at h
    obtain ⟨b, rfl, -, hb⟩ := h
    exact hb

/-- What scripts get for a host value. -/
structure Delivers (w : World) (v : Value) (u : World) (x : Value) : Prop where
  forScripts : x.IsForScripts
  /-- Another presentation changes nothing. -/
  again : ∀ p scope u', Presenter.present p x scope u' = .ok x u'
  depicts : ∃ c, w.Unfolds v c ∧ u.Depicts c x
  /-- An array with axes is seen through a view of that very array. -/
  array : ∀ r, v.opened.content = .array r → (w.arrays.get r).shape ≠ [] →
    ∃ q, x = .view q ∧ u.views.Has q ∧ (u.views.get q).array = r
  /-- The host value is found behind what scripts get for it. -/
  behind : w.onlyCell? v = none → v.opened.content.isWrapper = false →
    (u.hostValue x).content = v.opened.content.decoded

theorem onlyCell?_of_shape {w : World} {v : Value} {r : Ref .array} (hc : v.opened.content = .array r)
    (hs : (w.arrays.get r).shape ≠ []) : w.onlyCell? v = none := by
  cases hcell : w.onlyCell? v with
  | none => rfl
  | some c =>
    obtain ⟨r', hc', hs', -⟩ := array_of_onlyCell? hcell
    rw [hc] at hc'
    cases hc'
    exact absurd hs' hs

theorem delivers_of_present {w u : World} {p : Ref .presenter} {v scope x : Value} (h : w.Sound)
    (hx : Presenter.present p v scope w = .ok x u) : w.Delivers v u x := by
  rw [Presenter.present, get_bind_apply] at hx
  obtain ⟨hscripts, hobject⟩ := Presenter.isForScripts_of_presentFrom hx
  have hself : w.onlyCell? v = none → u.Depicts v x := fun hnone =>
    Presenter.depicts_presentFrom_of_none h hnone hx (refl_of Preserves u)
  exact {
    forScripts := hscripts
    again := fun p scope u' => Presenter.present_of_isForScripts hscripts hobject p scope u'
    depicts := Presenter.depicts_of_presentFrom h hx
    array := by
      intro r hc hs
      have hview := hself (onlyCell?_of_shape hc hs)
      rwa [Depicts, hc] at hview
    behind := fun hnone hv => (hself hnone).content_hostValue hv }

end World

namespace View

variable {w u : World} {r : Ref .view} {i x : Value}

theorem isForScripts_of_getIndex (h : getIndex r i w = .ok x u) : x.IsForScripts ∨
    x = .undefined ∧ u = w ∧ w.inBounds i (w.views.get r).length = .ok false := by
  cases hb : w.inBounds i (w.views.get r).length with
  | error f =>
    rw [getIndex, look_bind_apply, get_bind_apply, hb] at h
    cases h
  | ok inside =>
    cases inside with
    | false =>
      rw [getIndex_of_out hb] at h
      cases h
      exact .inr ⟨rfl, rfl, rfl⟩
    | true =>
      rw [getIndex, look_bind_apply, get_bind_apply, hb] at h
      obtain ⟨inside, v, hinside, hslot⟩ := bind_eq_ok.mp h
      cases hinside
      rw [if_pos rfl, look_bind_apply] at hslot
      obtain ⟨y, v', -, hpresent⟩ := bind_eq_ok.mp hslot
      exact .inl (Presenter.isForScripts_of_present hpresent)

theorem isForScripts_of_elements (h : w.Sound) (hr : w.views.Has r) {xs : List Value}
    (hxs : elements r w = .ok xs u) : ∀ x ∈ xs, x.IsForScripts := by
  have hkeys : indices w r = (List.range (w.shown r).length).map fun k : Nat => .int k := by
    rw [indices, h.length_shown hr]
  rw [elements, look_bind_apply, hkeys] at hxs
  have hread := elementsFrom_ok h hr (fun k hk => List.mem_range.mp hk) hxs
  intro x hx
  obtain ⟨k, hk, z, z', hz, hget⟩ := exists_of_forall₂ hread.flip hx
  obtain ⟨hsound, hext, -⟩ := hz h
  have hlt : k < (z.shown r).length := by
    rw [hext.shown h hr]
    exact List.mem_range.mp hk
  rcases isForScripts_of_getIndex hget with hscripts | ⟨rfl, -⟩
  · exact hscripts
  · exact absurd hget (getIndex_ne_undefined hsound (hext.hasView r hr) (.inl rfl) hlt z')

end View

def Body.AnswersScripts : Body → Prop
  | .hostMethod .. => True
  | .search kind _ _ => kind ≠ .bare
  | _ => False

namespace World

inductive IsMember (w : World) : Value → Prop
  | value {x : Value} (hx : x.IsForScripts) : IsMember w x
  | function {f : Ref .function} (hf : (w.functions.get f).body.AnswersScripts) :
    IsMember w (.function f)

inductive HasOwn (w : World) (name : String) : Value → Prop
  | view {q : Ref .view} (ho : View.hasOwn w q name = true) : HasOwn w name (.view q)
  | box {b : Ref .box} (ho : Box.hasOwn w b name = true) : HasOwn w name (.box b)

end World

section

variable {w u : World} {x : Value} {name : String}

theorem isMember_of_newFunction {function : Option String} (body : Body) (hbody : body.AnswersScripts)
    (h : (newFunction function body none >>= fun f => (pure (.function f) : Action Value)) w = .ok x u) :
    u.IsMember x := by
  obtain ⟨f, v, hf, hlast⟩ := bind_eq_ok.mp h
  cases hf
  cases hlast
  have hnew := Store.get_push_next w.functions ⟨function, body, w.records.next, none⟩
  exact .function ((congrArg Function.body hnew).symm ▸ hbody)

theorem isMember_of_newSearch {kind : SearchKind} {array : Ref .array} {test : SlotTest}
    (hkind : kind ≠ .bare) (h : newSearch kind array test w = .ok x u) : u.IsMember x :=
  isMember_of_newFunction (.search kind array test) hkind h

theorem isMember_of_presentMember {owner scope : Value} {p : Ref .presenter}
    (h : presentMember owner name p scope w = .ok x u) : x = .missing ∨ u.IsMember x := by
  rw [presentMember, get_bind_apply] at h
  cases hm : w.member? owner name with
  | none =>
    rw [hm] at h
    cases h
    exact .inl rfl
  | some m =>
    rw [hm] at h
    cases m with
    | method =>
      exact .inr (isMember_of_newFunction (.hostMethod owner name p scope) True.intro h)
    | _ =>
      obtain ⟨y, v, -, hpresent⟩ := bind_eq_ok.mp h
      exact .inr (.value (Presenter.isForScripts_of_present hpresent))

theorem View.isMember_of_ownBy {has : Value → String → Action Bool} {q : Ref .view}
    (h : ownBy has q name w = .ok x u) : x = .missing ∨ u.IsMember x := by
  rw [ownBy, get_bind_apply] at h
  split at h
  · cases h
    exact .inr (.value (.basic (by rw [(heldBy_int _ _ _).1]; exact True.intro)))
  · exact .inr (isMember_of_newSearch (by decide) h)
  · exact .inr (isMember_of_newSearch (by decide) h)
  · split at h
    · exact isMember_of_presentMember h
    · obtain ⟨p, v, -, hasked⟩ := bind_eq_ok.mp h
      obtain ⟨b, v', -, hlast⟩ := bind_eq_ok.mp hasked
      cases b with
      | true =>
        cases hlast
        exact .inl rfl
      | false => cases hlast

theorem Box.isMember_of_own {b : Ref .box} (h : own b name w = .ok x u) :
    x = .missing ∨ u.IsMember x := by
  rw [own, get_bind_apply] at h
  split at h
  · exact isMember_of_presentMember h
  · cases h
    exact .inl rfl

/-- An own member is read as what the view or the box has. -/
theorem World.HasOwn.isMember_of_read {v : Value} (hs : w.Sound) (ho : w.HasOwn name v)
    (h : Property.read v name w = .ok x u) : u.IsMember x := by
  cases ho with
  | @view q ho =>
    obtain ⟨y, z, hy, -, hm⟩ := View.ownBy_of_hasOwn Property.has hs ho
    have hread := Property.read_of_own (fun has => (View.ownBy_congr ho has Property.has).trans hy) hm
    rw [h] at hread
    cases hread
    exact (View.isMember_of_ownBy hy).resolve_left hm
  | @box b ho =>
    rw [Property.read, get_bind_apply, Property.nesting, Property.readTo_box] at h
    obtain ⟨y, z, hy, hlast⟩ := bind_eq_ok.mp h
    cases hlast
    have hm : y ≠ .missing := by
      by_cases hr : w.Readable (w.boxes.get b).value name
      · obtain ⟨y', z', hy', -, hm⟩ := Box.own_of_hasOwn hs ho hr
        rw [hy] at hy'
        cases hy'
        exact hm
      · rw [Box.own_of_not_readable ho hr] at hy
        cases hy
    rw [Property.orUndefined_of_ne hm]
    exact (Box.isMember_of_own hy).resolve_left hm

theorem isForScripts_of_search {kind : SearchKind} {array : Ref .array} {test : SlotTest}
    {args : List Value} (hkind : kind ≠ .bare) (h : Search.call kind array test args w = .ok x u) :
    x.IsForScripts := by
  rw [Search.call] at h
  cases kind with
  | bare => exact absurd rfl hkind
  | indexOf | includes =>
    rw [Search.callBy] at h
    obtain ⟨n, v, -, hlast⟩ := bind_eq_ok.mp h
    cases hlast
    exact .basic True.intro

theorem isForScripts_of_callTo {f : Ref .function} (hf : (w.functions.get f).body.AnswersScripts)
    {depth : Nat} {this : Value} {args : List Value} (h : callTo depth f this args w = .ok x u) :
    x.IsForScripts := by
  cases depth with
  | zero => cases h
  | succ depth =>
    rw [callTo, look_bind_apply] at h
    cases hbody : (w.functions.get f).body with
    | hostMethod owner name p scope =>
      rw [hbody] at h
      dsimp only at h
      rw [get_bind_apply] at h
      obtain ⟨answer, v, -, hpresent⟩ := bind_eq_ok.mp h
      exact Presenter.isForScripts_of_present hpresent
    | search kind array test =>
      rw [hbody] at h hf
      exact isForScripts_of_search hf h
    | _ =>
      rw [hbody] at hf
      exact hf.elim

theorem World.IsMember.isForScripts_of_callWith {v this : Value} {args : List Value} (hv : w.IsMember v)
    (h : callWith v this args w = .ok x u) : x.IsForScripts := by
  cases hv with
  | value hv =>
    cases hv with
    | basic hx =>
      cases v with
      | function f => exact hx.elim
      | _ => cases h
    | _ => cases h
  | function hf =>
    rw [callWith] at h
    obtain ⟨b, u', hb, hcall⟩ := bind_eq_ok.mp h
    cases hb
    split at hcall
    · cases hcall
    · exact isForScripts_of_callTo hf hcall

end

theorem World.not_presentable_iff {w : World} {v : Value} :
    ¬ w.Presentable v ↔ Recurs w.onlyCell? v := by
  constructor
  · exact (ends_or_recurs fun _ _ => steps_le_of_imp).resolve_left
  · rintro hrecurs ⟨n, hn⟩
    exact hn.not_recurs hrecurs

/-- Whatever reaches scripts from the host is a value as they get them. -/
structure World.Shields (w : World) : Prop where
  presents : ∀ p v scope, ¬ Recurs w.onlyCell? v →
    ∃ x u, Presenter.present p v scope w = .ok x u ∧ w.Delivers v u x
  /-- What leads to an array without axes that leads back to itself is not presented. -/
  refuses : ∀ p v scope, Recurs w.onlyCell? v →
    Presenter.present p v scope w = .error (.host .recursion) w
  index : ∀ r i x u, View.getIndex r i w = .ok x u → x.IsForScripts ∨
    x = .undefined ∧ u = w ∧ w.inBounds i (w.views.get r).length = .ok false
  iteration : ∀ r xs u, w.views.Has r → View.elements r w = .ok xs u → ∀ x ∈ xs, x.IsForScripts
  viewMember : ∀ q name x u, View.own q name w = .ok x u → x = .missing ∨ u.IsMember x
  boxMember : ∀ b name x u, Box.own b name w = .ok x u → x = .missing ∨ u.IsMember x
  /-- Functions that scripts got as members answer with such values, whenever they are called. -/
  answer : ∀ f depth this args x u, (w.functions.get f).body.AnswersScripts →
    callTo depth f this args w = .ok x u → x.IsForScripts
  method : ∀ v name args x u, w.HasOwn name v → callMethod v name args w = .ok x u → x.IsForScripts

/-- Every reachable world shields scripts from what only hosts handle. -/
theorem Reachable.shields {w : World} (h : Reachable w) : w.Shields where
  presents p v scope hv := by
    have hends : w.Presentable v := not_not.mp (mt not_presentable_iff.mp hv)
    obtain ⟨x, u, hx⟩ := Presenter.succeeds_present h.sound p scope hends
    exact ⟨x, u, hx, delivers_of_present h.sound hx⟩
  refuses p v scope hv := by
    rw [Presenter.present, get_bind_apply]
    exact Presenter.presentFrom_of_not_presentable _ (not_presentable_iff.mpr hv)
  index _ _ _ _ := View.isForScripts_of_getIndex
  iteration _ _ _ hr hxs := View.isForScripts_of_elements h.sound hr hxs
  viewMember _ _ _ _ := View.isMember_of_ownBy
  boxMember _ _ _ _ := Box.isMember_of_own
  answer _ _ _ _ _ _ hf hx := isForScripts_of_callTo hf hx
  method v name args x u ho hx := by
    obtain ⟨f, z, hf, hcall⟩ := bind_eq_ok.mp hx
    exact (ho.isMember_of_read h.sound hf).isForScripts_of_callWith hcall

def ouroboros : World := World.empty.afterAll [
  .newPresenter .standard,
  .buildArray (.native .object) [] [.null],
  .assignAt ⟨1⟩ [] (.array ⟨1⟩),
  .buildArray (.native (.bytes 2)) [] [.bytes [104, 233]],
  .buildArray (.native (.int true 1)) [2] [.int 4, .int 5],
  .newView .null ⟨3⟩ ⟨0⟩ none false]

theorem reachable_ouroboros : Reachable ouroboros := by
  apply Reachable.start.afterAll
  simp [Operation.IsProper, CellType.native, Content.IsProper]

/-- Only the first of them is not presented. -/
theorem Reachable.present_self_holding :
    Presenter.present ⟨0⟩ (.array ⟨1⟩) .null ouroboros = .error (.host .recursion) ouroboros ∧
    (∃ x u, Presenter.present ⟨0⟩ (.array ⟨2⟩) .null ouroboros = .ok x u ∧
      ouroboros.Delivers (.array ⟨2⟩) u x) ∧
    (∃ x u, Presenter.present ⟨0⟩ (.array ⟨3⟩) .null ouroboros = .ok x u ∧
      ouroboros.Delivers (.array ⟨3⟩) u x) := by
  have h := Reachable.shields reachable_ouroboros
  have hself : ouroboros.onlyCell? (.array ⟨1⟩) = some (.array ⟨1⟩) := by decide +kernel
  have hbytes : Ends ouroboros.onlyCell? 1 (.array ⟨2⟩) :=
    .there (b := .bytes [104, 233]) (by decide +kernel) (.here rfl)
  have haxis : Ends ouroboros.onlyCell? 0 (.array ⟨3⟩) := .here (by decide +kernel)
  exact ⟨h.refuses _ _ _ ⟨_, .refl, .single hself⟩, h.presents _ _ _ hbytes.not_recurs,
    h.presents _ _ _ haxis.not_recurs⟩

end ScriptedArrays
