import ScriptedArrays.Property
import ScriptedArrays.Proofs.Presenting

/-! What lookups leave as it is. Reading a property may make functions, views and boxes and may
find the prototype of a view, and nothing that was there before shows any of that to a later
lookup. -/

namespace ScriptedArrays

open World

structure KeepsMembers (R : World → World → Prop) : Prop where
  newTuple : ∀ vs, Keeps R (newTuple vs)
  newFunction : ∀ name body receiver, Keeps R (newFunction name body receiver)
  present : ∀ p v scope, Keeps R (Presenter.present p v scope)

structure KeepsParts (R : World → World → Prop) : Prop extends KeepsMembers R where
  findPrototype : ∀ r, Keeps R (View.findPrototype r)

variable {R : World → World → Prop} [IsPreorder World R]

namespace KeepsMembers

theorem memberValue (h : KeepsMembers R) (owner : Value) (name : String) (m : Member) :
    Keeps R (memberValue owner name m) := by
  cases m with
  | value v => exact .pure v
  | tuple vs => exact h.newTuple vs
  | method => exact .pure _

theorem presentMember (h : KeepsMembers R) (owner : Value) (name : String) (p : Ref .presenter)
    (scope : Value) : Keeps R (presentMember owner name p scope) := by
  refine .bind .get fun w => ?_
  split
  · exact .pure _
  · exact .bind (h.newFunction _ _ _) fun _ => .pure _
  · exact .bind (h.memberValue _ _ _) fun v => h.present _ _ _

theorem own (h : KeepsMembers R) (r : Ref .box) (name : String) : Keeps R (Box.own r name) :=
  .bind .get fun _ => .ite (h.presentMember _ _ _ _) (.pure _)

theorem newSearch (h : KeepsMembers R) (kind : SearchKind) (array : Ref .array) (test : SlotTest) :
    Keeps R (newSearch kind array test) := .bind (h.newFunction _ _ _) fun _ => .pure _

theorem ownBy_of_hasOwn (h : KeepsMembers R) {has : Value → String → Action Bool} {r : Ref .view}
    {name : String} {w : World} (ho : View.hasOwn w r name = true) :
    R w (w.after (View.ownBy has r name)) := by
  rw [View.ownBy, after_get_bind]
  dsimp only
  split
  · exact Keeps.pure _ w
  · exact h.newSearch _ _ _ w
  · exact h.newSearch _ _ _ w
  · rw [if_pos ho]
    exact h.presentMember _ _ _ _ w

end KeepsMembers

namespace KeepsParts

theorem ownBy (h : KeepsParts R) {has : Value → String → Action Bool}
    (hh : ∀ v name, Keeps R (has v name)) (r : Ref .view) (name : String) :
    Keeps R (View.ownBy has r name) := by
  unfold View.ownBy
  refine .bind .get fun w => ?_
  dsimp only
  split
  · exact .pure _
  · exact h.toKeepsMembers.newSearch _ _ _
  · exact h.toKeepsMembers.newSearch _ _ _
  · refine .ite (h.toKeepsMembers.presentMember _ _ _ _) ?_
    exact .bind (h.findPrototype r) fun p => .bind (hh p _) fun b => .ite (.pure _) (.fail _)

theorem along {depth : Nat} {name : String}
    (hread : ∀ v, Keeps R (Property.readTo depth v name)) (v : Value) :
    Keeps R (get >>= fun w => match w.walk name v with
      | .found x => (pure (Property.orUndefined x) : Action Value)
      | .nowhere => pure .undefined
      | .beyond x => Property.readTo depth x name) := by
  refine .bind .get fun w => ?_
  split
  · exact .pure _
  · exact .pure _
  · exact hread _

/-- Lookups keep what their parts keep, however they are nested. -/
theorem lookup (h : KeepsParts R) (depth : Nat) :
    (∀ v name, Keeps R (Property.readTo depth v name)) ∧
      ∀ v name, Keeps R (Property.hasTo depth v name) := by
  induction depth with
  | zero =>
    constructor
    · intro v name
      rw [Property.readTo]
      exact .failHost _
    · intro v name
      rw [Property.hasTo]
      exact .failHost _
  | succ depth ih =>
    obtain ⟨hread, hhas⟩ := ih
    constructor
    · intro v name
      have halong := along fun v => hread v name
      unfold Property.readTo
      dsimp only
      split
      · exact halong _
      · rename_i r
        refine .bind (h.ownBy hhas r name) fun x => ?_
        split
        · exact .bind (h.findPrototype r) fun p => halong p
        · exact .pure _
      · exact .bind (h.toKeepsMembers.own _ _) fun _ => .pure _
      · refine .bind .get fun w => ?_
        split
        · exact h.toKeepsMembers.memberValue _ _ _
        · exact .pure _
    · intro v name
      unfold Property.hasTo
      split
      · exact .pure _
      · exact .pure _
      · refine .bind .get fun w => ?_
        split
        · exact .pure _
        · exact .pure _
        · exact .bind (hread _ _) fun _ => .pure _
      · rename_i r
        refine .bind .get fun w => .ite (.pure _) ?_
        refine .bind (h.findPrototype r) fun p => ?_
        split
        · exact .pure _
        · exact hhas _ _
      · exact .bind .get fun _ => .pure _
      · exact .bind .get fun _ => .pure _

end KeepsParts

namespace World

def Live (w : World) (v : Value) : Prop :=
  match v.content with
  | .function f => w.functions.Has f
  | .view q => w.views.Has q
  | .box b => w.boxes.Has b
  | _ => True

/-- The prototype of a view, as it was found or as it would be. -/
def resolved? (w : World) (q : Ref .view) : Except Fault Value :=
  match (w.views.get q).prototype with
  | some p => .ok p
  | none => match (w.views.get q).scope with
    | .scope s => w.prototypeAt s
    | .null => .ok .null
    | _ => .error (.host .attribute)

def Rooted (w : World) (q : Ref .view) : Prop :=
  ∀ s c, (w.views.get q).scope = .scope s → w.constructor? s = .ok c → w.Live c

/-- Everything stays as it is but for new objects, whose records only name their constructor,
and for prototypes of views, which are found as they would have been. -/
structure Grows (w w' : World) : Prop where
  arrays : w'.arrays = w.arrays
  buffers : w'.buffers = w.buffers
  scopes : w'.scopes = w.scopes
  record : ∀ r, w.records.Has r → w'.records.Has r ∧ w'.records.get r = w.records.get r
  entry : ∀ r key, key ≠ "constructor" →
    (w'.records.get r).get? key = (w.records.get r).get? key
  function : ∀ f, w.functions.Has f → w'.functions.Has f ∧ w'.functions.get f = w.functions.get f
  box : ∀ b, w.boxes.Has b → w'.boxes.Has b ∧ w'.boxes.get b = w.boxes.get b
  view : ∀ q, w.views.Has q → w'.views.Has q ∧
    w'.views.get q = { w.views.get q with prototype := (w'.views.get q).prototype }
  known : ∀ q p, w.views.Has q → (w.views.get q).prototype = some p →
    (w'.views.get q).prototype = some p
  found : ∀ q p, w.views.Has q → w.Rooted q → (w'.views.get q).prototype = some p →
    w.resolved? q = .ok p

section

variable {w w' : World}

theorem resolved?_of_some {q : Ref .view} {p : Value} (h : (w.views.get q).prototype = some p) :
    w.resolved? q = .ok p := by
  rw [resolved?, h]

theorem resolved?_of_none {q : Ref .view} {s : Ref .scope} (h : (w.views.get q).prototype = none)
    (hs : (w.views.get q).scope = .scope s) : w.resolved? q = w.prototypeAt s := by
  rw [resolved?, h, hs]

theorem grows_of_eq (ha : w'.arrays = w.arrays) (hb : w'.buffers = w.buffers)
    (hs : w'.scopes = w.scopes) (hr : w'.records = w.records) (hf : w'.functions = w.functions)
    (hx : w'.boxes = w.boxes) (hv : w'.views = w.views) : w.Grows w' where
  arrays := ha
  buffers := hb
  scopes := hs
  record _ h := by rw [hr]; exact ⟨h, rfl⟩
  entry _ _ _ := by rw [hr]
  function _ h := by rw [hf]; exact ⟨h, rfl⟩
  box _ h := by rw [hx]; exact ⟨h, rfl⟩
  view _ h := by rw [hv]; exact ⟨h, rfl⟩
  known _ _ _ h := by rwa [hv]
  found _ _ _ _ h := resolved?_of_some (by rwa [hv] at h)

theorem chainFrom_congr (hs : w'.scopes = w.scopes) (fuel : Nat) (visited : List (Ref .scope))
    (s : Ref .scope) : w'.chainFrom fuel visited s = w.chainFrom fuel visited s := by
  induction fuel generalizing visited s with
  | zero => rfl
  | succ fuel ih =>
    rw [World.chainFrom, World.chainFrom, hs]
    split
    · rfl
    · split
      · rfl
      · rw [ih]

theorem chain_congr (hs : w'.scopes = w.scopes) (s : Ref .scope) : w'.chain s = w.chain s := by
  rw [World.chain, World.chain, chainFrom_congr hs, hs]

theorem binding?_congr (hs : w'.scopes = w.scopes) {name : String}
    (he : ∀ r, (w'.records.get r).get? name = (w.records.get r).get? name) (s : Ref .scope) :
    w'.binding? s name = w.binding? s name := by
  have hget : ∀ r, (w'.bindings r).get? name = (w.bindings r).get? name := by
    intro r
    rw [bindings, bindings, hs]
    exact he _
  have hbinds : w'.binds name = w.binds name := by
    funext r
    rw [binds, binds, Entries.has_eq_isSome, Entries.has_eq_isSome, hget]
  simp only [World.binding?, owner, chain_congr hs, hbinds, hget]

theorem constructor?_congr (hs : w'.scopes = w.scopes)
    (he : ∀ r, (w'.records.get r).get? "Array" = (w.records.get r).get? "Array") (s : Ref .scope) :
    w'.constructor? s = w.constructor? s := by
  simp only [World.constructor?, topLevel, chain_congr hs, binding?_congr hs he]

namespace Grows

theorem refl (w : World) : w.Grows w := grows_of_eq rfl rfl rfl rfl rfl rfl rfl

theorem constructor? (h : w.Grows w') (s : Ref .scope) : w'.constructor? s = w.constructor? s :=
  constructor?_congr h.scopes (fun r => h.entry r "Array" (by decide)) s

theorem live (h : w.Grows w') {v : Value} (hv : w.Live v) : w'.Live v := by
  unfold Live at hv ⊢
  split at hv
  · exact (h.function _ hv).1
  · exact (h.view _ hv).1
  · exact (h.box _ hv).1
  · exact True.intro

theorem rooted (h : w.Grows w') {q : Ref .view} (hq : w.views.Has q) (hr : w.Rooted q) :
    w'.Rooted q := by
  intro s c hs hc
  rw [(h.view q hq).2] at hs
  rw [h.constructor?] at hc
  exact h.live (hr s c hs hc)

theorem presentable (h : w.Grows w') (v : Value) : w'.Presentable v ↔ w.Presentable v := by
  have hcell : w'.onlyCell? = w.onlyCell? := by
    funext v
    simp only [onlyCell?, World.cell, h.arrays, h.buffers]
  rw [Presentable, Presentable, hcell]

/-- A live value keeps its members; only the name of the type of what a box holds may change. -/
theorem member? (h : w.Grows w') {v : Value} (hv : w.Live v) (name : String) :
    w'.member? v name = w.member? v name ∨ name = "host_type_name" ∧
      ∃ s s', w.member? v name = some (.value (.text s)) ∧
        w'.member? v name = some (.value (.text s')) := by
  unfold World.member? Live at *
  cases hc : v.content with
  | function f =>
    rw [hc] at hv
    left
    dsimp only
    rw [(h.function f hv).2]
  | array r =>
    left
    dsimp only
    rw [h.arrays]
  | scope s =>
    left
    dsimp only
    rw [h.scopes]
  | view q =>
    rw [hc] at hv
    left
    dsimp only
    simp only [HostMember.view?]
    rw [(h.view q hv).2]
    rfl
  | box b =>
    rw [hc] at hv
    dsimp only
    rw [(h.box b hv).2]
    by_cases hname : name = "host_type_name"
    · subst hname
      exact .inr ⟨rfl, _, _, rfl, rfl⟩
    · left
      simp only [HostMember.boxed?]
      split
      · rfl
      · rfl
      · exact absurd rfl hname
      · rfl
      · rfl
      · rfl
      · rfl
  | _ => exact .inl rfl

end Grows

def Readable (w : World) (owner : Value) (name : String) : Prop :=
  ∀ v, w.member? owner name = some (.value v) → w.Presentable v

theorem presentable_of_onlyCell? {v : Value} (h : w.onlyCell? v = none) : w.Presentable v :=
  ⟨0, .here h⟩

namespace Grows

theorem readable (h : w.Grows w') {v : Value} (hv : w.Live v) (name : String) :
    w'.Readable v name ↔ w.Readable v name := by
  have htext : ∀ (u : World) s, u.Presentable (.text s) := fun u s => presentable_of_onlyCell? rfl
  simp only [Readable]
  rcases h.member? hv name with hm | ⟨-, s, s', hm, hm'⟩
  · rw [hm]
    simp only [h.presentable]
  · rw [hm, hm']
    constructor
    · rintro - x hx
      cases hx
      exact htext w s
    · rintro - x hx
      cases hx
      exact htext w' s'

theorem exposes (h : w.Grows w') {v : Value} (hv : w.Live v) (exposed : List String) (name : String) :
    w'.exposes exposed v name = w.exposes exposed v name := by
  simp only [World.exposes]
  rcases h.member? hv name with hm | ⟨-, s, s', hm, hm'⟩
  · rw [hm]
  · rw [hm, hm']
    rfl

theorem prototypeOf (h : w.Grows w') {c : Value} (hc : w.Live c) :
    w'.prototypeOf c = w.prototypeOf c := by
  have hmember : w'.member? c "prototype" = w.member? c "prototype" := by
    rcases h.member? hc "prototype" with hm | ⟨hname, -⟩
    · exact hm
    · exact absurd hname (by decide)
  simp only [World.prototypeOf]
  split
  · rw [Entries.getD, Entries.getD, h.entry _ _ (by decide)]
  · rw [hmember]

theorem prototypeAt (h : w.Grows w') {s : Ref .scope}
    (hs : ∀ c, w.constructor? s = .ok c → w.Live c) : w'.prototypeAt s = w.prototypeAt s := by
  rw [World.prototypeAt, World.prototypeAt, h.constructor?]
  cases hc : w.constructor? s with
  | error f => rfl
  | ok c =>
    cases c with
    | null => rfl
    | _ => exact congrArg Except.ok (h.prototypeOf (hs _ hc))

theorem resolved? (h : w.Grows w') {q : Ref .view} (hq : w.views.Has q) (hr : w.Rooted q) :
    w'.resolved? q = w.resolved? q := by
  cases hp' : (w'.views.get q).prototype with
  | some p => rw [resolved?_of_some hp', h.found q p hq hr hp']
  | none =>
    cases hp : (w.views.get q).prototype with
    | some p =>
      rw [h.known q p hq hp] at hp'
      cases hp'
    | none =>
      have hscope : (w'.views.get q).scope = (w.views.get q).scope := by rw [(h.view q hq).2]
      rw [World.resolved?, World.resolved?, hp, hp', hscope]
      dsimp only
      cases hs : (w.views.get q).scope with
      | scope s => exact h.prototypeAt fun c hc => hr s c hs hc
      | _ => rfl

theorem trans {w'' : World} (h : w.Grows w') (h' : w'.Grows w'') : w.Grows w'' where
  arrays := h'.arrays.trans h.arrays
  buffers := h'.buffers.trans h.buffers
  scopes := h'.scopes.trans h.scopes
  record r hr :=
    have hr' := h.record r hr
    ⟨(h'.record r hr'.1).1, (h'.record r hr'.1).2.trans hr'.2⟩
  entry r key hk := (h'.entry r key hk).trans (h.entry r key hk)
  function f hf :=
    have hf' := h.function f hf
    ⟨(h'.function f hf'.1).1, (h'.function f hf'.1).2.trans hf'.2⟩
  box b hb :=
    have hb' := h.box b hb
    ⟨(h'.box b hb'.1).1, (h'.box b hb'.1).2.trans hb'.2⟩
  view q hq := by
    obtain ⟨hq', hv'⟩ := h.view q hq
    obtain ⟨hq'', hv''⟩ := h'.view q hq'
    refine ⟨hq'', ?_⟩
    rw [hv'', hv']
  known q p hq hp := h'.known q p (h.view q hq).1 (h.known q p hq hp)
  found q p hq hr hp := by
    rw [← h.resolved? hq hr]
    exact h'.found q p (h.view q hq).1 (h.rooted hq hr) hp

end Grows

instance : IsPreorder World Grows where
  refl := .refl
  trans _ _ _ := .trans

theorem grows_push_function (w : World) (f : Function) :
    w.Grows { w with
      functions := w.functions.push f
      records := w.records.push [("constructor", .function w.functions.next)] } where
  arrays := rfl
  buffers := rfl
  scopes := rfl
  record _ hr := ⟨Store.has_push_of_has _ _ hr, Store.get_push_of_ne _ _ (w.records.ne_next_of_has hr)⟩
  entry r key hk := by
    by_cases hr : r = w.records.next
    · subst hr
      have hold : w.records.get w.records.next = default :=
        Store.get_of_not_has _ fun h => w.records.ne_next_of_has h rfl
      rw [Store.get_push_next, hold, Entries.get?, List.find?_cons_of_neg (by simpa using hk.symm)]
      rfl
    · rw [Store.get_push_of_ne _ _ hr]
  function _ hg := ⟨Store.has_push_of_has _ _ hg,
    Store.get_push_of_ne _ _ (w.functions.ne_next_of_has hg)⟩
  box _ hb := ⟨hb, rfl⟩
  view _ hq := ⟨hq, rfl⟩
  known _ _ _ hp := hp
  found _ _ _ _ hp := resolved?_of_some hp

theorem grows_push_box (w : World) (b : Box) : w.Grows { w with boxes := w.boxes.push b } where
  arrays := rfl
  buffers := rfl
  scopes := rfl
  record _ hr := ⟨hr, rfl⟩
  entry _ _ _ := rfl
  function _ hf := ⟨hf, rfl⟩
  box _ hc := ⟨Store.has_push_of_has _ _ hc, Store.get_push_of_ne _ _ (w.boxes.ne_next_of_has hc)⟩
  view _ hq := ⟨hq, rfl⟩
  known _ _ _ hp := hp
  found _ _ _ _ hp := resolved?_of_some hp

theorem grows_push_view (w : World) (v : View) : w.Grows { w with views := w.views.push v } := by
  have hold : ∀ q, w.views.Has q → (w.views.push v).get q = w.views.get q :=
    fun q hq => Store.get_push_of_ne _ _ (w.views.ne_next_of_has hq)
  exact {
    arrays := rfl
    buffers := rfl
    scopes := rfl
    record := fun _ hr => ⟨hr, rfl⟩
    entry := fun _ _ _ => rfl
    function := fun _ hf => ⟨hf, rfl⟩
    box := fun _ hb => ⟨hb, rfl⟩
    view := fun q hq => ⟨Store.has_push_of_has _ _ hq, by simp only [hold q hq]⟩
    known := fun q _ hq hp => by simpa only [hold q hq] using hp
    found := fun q _ hq _ hp => resolved?_of_some (by simpa only [hold q hq] using hp) }

/-- A view finds its prototype. -/
theorem grows_set_prototype (w : World) {r : Ref .view} {p : Value} (hp : w.resolved? r = .ok p) :
    w.Grows { w with views := w.views.set r { w.views.get r with prototype := some p } } := by
  have hget : ∀ q, (w.views.set r { w.views.get r with prototype := some p }).get q =
      if q = r ∧ w.views.Has r then { w.views.get q with prototype := some p } else w.views.get q := by
    intro q
    rw [Store.get_set]
    by_cases hq : q = r ∧ w.views.Has r
    · rw [if_pos hq, if_pos hq, hq.1]
    · rw [if_neg hq, if_neg hq]
  exact {
    arrays := rfl
    buffers := rfl
    scopes := rfl
    record := fun _ hr => ⟨hr, rfl⟩
    entry := fun _ _ _ => rfl
    function := fun _ hf => ⟨hf, rfl⟩
    box := fun _ hb => ⟨hb, rfl⟩
    view := fun q hq => by
      refine ⟨(Store.has_set _ _ _ _).mpr hq, ?_⟩
      simp only [hget]
      split <;> rfl
    known := fun q x _ hx => by
      simp only [hget]
      split
      · rename_i heq
        rw [heq.1] at hx
        rw [resolved?_of_some hx] at hp
        cases hp
        rfl
      · exact hx
    found := fun q x _ _ hx => by
      simp only [hget] at hx
      split at hx
      · rename_i heq
        cases hx
        rw [heq.1]
        exact hp
      · exact resolved?_of_some hx }

end
end World

theorem grows_logEvent (e : Event) : Keeps Grows (logEvent e) := by
  intro w
  obtain ⟨l, hl⟩ := logEvent_eq e w
  rw [after_of_ok hl]
  exact grows_of_eq rfl rfl rfl rfl rfl rfl rfl

theorem grows_keep (v : Value) : Keeps Grows (keep v) := by
  intro w
  obtain ⟨x, n, hx, -⟩ := keep_eq v w
  rw [after_of_ok hx]
  exact grows_of_eq rfl rfl rfl rfl rfl rfl rfl

theorem grows_newTuple (vs : List Value) : Keeps Grows (newTuple vs) := by
  simp only [newTuple]
  split
  · exact .pure _
  · exact .bind (.mapM _ fun v _ => grows_keep v) fun _ =>
      .modifyGet fun _ => grows_of_eq rfl rfl rfl rfl rfl rfl rfl

theorem grows_newFunction (name : Option String) (body : Body) (receiver : Option Value) :
    Keeps Grows (newFunction name body receiver) := .modifyGet fun w => grows_push_function w _

theorem grows_newBox (scope value : Value) (p : Ref .presenter) (exposed : Option (List String)) :
    Keeps Grows (newBox scope value p exposed) :=
  .bind (grows_keep value) fun _ => .modifyGet fun w => grows_push_box w _

theorem grows_handing (w : World) (r : Ref .view) : w.Grows (w.handing r) :=
  grows_of_eq rfl rfl rfl rfl rfl rfl rfl

theorem grows_newView (scope : Value) (r : Ref .array) (p : Ref .presenter)
    (truncates : Option Bool) (counted : Bool) : Keeps Grows (newView scope r p truncates counted) := by
  intro w
  unfold newView
  rw [after_get_bind]
  dsimp only
  split
  · exact .refl w
  · have hlog : ∀ e, Keeps Grows (logEvent e >>= fun _ => (pure w.views.next : Action (Ref .view))) :=
      fun e => .bind (grows_logEvent e) fun _ => .pure _
    exact ((grows_push_view w _).trans (grows_handing _ _)).trans (hlog _ _)

namespace Presenter

theorem grows_viewOf (p : Ref .presenter) (r : Ref .array) (scope : Value) :
    Keeps Grows (viewOf p r scope) := by
  refine .bind .get fun w => ?_
  split
  · exact grows_newView _ _ _ _ _
  · split
    · exact .bind (.modify fun w => grows_handing w _) fun _ => .pure _
    · refine .bind (grows_newView _ _ _ _ _) fun q => .bind (.look _) fun now => ?_
      exact .bind (.modify fun w => grows_of_eq rfl rfl rfl rfl rfl rfl rfl) fun _ => .pure _

theorem grows_present (p : Ref .presenter) (v scope : Value) : Keeps Grows (present p v scope) :=
  .bind .get fun _ => keeps_presentFrom grows_keep (fun v => grows_newBox scope v p none)
    (fun w r _ => grows_viewOf p r scope w) _ _

end Presenter

theorem ask_bind_of_ok {α β : Type} {g : World → Except Fault α} {w : World} {a : α}
    (f : α → Action β) (h : g w = .ok a) : (ask g >>= f) w = f a w :=
  bind_apply_of_ok f (by rw [ask, h])

theorem ask_bind_of_error {α β : Type} {g : World → Except Fault α} {w : World} {e : Fault}
    (f : α → Action β) (h : g w = .error e) : (ask g >>= f) w = .error e w :=
  bind_apply_of_error f (by rw [ask, h])

theorem arrayPrototype_eq (s : Ref .scope) (w : World) : ∃ l, arrayPrototype s w =
    match w.prototypeAt s with
    | .ok p => .ok p { w with log := l }
    | .error f => .error f w := by
  cases ht : w.topLevel s with
  | error f =>
    have hat : w.prototypeAt s = .error f := by
      rw [prototypeAt, constructor?, ht]
      rfl
    rw [hat, arrayPrototype, ask_bind_of_error _ ht]
    exact ⟨w.log, rfl⟩
  | ok top =>
    rw [arrayPrototype, ask_bind_of_ok _ ht]
    cases hb : w.binding? top "Array" with
    | error f =>
      have hat : w.prototypeAt s = .error f := by
        rw [prototypeAt, constructor?, ht]
        show (w.binding? top "Array" >>= _) >>= _ = _
        rw [hb]
        rfl
      rw [hat, ask_bind_of_error _ hb]
      exact ⟨w.log, rfl⟩
    | ok c =>
      have hc : w.constructor? s = .ok (c.getD .null) := by
        rw [constructor?, ht]
        show (w.binding? top "Array" >>= _) = _
        rw [hb]
        rfl
      rw [prototypeAt, hc, ask_bind_of_ok _ hb]
      cases c.getD .null with
      | null =>
        obtain ⟨l, hl⟩ := logEvent_eq .noArrayInstalled w
        refine ⟨l, ?_⟩
        dsimp only
        rw [bind_apply_of_ok _ hl]
        rfl
      | _ => exact ⟨w.log, rfl⟩

theorem World.prototypeAt_requests (w : World) (n : List Request) (s : Ref .scope) :
    World.prototypeAt { w with requests := n } s = w.prototypeAt s := by
  have h : w.Grows { w with requests := n } := grows_of_eq rfl rfl rfl rfl rfl rfl rfl
  rw [prototypeAt, prototypeAt, h.constructor?]
  rfl

namespace View

def asks (w : World) (r : Ref .view) : List Request :=
  match (w.views.get r).prototype with
  | some _ => []
  | none => match (w.views.get r).scope with
    | .scope s => [⟨r, (w.prototypeAt s).toOption⟩]
    | .null => []
    | _ => [⟨r, none⟩]

/-- A view finds the prototype that it has or that its scope offers, and keeps it; otherwise it
fails like the way to it. -/
theorem findPrototype_eq (r : Ref .view) (w : World) : ∃ l, findPrototype r w =
    match w.resolved? r with
    | .ok p => .ok p { w with
        requests := w.requests ++ asks w r
        log := l
        views := w.views.set r { w.views.get r with prototype := some p } }
    | .error f => .error f { w with requests := w.requests ++ asks w r, log := l } := by
  rw [findPrototype, look_bind_apply]
  cases hp : (w.views.get r).prototype with
  | some p =>
    have hsame : w.views.set r { w.views.get r with prototype := some p } = w.views := by
      rw [← hp, Store.set_get]
    have hasks : w.requests ++ asks w r = w.requests := by rw [asks, hp, List.append_nil]
    rw [resolved?_of_some hp]
    refine ⟨w.log, ?_⟩
    dsimp only
    rw [hsame, hasks]
    rfl
  | none =>
    cases hs : (w.views.get r).scope with
    | scope s =>
      have hr : w.resolved? r = w.prototypeAt s := by rw [resolved?, hp, hs]
      have hasks : asks w r = [⟨r, (w.prototypeAt s).toOption⟩] := by rw [asks, hp, hs]
      have hlook : ∀ n, ∃ l, arrayPrototype s { w with requests := n } =
          match w.prototypeAt s with
          | .ok p => .ok p { w with requests := n, log := l }
          | .error f => .error f { w with requests := n } := by
        intro n
        obtain ⟨l, hl⟩ := arrayPrototype_eq s { w with requests := n }
        rw [w.prototypeAt_requests n] at hl
        exact ⟨l, hl⟩
      obtain ⟨l, hl⟩ := hlook (w.requests ++ [⟨r, (w.prototypeAt s).toOption⟩])
      rw [hr, hasks]
      show ∃ l, (arrayPrototype s >>= _)
        { w with requests := w.requests ++ [⟨r, (w.prototypeAt s).toOption⟩] } = _
      cases hat : w.prototypeAt s with
      | ok p =>
        rw [hat] at hl
        rw [bind_apply_of_ok _ hl]
        exact ⟨l, rfl⟩
      | error f =>
        rw [hat] at hl
        rw [bind_apply_of_error _ hl]
        exact ⟨w.log, rfl⟩
    | null =>
      have hr : w.resolved? r = .ok .null := by rw [resolved?, hp, hs]
      have hasks : w.requests ++ asks w r = w.requests := by rw [asks, hp, hs, List.append_nil]
      rw [hr]
      refine ⟨w.log, ?_⟩
      dsimp only
      rw [hasks]
      rfl
    | _ =>
      have hr : w.resolved? r = .error (.host .attribute) := by rw [resolved?, hp, hs]
      have hasks : asks w r = [⟨r, none⟩] := by rw [asks, hp, hs]
      rw [hr, hasks]
      exact ⟨w.log, rfl⟩

theorem findPrototype_of_resolved {r : Ref .view} {w : World} {p : Value} (h : w.resolved? r = .ok p) :
    ∃ w', w.Grows w' ∧ findPrototype r w = .ok p w' := by
  obtain ⟨l, hp⟩ := findPrototype_eq r w
  rw [h] at hp
  refine ⟨_, ?_, hp⟩
  exact (grows_set_prototype w h).trans (grows_of_eq rfl rfl rfl rfl rfl rfl rfl)

theorem findPrototype_of_failed {r : Ref .view} {w : World} {f : Fault} (h : w.resolved? r = .error f) :
    ∃ l, findPrototype r w = .error f { w with requests := w.requests ++ asks w r, log := l } := by
  obtain ⟨l, hp⟩ := findPrototype_eq r w
  rw [h] at hp
  exact ⟨l, hp⟩

theorem findPrototype_settled {r : Ref .view} {w : World} {p : Value} (hr : w.views.Has r)
    (h : w.resolved? r = .ok p) :
    ∃ w', findPrototype r w = .ok p w' ∧ w'.records = w.records ∧ findPrototype r w' = .ok p w' := by
  obtain ⟨l, hp⟩ := findPrototype_eq r w
  rw [h] at hp
  refine ⟨_, hp, rfl, ?_⟩
  rw [findPrototype, look_bind_apply]
  dsimp only
  rw [Store.get_set_self _ _ hr]
  rfl

theorem grows_findPrototype (r : Ref .view) : Keeps Grows (findPrototype r) := by
  intro w
  cases hr : w.resolved? r with
  | ok p =>
    obtain ⟨w', hw', hp⟩ := findPrototype_of_resolved hr
    rwa [after_of_ok hp]
  | error f =>
    obtain ⟨l, hp⟩ := findPrototype_of_failed hr
    rw [after_of_error hp]
    exact grows_of_eq rfl rfl rfl rfl rfl rfl rfl

end View

theorem grows_parts : KeepsParts Grows where
  newTuple := grows_newTuple
  newFunction := grows_newFunction
  present := Presenter.grows_present
  findPrototype := View.grows_findPrototype

namespace World

/-- A finite graph of objects: records, boxes and views that are there, linked by the prototype
entries of the records and the prototypes that the views find. -/
structure IsGraph (w : World) (G : Value → Prop) : Prop where
  kind : ∀ v, G v → (∃ r, v = .record r) ∨ (∃ q, v = .view q) ∨ ∃ b, v = .box b
  record : ∀ r, G (.record r) → w.records.Has r ∧
    ((w.records.get r).getD protoKey .null = .null ∨ G ((w.records.get r).getD protoKey .null))
  view : ∀ q, G (.view q) → w.views.Has q ∧ w.Rooted q ∧
    ∃ p, w.resolved? q = .ok p ∧ (p = .null ∨ G p)
  box : ∀ b, G (.box b) → w.boxes.Has b ∧ w.Live (w.boxes.get b).value

section

variable {w w' : World} {G : Value → Prop}

theorem length_visited_le {s : Species} {n : Nat} {visited : List (Ref s)} (hn : visited.Nodup)
    (hv : ∀ r ∈ visited, r.index < n) : visited.length ≤ n := by
  have hmap : (visited.map Ref.index).Nodup := hn.map fun r s h => congrArg Ref.mk h
  have hsub : visited.map Ref.index ⊆ List.range n := by
    intro i hi
    obtain ⟨r, hr, rfl⟩ := List.mem_map.mp hi
    exact List.mem_range.mpr (hv r hr)
  have hle := (hmap.subperm hsub).length_le
  rwa [List.length_map, List.length_range] at hle

/-- A walk within a graph goes the same way in a world that has grown, given fuel enough. -/
theorem IsGraph.walkFrom (h : w.IsGraph G) (hw : w.Grows w') {key : String} {fuel fuel' : Nat}
    {visited : List (Ref .record)} {v : Value} (hn : visited.Nodup)
    (hv : ∀ r ∈ visited, w.records.Has r) (hg : v = .null ∨ G v)
    (hf : w.records.size + 1 < fuel + visited.length)
    (hf' : w.records.size + 1 < fuel' + visited.length) :
    w'.walkFrom key fuel' visited v = w.walkFrom key fuel visited v := by
  induction fuel generalizing fuel' visited v with
  | zero =>
    have hlen : visited.length ≤ w.records.size := length_visited_le hn hv
    omega
  | succ fuel ih =>
    have hlen : visited.length ≤ w.records.size := length_visited_le hn hv
    obtain ⟨fuel', rfl⟩ : ∃ k, fuel' = k + 1 := Nat.exists_eq_succ_of_ne_zero (by omega)
    rcases hg with rfl | hg
    · rfl
    · rcases h.kind v hg with ⟨r, rfl⟩ | ⟨q, rfl⟩ | ⟨b, rfl⟩
      · obtain ⟨hhas, hproto⟩ := h.record r hg
        rw [World.walkFrom, World.walkFrom, (hw.record r hhas).2]
        by_cases hmem : r ∈ visited
        · rw [if_pos hmem, if_pos hmem]
        · rw [if_neg hmem, if_neg hmem]
          cases (w.records.get r).get? key with
          | some x => rfl
          | none =>
            have hnodup : (r :: visited).Nodup := List.nodup_cons.mpr ⟨hmem, hn⟩
            have hall : ∀ s ∈ r :: visited, w.records.Has s := by
              intro s hs
              rcases List.mem_cons.mp hs with rfl | hs
              · exact hhas
              · exact hv s hs
            exact ih hnodup hall hproto (by rw [List.length_cons]; omega)
              (by rw [List.length_cons]; omega)
      · rfl
      · rfl

theorem IsGraph.walk (h : w.IsGraph G) (hw : w.Grows w') {v : Value} (hg : v = .null ∨ G v)
    (key : String) : w'.walk key v = w.walk key v := by
  have hsize : w.records.size ≤ w'.records.size := by
    by_contra hlt
    have hlast : w.records.Has w'.records.next := Nat.lt_of_not_le hlt
    exact w'.records.ne_next_of_has (hw.record _ hlast).1 rfl
  refine h.walkFrom hw List.nodup_nil (fun r hr => absurd hr List.not_mem_nil) hg ?_ ?_
  · rw [List.length_nil]
    omega
  · rw [List.length_nil]
    omega

theorem IsGraph.beyond (h : w.IsGraph G) {key : String} {fuel : Nat} {visited : List (Ref .record)}
    {v x : Value} (hg : v = .null ∨ G v) (hx : w.walkFrom key fuel visited v = .beyond x) :
    G x ∧ ((∃ q, x = .view q) ∨ ∃ b, x = .box b) := by
  induction fuel generalizing visited v with
  | zero => cases hx
  | succ fuel ih =>
    rcases hg with rfl | hg
    · cases hx
    · rcases h.kind v hg with ⟨r, rfl⟩ | ⟨q, rfl⟩ | ⟨b, rfl⟩
      · obtain ⟨-, hproto⟩ := h.record r hg
        rw [World.walkFrom] at hx
        split at hx
        · cases hx
        · split at hx
          · cases hx
          · exact ih hproto hx
      · cases hx
        exact ⟨hg, .inl ⟨q, rfl⟩⟩
      · cases hx
        exact ⟨hg, .inr ⟨b, rfl⟩⟩

end
end World

end ScriptedArrays
