import ScriptedArrays.Proofs.Presence
import ScriptedArrays.Proofs.Writes

/-! Calls of members. A member that a view has itself is read as it is, and any other one is read
as the entry of the prototype that the array constructor of the scope offers. What is read is then
called with the view as its receiver. -/

namespace ScriptedArrays

open World

/-- The array constructor that the outermost scope binds has a method on its prototype. -/
structure World.Offers (w : World) (s : Ref .scope) (m : ArrayMethod) (c g : Ref .function)
    (prototype : Ref .record) : Prop where
  bound : w.constructor? s = .ok (.function c)
  hasConstructor : w.functions.Has c
  plainConstructor : (w.functions.get c).isBare = false
  entry : (w.records.get (w.functions.get c).prototype).get? m.name = some (.function g)
  hasMethod : w.functions.Has g
  plainMethod : (w.functions.get g).isBare = false
  body : (w.functions.get g).body = .arrayMethod m prototype

namespace World.Offers

variable {w w' : World} {s : Ref .scope} {m : ArrayMethod} {c g : Ref .function}
  {prototype : Ref .record}

theorem of_eq (h : w.Offers s m c g prototype) (hs : w'.scopes = w.scopes)
    (hr : w'.records = w.records) (hf : w'.functions = w.functions) :
    w'.Offers s m c g prototype where
  bound := by rw [constructor?_congr hs (fun r => by rw [hr]), h.bound]
  hasConstructor := by rw [hf]; exact h.hasConstructor
  plainConstructor := by rw [hf]; exact h.plainConstructor
  entry := by rw [hf, hr]; exact h.entry
  hasMethod := by rw [hf]; exact h.hasMethod
  plainMethod := by rw [hf]; exact h.plainMethod
  body := by rw [hf]; exact h.body

theorem prototypeAt (h : w.Offers s m c g prototype) :
    w.prototypeAt s = .ok (.record (w.functions.get c).prototype) := by
  have hmember : w.member? (.function c) "prototype" =
      some (.value (.record (w.functions.get c).prototype)) := by
    show HostMember.function? c (w.functions.get c) "prototype" = _
    rw [HostMember.function?, h.plainConstructor]
    rfl
  rw [World.prototypeAt, h.bound]
  show Except.ok (w.prototypeOf (.function c)) = _
  unfold prototypeOf
  dsimp only
  rw [hmember]

theorem resolved? (h : w.Offers s m c g prototype) {q : Ref .view}
    (hp : (w.views.get q).prototype = none) (hs : (w.views.get q).scope = .scope s) :
    w.resolved? q = .ok (.record (w.functions.get c).prototype) := by
  rw [resolved?_of_none hp hs]
  exact h.prototypeAt

theorem rooted (h : w.Offers s m c g prototype) {q : Ref .view}
    (hs : (w.views.get q).scope = .scope s) : w.Rooted q := by
  intro t d ht hd
  rw [hs] at ht
  cases ht
  rw [h.bound] at hd
  cases hd
  exact h.hasConstructor

end World.Offers

theorem View.hasOwn_method (w : World) (q : Ref .view) (m : ArrayMethod) :
    View.hasOwn w q m.name = false := by
  have hmember : w.member? (.array (w.views.get q).array) m.name = none := by
    cases m <;> rfl
  have hname : m.name ∉ viewMembers := by
    cases m <;> decide
  simp [View.hasOwn, World.exposes, hmember, hname]

theorem World.reads_of_grows {w w' : World} (hl : w.Leads w') (hg : w.Grows w') : w.Reads w' :=
  fun h => ⟨(hl h).1, (hl h).2, hg.buffers⟩

namespace Property

variable {w : World} {q : Ref .view} {name : String} {p : Ref .record} {x : Value}

theorem walk_of_entry (h : (w.records.get p).get? name = some x) :
    w.walk name (.record p) = .found x := by
  rw [World.walk, World.walkFrom]
  simp only [List.not_mem_nil, if_false, h]

theorem read_of_own {u : World} (hown : ∀ has, View.ownBy has q name w = .ok x u) (hm : x ≠ .missing) :
    read (.view q) name w = .ok x u := by
  rw [read, get_bind_apply, nesting, readTo_view, bind_apply_of_ok _ (hown _)]
  cases x with
  | missing => exact absurd rfl hm
  | _ => rfl

/-- A view without the member is read as the entry of its prototype. -/
theorem read_of_prototype (hq : w.views.Has q) (hroot : w.Rooted q)
    (hown : View.hasOwn w q name = false) (hp : w.resolved? q = .ok (.record p))
    (hn : name ≠ "constructor") (hx : (w.records.get p).get? name = some x) (hm : x ≠ .missing) :
    ∃ w', w.Grows w' ∧ read (.view q) name w = .ok x w' := by
  obtain ⟨u, hu, hfound⟩ := View.findPrototype_of_resolved hp
  obtain ⟨w', hw', hfound'⟩ := View.findPrototype_of_resolved ((hu.resolved? hq hroot).trans hp)
  have hwalk : ∀ {v : World}, w.Grows v → v.walk name (.record p) = .found x := fun hv =>
    walk_of_entry (by rw [hv.entry p name hn, hx])
  have hhas : hasTo (2 * max w.views.size w.handed.length + 1) (.record p) name u = .ok true u := by
    rw [hasTo, get_bind_apply, hwalk hu]
    show EStateM.Result.ok (x != .missing) u = _
    rw [bne_iff_ne.mpr hm]
  have hmissing : View.ownBy (hasTo (2 * max w.views.size w.handed.length + 1)) q name w = .ok .missing u := by
    rw [View.ownBy_of_not_hasOwn _ hown, bind_apply_of_ok _ hfound, bind_apply_of_ok _ hhas]
    rfl
  refine ⟨w', hu.trans hw', ?_⟩
  rw [read, get_bind_apply, nesting, readTo_view, bind_apply_of_ok _ hmissing]
  dsimp only
  rw [bind_apply_of_ok _ hfound', along, get_bind_apply, hwalk (hu.trans hw')]
  show EStateM.Result.ok (orUndefined x) w' = _
  rw [orUndefined_of_ne hm]

end Property

theorem callMethod_of_read {v : Value} {name : String} {args : List Value} {f : Ref .function}
    {w u : World} (hread : Property.read v name w = .ok (.function f) u)
    (hf : (u.functions.get f).isBare = false) :
    callMethod v name args w = callTo callNesting f v args u := by
  rw [callMethod, bind_apply_of_ok _ hread, callWith, look_bind_apply, hf]
  rfl

def World.boundHost (w : World) (q : Ref .view) (name : String) : World :=
  let view := w.views.get q
  let body := Body.hostMethod (.array view.array) name view.presenter view.scope
  { w with
    functions := w.functions.push ⟨some name, body, w.records.next, none⟩
    records := w.records.push [("constructor", .function w.functions.next)] }

theorem callMethod_host {w : World} {q : Ref .view} {name : String}
    (hmember : ∀ a, w.member? (.array a) name = some .method)
    (hown : View.hasOwn w q name = true) (hname : name ∉ viewMembers) (args : List Value) :
    callMethod (.view q) name args w =
      (BoundMethod.run (callTo 63) (.array (w.views.get q).array) name
          (args.map (w.boundHost q name).hostValue) >>= fun answer =>
        Presenter.present (w.views.get q).presenter answer (w.views.get q).scope)
      (w.boundHost q name) := by
  have hread : Property.read (.view q) name w = .ok (.function w.functions.next) (w.boundHost q name) := by
    refine Property.read_of_own (fun has => ?_) Value.noConfusion
    rw [View.ownBy_of_exposed has hown hname, presentMember, get_bind_apply, hmember]
    rfl
  have hfunction : (w.boundHost q name).functions.get w.functions.next = ⟨some name,
      .hostMethod (.array (w.views.get q).array) name (w.views.get q).presenter (w.views.get q).scope,
      w.records.next, none⟩ :=
    Store.get_push_next _ _
  rw [callMethod_of_read hread (by rw [hfunction]; rfl), callNesting, callTo, look_bind_apply,
    hfunction]
  rfl

theorem View.read_length {w : World} (h : w.Sound) {q : Ref .view} (hq : w.views.Has q) :
    ∃ x, Property.read (.view q) "length" w = .ok x w ∧ x.content = .int (w.shown q).length := by
  obtain ⟨hcontent, -, hm⟩ := heldBy_int (w.shown q).length (.view q) "length"
  refine ⟨_, Property.read_of_own (fun has => ?_) hm, hcontent⟩
  rw [← h.length_shown hq]
  rfl

end ScriptedArrays
