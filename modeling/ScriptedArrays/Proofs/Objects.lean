import ScriptedArrays.HostMethod
import ScriptedArrays.Proofs.Sound

/-! New objects. Making an object leaves those that there are as they were, so a sound world
stays sound as long as the cells of new arrays are admitted by their type. -/

namespace ScriptedArrays

open World

theorem content_of_not_isObject {v : Value} (h : v.isObject = false) : v.content = v := by
  cases v <;> first | rfl | cases h

theorem keep_eq (v : Value) (w : World) : ∃ x n, keep v w = .ok x { w with kept := n } ∧
    x.content = v.content ∧ (v.isObject = true → x = v) := by
  by_cases h : v.isObject = true
  · refine ⟨v, w.kept, ?_, rfl, fun _ => rfl⟩
    simp only [keep, modifyGet, MonadStateOf.modifyGet, EStateM.modifyGet, if_pos h]
  · refine ⟨.kept w.kept v, w.kept + 1, ?_, ?_, fun h' => absurd h' h⟩
    · simp only [keep, modifyGet, MonadStateOf.modifyGet, EStateM.modifyGet, if_neg h]
    · show v = v.content
      exact (content_of_not_isObject (by simpa using h)).symm

theorem mapM_keep_eq (vs : List Value) (w : World) : ∃ xs n, vs.mapM keep w = .ok xs { w with kept := n } ∧
    xs.map Value.content = vs.map Value.content := by
  induction vs generalizing w with
  | nil => exact ⟨[], w.kept, rfl, rfl⟩
  | cons v vs ih =>
    obtain ⟨x, n, hx, hxc, -⟩ := keep_eq v w
    obtain ⟨xs, m, hxs, hxsc⟩ := ih { w with kept := n }
    refine ⟨x :: xs, m, ?_, by rw [List.map_cons, List.map_cons, hxc, hxsc]⟩
    rw [List.mapM_cons, bind_apply_of_ok _ hx, bind_apply_of_ok _ hxs]
    rfl

namespace World

structure Spares (w w' : World) : Prop where
  views : w'.views = w.views
  presenters : w'.presenters = w.presenters
  requests : w'.requests = w.requests
  address : w'.address = w.address
  handed : w'.handed = w.handed
  one : w'.one = w.one

structure Plain (w w' : World) : Prop extends Spares w w' where
  arrays : w'.arrays = w.arrays
  buffers : w'.buffers = w.buffers

instance : IsPreorder World Spares where
  refl _ := ⟨rfl, rfl, rfl, rfl, rfl, rfl⟩
  trans _ _ _ h h' := ⟨h'.views.trans h.views, h'.presenters.trans h.presenters,
    h'.requests.trans h.requests, h'.address.trans h.address, h'.handed.trans h.handed,
    h'.one.trans h.one⟩

theorem plain_of_eq {w w' : World} (ha : w'.arrays = w.arrays) (hb : w'.buffers = w.buffers)
    (hv : w'.views = w.views) (hp : w'.presenters = w.presenters) (hr : w'.requests = w.requests)
    (hd : w'.address = w.address) (hh : w'.handed = w.handed) (ho : w'.one = w.one) : w.Plain w' :=
  ⟨⟨hv, hp, hr, hd, hh, ho⟩, ha, hb⟩

class Tolerant (R : World → World → Prop) : Prop where
  plain : ∀ {w w' : World}, w.Plain w' → R w w'

instance : Tolerant Leads := ⟨fun h => leads_of_eq h.arrays h.buffers h.views h.presenters⟩

instance : Tolerant Spares := ⟨Plain.toSpares⟩

end World

section

variable {R : World → World → Prop} [IsPreorder World R] [Tolerant R]

theorem logEvent_of_le {e : Event} {w : World} (h : w.threshold ≤ e.severity.number) :
    logEvent e w = .ok () { w with log := w.log.push e } := by
  simp only [logEvent, modify, modifyGet, MonadStateOf.modifyGet, EStateM.modifyGet, if_pos h]

theorem logEvent_of_not_le {e : Event} {w : World} (h : ¬ w.threshold ≤ e.severity.number) :
    logEvent e w = .ok () w := by
  simp only [logEvent, modify, modifyGet, MonadStateOf.modifyGet, EStateM.modifyGet, if_neg h]

theorem logEvent_eq (e : Event) (w : World) : ∃ l, logEvent e w = .ok () { w with log := l } := by
  by_cases h : w.threshold ≤ e.severity.number
  · exact ⟨_, logEvent_of_le h⟩
  · exact ⟨w.log, logEvent_of_not_le h⟩

omit [IsPreorder World R] in
theorem keeps_logEvent (e : Event) : Keeps R (logEvent e) := by
  intro w
  obtain ⟨l, hl⟩ := logEvent_eq e w
  rw [after_of_ok hl]
  exact Tolerant.plain (plain_of_eq rfl rfl rfl rfl rfl rfl rfl rfl)

omit [IsPreorder World R] in
theorem keeps_keep (v : Value) : Keeps R (keep v) := by
  intro w
  obtain ⟨x, n, hx, -⟩ := keep_eq v w
  rw [after_of_ok hx]
  exact Tolerant.plain (plain_of_eq rfl rfl rfl rfl rfl rfl rfl rfl)

theorem keeps_keepEntries (e : Entries) : Keeps R (keepEntries e) :=
  .mapM _ fun p _ => (keeps_keep p.2).bind fun _ => .pure _

theorem holding_of_ok {α : Type} {vs : List Value} {act : Action α} {w u : World} {a : α}
    (h : act { w with inUse := vs ++ w.inUse } = .ok a u) :
    holding vs act w = .ok a { u with inUse := w.inUse } := by
  show (act >>= fun a => modify (fun v => { v with inUse := w.inUse }) >>= fun _ => pure a)
    { w with inUse := vs ++ w.inUse } = _
  rw [bind_apply_of_ok _ h]
  rfl

theorem holding_of_error {α : Type} {vs : List Value} {act : Action α} {w u : World} {f : Fault}
    (h : act { w with inUse := vs ++ w.inUse } = .error f u) : holding vs act w = .error f u := by
  show (act >>= fun a => modify (fun v => { v with inUse := w.inUse }) >>= fun _ => pure a)
    { w with inUse := vs ++ w.inUse } = _
  rw [bind_apply_of_error _ h]

theorem keeps_holding {α : Type} (vs : List Value) {act : Action α} (h : Keeps R act) :
    Keeps R (holding vs act) := by
  simp only [holding]
  refine .bind .get fun _ => .bind (.modify fun w => Tolerant.plain (plain_of_eq rfl rfl rfl rfl rfl rfl rfl rfl)) fun _ => ?_
  exact .bind h fun _ => .bind (.modify fun w => Tolerant.plain (plain_of_eq rfl rfl rfl rfl rfl rfl rfl rfl)) fun _ => .pure _

theorem keeps_newList (vs : List Value) : Keeps R (newList vs) :=
  .bind (.mapM _ fun v _ => keeps_keep v) fun _ => .modifyGet fun _ => Tolerant.plain (plain_of_eq rfl rfl rfl rfl rfl rfl rfl rfl)

theorem keeps_newTuple (vs : List Value) : Keeps R (newTuple vs) := by
  simp only [newTuple]
  refine .ite (.pure _) ?_
  exact .bind (.mapM _ fun v _ => keeps_keep v) fun _ =>
    .modifyGet fun _ => Tolerant.plain (plain_of_eq rfl rfl rfl rfl rfl rfl rfl rfl)

theorem keeps_newRecord (e : Entries) : Keeps R (newRecord e) :=
  .bind (keeps_keepEntries e) fun _ => .modifyGet fun _ => Tolerant.plain (plain_of_eq rfl rfl rfl rfl rfl rfl rfl rfl)

theorem keeps_newScope (parent : Option (Ref .scope)) : Keeps R (newScope parent) :=
  .bind (keeps_newRecord []) fun _ => .modifyGet fun _ => Tolerant.plain (plain_of_eq rfl rfl rfl rfl rfl rfl rfl rfl)

omit [IsPreorder World R] in
theorem keeps_setRecord (r : Ref .record) (e : Entries) : Keeps R (setRecord r e) :=
  .modify fun _ => Tolerant.plain (plain_of_eq rfl rfl rfl rfl rfl rfl rfl rfl)

theorem keeps_setEntry (r : Ref .record) (key : String) (v : Value) :
    Keeps R (setEntry r key v) :=
  .bind (keeps_keep v) fun _ => .bind .get fun _ => keeps_setRecord _ _

omit [IsPreorder World R] in
theorem keeps_setScope (r : Ref .scope) (s : Scope) : Keeps R (setScope r s) :=
  .modify fun _ => Tolerant.plain (plain_of_eq rfl rfl rfl rfl rfl rfl rfl rfl)

omit [IsPreorder World R] in
theorem keeps_newFunction (name : Option String) (body : Body) (receiver : Option Value) :
    Keeps R (newFunction name body receiver) :=
  .modifyGet fun _ => Tolerant.plain (plain_of_eq rfl rfl rfl rfl rfl rfl rfl rfl)

theorem keeps_newBox (scope value : Value) (presenter : Ref .presenter)
    (exposed : Option (List String)) : Keeps R (newBox scope value presenter exposed) :=
  .bind (keeps_keep value) fun _ => .modifyGet fun _ => Tolerant.plain (plain_of_eq rfl rfl rfl rfl rfl rfl rfl rfl)

end

theorem leads_newPresenter (s : Settings) : Keeps Leads (newPresenter s) := by
  refine .modifyGet fun w h => ?_
  refine h.with_presenters fun p known hk e he => ?_
  by_cases hp : p = w.presenters.next
  · rw [hp, Store.get_push_next] at hk
    simp only at hk
    split at hk
    · cases hk
      exact absurd he List.not_mem_nil
    · cases hk
  · rw [Store.get_push_of_ne _ _ hp] at hk
    exact h.known p known hk e he

theorem newArray_eq (type : CellType) (shape : List Nat) (cells : List Value) (w : World) :
    ∃ vs n, newArray type shape cells w = .ok w.arrays.next
        { w with
          buffers := w.buffers.push vs.toArray
          arrays := w.arrays.push ⟨type, w.buffers.next, 0, shape⟩
          kept := n } ∧
      vs.map Value.content = (type.filled (cellCount shape) cells).map Value.content ∧
      (type.isObject = false → vs = type.filled (cellCount shape) cells) := by
  by_cases ho : type.isObject = true
  · obtain ⟨vs, n, hvs, hc⟩ := mapM_keep_eq (type.filled (cellCount shape) cells) w
    refine ⟨vs, n, ?_, hc, fun h => by rw [ho] at h; cases h⟩
    simp only [newArray]
    simp only [if_pos ho]
    rw [bind_apply_of_ok _ hvs]
    rfl
  · refine ⟨type.filled (cellCount shape) cells, w.kept, ?_, rfl, fun _ => rfl⟩
    simp only [newArray]
    simp only [if_neg ho]
    rfl

theorem accepts_filled {type : CellType} {count : Nat} {cells : List Value}
    (h : ∀ v ∈ cells, type.content.Admits v) : ∀ v ∈ type.filled count cells, type.Accepts v := by
  intro v hv
  rcases List.mem_append.mp hv with hv | hv
  · obtain ⟨x, hx, rfl⟩ := List.mem_map.mp hv
    exact CellType.accepts_held (h x hx)
  · rw [List.eq_of_mem_replicate hv]
    exact type.accepts_zero

/-- Making an array adds it and its buffer to a sound world. -/
theorem newArray_spec {w : World} (h : w.Sound) {type : CellType} (shape : List Nat)
    {cells : List Value} (ht : type.IsRegular) (hc : ∀ v ∈ cells, type.content.Admits v) :
    ∃ w', newArray type shape cells w = .ok w.arrays.next w' ∧ w'.Sound ∧ w.Extends w' ∧
      w'.arrays.Has w.arrays.next ∧
      w'.arrays.get w.arrays.next = ⟨type, w.buffers.next, 0, shape⟩ ∧
      (∀ b, w.buffers.Has b → w'.buffers.get b = w.buffers.get b) ∧
      (cells.length = cellCount shape →
        (w'.cells ⟨type, w.buffers.next, 0, shape⟩).map Value.content =
          (cells.map type.held).map Value.content) ∧
      w'.views = w.views ∧ w'.presenters = w.presenters ∧ w'.log = w.log := by
  obtain ⟨vs, n, hw, hcontent, hplain⟩ := newArray_eq type shape cells w
  have haccept : ∀ v ∈ vs, type.Accepts v := by
    by_cases ho : type.isObject = true
    · exact fun v _ => CellType.accepts_object (by simpa [CellType.isObject] using ho) v
    · rw [hplain (by simpa using ho)]
      exact accepts_filled hc
  have hlen : cellCount shape ≤ vs.length := by
    have hl := congrArg List.length hcontent
    rw [List.length_map, List.length_map] at hl
    rw [hl]
    exact type.le_length_filled _ _
  obtain ⟨hs₁, he₁⟩ := h.push_buffer vs.toArray
  have hencloses : World.Encloses { w with buffers := w.buffers.push vs.toArray }
      ⟨type, w.buffers.next, 0, shape⟩ := by
    refine ⟨Store.has_push_next _ _, ?_⟩
    rw [Store.get_push_next, List.size_toArray, Nat.zero_add]
    exact hlen
  obtain ⟨hs₂, he₂⟩ := hs₁.push_array hencloses ht
    (by
      intro v hv
      rw [Store.get_push_next, List.mem_toArray] at hv
      exact haccept v hv)
    (fun r hr => absurd hr (w.buffers.ne_next_of_has (h.hasBuffer r)))
  have hkept : Leads
      { w with
        buffers := w.buffers.push vs.toArray
        arrays := w.arrays.push ⟨type, w.buffers.next, 0, shape⟩ }
      { w with
        buffers := w.buffers.push vs.toArray
        arrays := w.arrays.push ⟨type, w.buffers.next, 0, shape⟩
        kept := n } := leads_of_eq rfl rfl rfl rfl
  obtain ⟨hs₃, he₃⟩ := hkept hs₂
  refine ⟨_, hw, hs₃, (he₁.trans he₂).trans he₃, Store.has_push_next _ _, Store.get_push_next _ _,
    fun b hb => Store.get_push_of_ne _ _ (w.buffers.ne_next_of_has hb), ?_, rfl, rfl, rfl⟩
  intro hl
  rw [CellType.filled_of_length hl] at hcontent
  have hsize : cellCount shape = vs.toArray.size := by
    have hvs := congrArg List.length hcontent
    simp only [List.length_map] at hvs
    rw [List.size_toArray, hvs, hl]
  simp only [World.cells, Store.get_push_next, Window.size]
  rw [Nat.zero_add, hsize, Array.extract_size, hcontent]

theorem spares_newArray (type : CellType) (shape : List Nat) (cells : List Value) :
    Keeps Spares (newArray type shape cells) := by
  intro w
  obtain ⟨vs, n, hw, -⟩ := newArray_eq type shape cells w
  rw [after_of_ok hw]
  exact ⟨rfl, rfl, rfl, rfl, rfl, rfl⟩

theorem leads_newArray {type : CellType} (shape : List Nat) {cells : List Value}
    (ht : type.IsRegular) (hc : ∀ v ∈ cells, type.content.Admits v) :
    Keeps Leads (newArray type shape cells) := by
  intro w h
  obtain ⟨w', hw, hs, he, -⟩ := newArray_spec h shape ht hc
  rw [after_of_ok hw]
  exact ⟨hs, he⟩

end ScriptedArrays
