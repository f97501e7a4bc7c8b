import ScriptedArrays.Proofs.Members
import ScriptedArrays.Proofs.SlotCopies

/-! Lasting values. An action that only adds objects leaves what there was as it is. So values stand
for the same and have the same numbers afterwards, as long as nothing refers to an object that there
is not. -/

namespace ScriptedArrays

open World

theorem Store.forall_get {s : Species} {α : Type} [Inhabited α] {p : α → Prop} {st : Store s α}
    (hd : p default) (h : ∀ a ∈ st.items, p a) (r : Ref s) : p (st.get r) := by
  rw [Store.get]
  cases hr : st.items[r.index]? with
  | none => exact hd
  | some a => exact h a (Array.mem_of_getElem? hr)

def Value.rank : Value → Nat
  | .box b => b.index + 1
  | _ => 0

namespace World

/-- A sound world is followed by a sound one with the same cells, in which every view, box, list,
tuple, record and function is what it was, and no list, tuple or function is added. -/
structure Preserves (w w' : World) : Prop extends w.Retains w' where
  record : ∀ r, w.records.Has r → w'.records.Has r ∧ w'.records.get r = w.records.get r
  view : ∀ q, w.views.Has q → w'.views.Has q ∧ w'.views.get q = w.views.get q
  lists : w'.lists = w.lists
  tuples : w'.tuples = w.tuples
  functions : w'.functions = w.functions

instance : IsPreorder World Preserves where
  refl w := ⟨refl_of Retains w, fun _ hr => ⟨hr, rfl⟩, fun _ hq => ⟨hq, rfl⟩, rfl, rfl, rfl⟩
  trans _ _ _ h h' := {
    toRetains := trans_of Retains h.toRetains h'.toRetains
    record := fun r hr =>
      have hv := h.record r hr
      ⟨(h'.record r hv.1).1, (h'.record r hv.1).2.trans hv.2⟩
    view := fun q hq =>
      have hv := h.view q hq
      ⟨(h'.view q hv.1).1, (h'.view q hv.1).2.trans hv.2⟩
    lists := h'.lists.trans h.lists
    tuples := h'.tuples.trans h.tuples
    functions := h'.functions.trans h.functions }

/-- What the value refers to is there. -/
def backs (w : World) (v : Value) : Bool :=
  match v.opened.content with
  | .array r => w.arrays.Has r
  | .record r => w.records.Has r
  | .view q => w.views.Has q
  | .box b => w.boxes.Has b
  | _ => true

/-- No reference dangles: cells, boxes, records, lists and tuples refer only to what is there, and a
box holds no box but an older one. -/
structure Closed (w : World) : Prop where
  cell : ∀ cells ∈ w.buffers.items, ∀ v ∈ cells, w.backs v = true
  box : ∀ b ∈ w.boxes.items, w.backs b.value = true
  entry : ∀ e ∈ w.records.items, ∀ p ∈ e, w.backs p.2 = true
  list : ∀ vs ∈ w.lists.items, ∀ v ∈ vs, w.backs v = true
  tuple : ∀ vs ∈ w.tuples.items, ∀ v ∈ vs, w.backs v = true
  older : ∀ i < w.boxes.size, (w.boxes.get ⟨i⟩).value.rank ≤ i

section

variable {w w' : World} {v c : Value}

theorem has_of_backs {r : Ref .array} (hv : w.backs v = true) (hr : v.opened.content = .array r) :
    w.arrays.Has r := by
  rw [backs, hr] at hv
  exact of_decide_eq_true hv

theorem has_of_plain {b : Ref .box} (hv : w.backs v = true) (hb : v.plain = .box b) :
    w.boxes.Has b := by
  have hopened : v.opened.content = .box b := by
    rw [Value.plain] at hb
    split at hb
    all_goals rename_i hc
    · rw [Value.opened, hc, hb]
      rfl
    · rw [Value.opened, hc, hb]
      rfl
    · rw [Value.opened, hc, hb]
      rfl
    · rw [Value.opened, hc, hb]
      rfl
    · rw [Value.opened, hb]
      exact hb
  rw [backs, hopened] at hv
  exact of_decide_eq_true hv

theorem opened_of_content {r : Ref .array} (hr : v.content = .array r) : v.opened = v := by
  rw [Value.opened, hr]

theorem Closed.backs_cell (h : w.Closed) (win : Window) (i : Nat) : w.backs (w.cell win i) = true := by
  have hcells := Store.forall_get (p := fun cells => ∀ v ∈ cells, w.backs v = true)
    (fun v hv => absurd hv (Array.not_mem_empty v)) h.cell win.buffer
  rw [World.cell]
  cases hv : (w.buffers.get win.buffer)[win.start + i]? with
  | none => rfl
  | some v => exact hcells v (Array.mem_of_getElem? hv)

theorem Closed.backs_box (h : w.Closed) (b : Ref .box) : w.backs (w.boxes.get b).value = true :=
  Store.forall_get (p := fun b : Box => w.backs b.value = true) rfl h.box b

theorem forall_getD {p : Value → Prop} (h : ∀ e ∈ w.records.items, ∀ q ∈ e, p q.2) (r : Ref .record)
    (name : String) {d : Value} (hd : p d) : p ((w.records.get r).getD name d) := by
  have hentries := Store.forall_get (p := fun e : Entries => ∀ q ∈ e, p q.2)
    (fun q hq => absurd hq List.not_mem_nil) h r
  rw [Entries.getD]
  cases hv : (w.records.get r).get? name with
  | none => exact hd
  | some v =>
    obtain ⟨q, hq, rfl⟩ := Option.map_eq_some_iff.mp hv
    exact hentries q (List.mem_of_find?_eq_some hq)

theorem Closed.backs_entry (h : w.Closed) (r : Ref .record) (name : String) {d : Value}
    (hd : w.backs d = true) : w.backs ((w.records.get r).getD name d) = true :=
  forall_getD (p := fun v => w.backs v = true) h.entry r name hd

theorem onlyCell?_eq_of_reads (h : w.Sound) (hw : w.Reads w') (hv : w.backs v = true) :
    w'.onlyCell? v = w.onlyCell? v := by
  obtain ⟨-, hext, hbuf⟩ := hw h
  rw [onlyCell?, onlyCell?]
  split
  · rename_i r hr
    rw [hext.array r (has_of_backs hv hr), World.cell, World.cell, hbuf]
  · rfl

theorem Closed.backs_onlyCell? (h : w.Closed) (hc : w.onlyCell? v = some c) : w.backs c = true := by
  obtain ⟨r, -, -, rfl⟩ := array_of_onlyCell? hc
  exact h.backs_cell _ _

theorem Closed.presentable_iff (hc : w.Closed) (h : w.Sound) (hw : w.Reads w') (hv : w.backs v = true) :
    w'.Presentable v ↔ w.Presentable v := by
  have hends : ∀ n, Ends w'.onlyCell? n v ↔ Ends w.onlyCell? n v := fun n =>
    Ends.congr (fun a ha => onlyCell?_eq_of_reads h hw ha) (fun a b _ hab => hc.backs_onlyCell? hab) hv
  simp only [Presentable, hends]

end
end World

end ScriptedArrays
