import ScriptedArrays.Value

/-! Stores of objects. An object is added at the end, so its reference is new, and it is
changed in place, so every other reference keeps its object. -/

namespace ScriptedArrays

structure Store (s : Species) (α : Type) where
  items : Array α

namespace Store

variable {s : Species} {α : Type}

def empty : Store s α := ⟨#[]⟩

def size (st : Store s α) : Nat := st.items.size

def get [Inhabited α] (st : Store s α) (r : Ref s) : α := st.items[r.index]?.getD default

def set (st : Store s α) (r : Ref s) (a : α) : Store s α := ⟨st.items.setIfInBounds r.index a⟩

/-- The reference of the next object. -/
def next (st : Store s α) : Ref s := ⟨st.items.size⟩

def push (st : Store s α) (a : α) : Store s α := ⟨st.items.push a⟩

/-- The reference denotes an object of the store. -/
def Has (st : Store s α) (r : Ref s) : Prop := r.index < st.items.size

instance (st : Store s α) (r : Ref s) : Decidable (st.Has r) :=
  inferInstanceAs (Decidable (_ < _))

@[simp] theorem get_push_next [Inhabited α] (st : Store s α) (a : α) :
    (st.push a).get st.next = a := by
  simp [get, push, next]

theorem get_push_of_ne [Inhabited α] (st : Store s α) (a : α) {r : Ref s} (h : r ≠ st.next) :
    (st.push a).get r = st.get r := by
  have hi : r.index ≠ st.items.size := by
    intro e
    apply h
    cases r
    simp_all [next]
  simp [get, push, Array.getElem?_push, hi]

@[simp] theorem has_push_next (st : Store s α) (a : α) : (st.push a).Has st.next := by
  simp [Has, push, next]

theorem has_push_of_has (st : Store s α) (a : α) {r : Ref s} (h : st.Has r) : (st.push a).Has r := by
  have h' : r.index < st.items.size := h
  simp only [Has, push, Array.size_push]
  omega

theorem has_push_iff (st : Store s α) (a : α) {r : Ref s} :
    (st.push a).Has r ↔ st.Has r ∨ r = st.next := by
  constructor
  · intro h
    have h' : r.index < st.items.size + 1 := by simpa only [Has, push, Array.size_push] using h
    rcases Nat.lt_or_eq_of_le (Nat.le_of_lt_succ h') with hl | he
    · exact .inl hl
    · right
      cases r
      exact congrArg Ref.mk he
  · rintro (h | rfl)
    · exact has_push_of_has st a h
    · exact has_push_next st a

theorem ne_next_of_has (st : Store s α) {r : Ref s} (h : st.Has r) : r ≠ st.next := by
  rintro rfl
  exact Nat.lt_irrefl _ h

/-- A reference to nothing reads as the default. -/
theorem get_of_not_has [Inhabited α] (st : Store s α) {r : Ref s} (h : ¬ st.Has r) :
    st.get r = default := by
  have h' : st.items.size ≤ r.index := Nat.le_of_not_lt h
  simp [get, h']

theorem get_set_self [Inhabited α] (st : Store s α) (a : α) {r : Ref s} (h : st.Has r) :
    (st.set r a).get r = a := by
  have h' : r.index < st.items.size := h
  simp [get, set, h']

theorem get_set_of_ne [Inhabited α] (st : Store s α) (a : α) {r r' : Ref s} (h : r' ≠ r) :
    (st.set r a).get r' = st.get r' := by
  have hi : r.index ≠ r'.index := by
    intro e
    apply h
    cases r; cases r'
    simp_all
  simp [get, set, hi]

@[simp] theorem set_get [Inhabited α] (st : Store s α) (r : Ref s) : st.set r (st.get r) = st := by
  obtain ⟨items⟩ := st
  by_cases h : r.index < items.size <;> simp [set, get, Array.setIfInBounds, h]

/-- Only an object that is there is changed. -/
theorem get_set [Inhabited α] (st : Store s α) (a : α) (r r' : Ref s) :
    (st.set r a).get r' = if r' = r ∧ st.Has r then a else st.get r' := by
  by_cases hr : r' = r
  · subst hr
    by_cases h : st.Has r'
    · rw [if_pos ⟨rfl, h⟩, get_set_self st a h]
    · rw [if_neg fun e => h e.2]
      have h' : st.items.size ≤ r'.index := Nat.le_of_not_lt h
      simp [get, set, h']
  · rw [if_neg fun e => hr e.1, get_set_of_ne st a hr]

@[simp] theorem has_set (st : Store s α) (a : α) (r r' : Ref s) : (st.set r a).Has r' ↔ st.Has r' := by
  simp [Has, set]

end Store
end ScriptedArrays
