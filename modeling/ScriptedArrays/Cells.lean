import ScriptedArrays.World

/-! The cells of windows. Writing a window replaces its cells and nothing else: it reads
back what was written, and windows on other cells read what they read before. -/

namespace ScriptedArrays
namespace World

/-- The cells of a window in row-major order. -/
def cells (w : World) (win : Window) : List Value :=
  ((w.buffers.get win.buffer).extract win.start (win.start + win.size)).toList

def cell (w : World) (win : Window) (i : Nat) : Value :=
  (w.buffers.get win.buffer)[win.start + i]?.getD .undefined

/-- Overwrite the cells from a position on. -/
def overwrite (cells : Array Value) (start : Nat) : List Value → Array Value
  | [] => cells
  | v :: vs => overwrite (cells.setIfInBounds start v) (start + 1) vs

@[simp] theorem size_overwrite (cells : Array Value) (start : Nat) (vs : List Value) :
    (overwrite cells start vs).size = cells.size := by
  induction vs generalizing cells start with
  | nil => rfl
  | cons v vs ih => simp [overwrite, ih]

/-- Exactly the positions from `start` on are overwritten, one for each value. -/
theorem getElem?_overwrite (cells : Array Value) (start : Nat) (vs : List Value) (i : Nat) :
    (overwrite cells start vs)[i]? =
      if start ≤ i ∧ i < start + vs.length ∧ i < cells.size then vs[i - start]? else cells[i]? := by
  induction vs generalizing cells start with
  | nil =>
    rw [if_neg (by simp only [List.length_nil]; omega)]
    rfl
  | cons v vs ih =>
    rw [overwrite, ih, Array.size_setIfInBounds, List.length_cons]
    by_cases hs : i = start
    · subst hs
      by_cases hb : i < cells.size
      · rw [if_neg (by omega), if_pos (by omega)]
        simp [hb]
      · rw [if_neg (by omega), if_neg (by omega)]
        simp [hb]
    · by_cases h : start + 1 ≤ i ∧ i < start + 1 + vs.length ∧ i < cells.size
      · obtain ⟨k, rfl⟩ : ∃ k, i = start + 1 + k := ⟨i - (start + 1), by omega⟩
        rw [if_pos h, if_pos (by omega)]
        have : start + 1 + k - start = k + 1 := by omega
        simp [this]
      · rw [if_neg h, if_neg (by omega)]
        simp [Ne.symm hs]

/-- Write the cells of a window. -/
def setCells (w : World) (win : Window) (vs : List Value) : World :=
  let cells := overwrite (w.buffers.get win.buffer) win.start (vs.take win.size)
  { w with buffers := w.buffers.set win.buffer cells }

/-- The window lies within the cells of its buffer. -/
def Encloses (w : World) (win : Window) : Prop :=
  w.buffers.Has win.buffer ∧ win.start + win.size ≤ (w.buffers.get win.buffer).size

theorem length_cells {w : World} {win : Window} (h : w.Encloses win) :
    (w.cells win).length = win.size := by
  have := h.2
  simp only [cells, Array.length_toList, Array.size_extract]
  omega

theorem getElem?_cells {w : World} {win : Window} (h : w.Encloses win) {i : Nat} (hi : i < win.size) :
    (w.cells win)[i]? = (w.buffers.get win.buffer)[win.start + i]? := by
  have := h.2
  rw [cells, Array.getElem?_toList, Array.getElem?_extract, if_pos (by omega)]

/-- A written window reads back what was written. -/
theorem cells_setCells_self {w : World} {win : Window} {vs : List Value} (h : w.Encloses win)
    (hv : vs.length = win.size) : (w.setCells win vs).cells win = vs := by
  have hb : (w.setCells win vs).buffers.get win.buffer =
      overwrite (w.buffers.get win.buffer) win.start (vs.take win.size) :=
    Store.get_set_self _ _ h.1
  have hw : (w.setCells win vs).Encloses win := by
    refine ⟨(Store.has_set _ _ _ _).mpr h.1, ?_⟩
    rw [hb, size_overwrite]
    exact h.2
  apply List.ext_getElem?
  intro i
  by_cases hi : i < win.size
  · have := h.2
    rw [getElem?_cells hw hi, hb, getElem?_overwrite, List.take_of_length_le (by omega),
      if_pos (by omega)]
    congr 1
    omega
  · rw [List.getElem?_eq_none (by rw [length_cells hw]; omega),
      List.getElem?_eq_none (by omega)]

end World
end ScriptedArrays
