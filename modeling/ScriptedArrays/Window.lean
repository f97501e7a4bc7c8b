import ScriptedArrays.Store

/-! Arrays as windows. The cells lie in a buffer in row-major order, and an array object
selects a run of them; the array of a row selects a part of that run, so arrays share cells
without copying. -/

namespace ScriptedArrays

/-- An array object: a row-major window on the cells of a buffer. -/
structure Window where
  type : CellType
  buffer : Ref .buffer
  start : Nat
  shape : List Nat
  deriving DecidableEq, Inhabited

namespace Window

/-- The number of cells. -/
def size (w : Window) : Nat := cellCount w.shape

def length (w : Window) : Nat := w.shape.headD 0

def rowShape (w : Window) : List Nat := w.shape.tail

def rowSize (w : Window) : Nat := cellCount w.rowShape

/-- The window on row `i`. -/
def row (w : Window) (i : Nat) : Window :=
  { w with start := w.start + i * w.rowSize, shape := w.rowShape }

def slotType (w : Window) : SlotType := ⟨w.type, w.rowShape⟩

@[simp] theorem shape_row (w : Window) (i : Nat) : (w.row i).shape = w.rowShape := rfl

@[simp] theorem size_row (w : Window) (i : Nat) : (w.row i).size = w.rowSize := rfl

@[simp] theorem buffer_row (w : Window) (i : Nat) : (w.row i).buffer = w.buffer := rfl

/-- An array with an axis consists of its rows. -/
theorem size_eq_length_mul_rowSize {w : Window} (h : w.shape ≠ []) :
    w.size = w.length * w.rowSize := by
  unfold size length rowSize rowShape
  cases hs : w.shape with
  | nil => exact absurd hs h
  | cons n shape => rfl

/-- A row in range lies within the array. -/
theorem row_end_le {w : Window} {i : Nat} (hi : i < w.length) :
    (w.row i).start + (w.row i).size ≤ w.start + w.size := by
  have hs : w.shape ≠ [] := by
    intro h
    simp [length, h] at hi
  rw [size_eq_length_mul_rowSize hs, size_row]
  have := Nat.mul_le_mul_right w.rowSize (Nat.succ_le_of_lt hi)
  simp only [row, Nat.succ_mul] at this ⊢
  omega

/-- Different rows share no cell. -/
theorem row_end_le_row_start {w : Window} {i j : Nat} (h : i < j) :
    (w.row i).start + (w.row i).size ≤ (w.row j).start := by
  have := Nat.mul_le_mul_right w.rowSize (Nat.succ_le_of_lt h)
  rw [size_row]
  simp only [row, Nat.succ_mul] at this ⊢
  omega

end Window
end ScriptedArrays
