import ScriptedArrays.Cell.Type

/-! Shapes of arrays. Cells lie in row-major order, so the rows of an array are equal pieces
of its cells. Two shapes are joined by repeating the cells of axes of length one. -/

namespace ScriptedArrays

/-- Cut a list into `count` pieces of the given size. -/
def pieces {α : Type} (size : Nat) : (count : Nat) → List α → List (List α)
  | 0, _ => []
  | count + 1, xs => xs.take size :: pieces size count (xs.drop size)

@[simp] theorem length_pieces {α : Type} (size count : Nat) (xs : List α) :
    (pieces size count xs).length = count := by
  induction count generalizing xs with
  | zero => rfl
  | succ count ih => simp [pieces, ih]

theorem flatten_pieces {α : Type} (size count : Nat) {xs : List α} (h : xs.length = count * size) :
    (pieces size count xs).flatten = xs := by
  induction count generalizing xs with
  | zero =>
    rw [Nat.zero_mul, List.length_eq_zero_iff] at h
    simp [pieces, h]
  | succ count ih =>
    rw [Nat.succ_mul] at h
    rw [pieces, List.flatten_cons, ih (by rw [List.length_drop]; omega), List.take_append_drop]

namespace Shape

/-- A shape with axes of length one in front, up to the given rank. -/
def aligned (rank : Nat) (shape : List Nat) : List Nat :=
  List.replicate (rank - shape.length) 1 ++ shape

/-- The length of an axis that takes the cells of two: a single one is repeated. -/
def jointAxis? (m n : Nat) : Option Nat :=
  if m = n then some m else if m = 1 then some n else if n = 1 then some m else none

def jointAxes? : List Nat → List Nat → Option (List Nat)
  | m :: s, n :: t => do return (← jointAxis? m n) :: (← jointAxes? s t)
  | [], [] => some []
  | _, _ => none

/-- The shape that takes the cells of two shapes, aligned at their last axes. -/
def joint? (s t : List Nat) : Option (List Nat) :=
  jointAxes? (aligned (max s.length t.length) s) (aligned (max s.length t.length) t)

/-- The cells of a shape, repeated for a shape of the same rank. -/
def repeatAxes {α : Type} : (shape target : List Nat) → List α → List α
  | n :: shape, m :: target, cells =>
    let rows := ((pieces (cellCount shape) n cells).map (repeatAxes shape target)).flatten
    if n = m then rows else (List.replicate m rows).flatten
  | _, _, cells => cells

/-- The cells of a shape, repeated for a shape that takes them. -/
def stretch {α : Type} (shape target : List Nat) (cells : List α) : List α :=
  repeatAxes (aligned target.length shape) target cells

/-- A shape without the leading axes of length one that a rank has no room for. -/
def trimmed (rank : Nat) : List Nat → List Nat
  | 1 :: shape => if rank ≤ shape.length then trimmed rank shape else 1 :: shape
  | shape => shape

/-- Cells of one shape as the cells of another, if it takes them without growing. -/
def fitted? {α : Type} (shape target : List Nat) (cells : List α) : Option (List α) :=
  let shape := trimmed target.length shape
  if joint? shape target = some target then some (stretch shape target cells) else none

@[simp] theorem jointAxis?_self (n : Nat) : jointAxis? n n = some n := by simp [jointAxis?]

@[simp] theorem jointAxes?_self (s : List Nat) : jointAxes? s s = some s := by
  induction s with
  | nil => rfl
  | cons n s ih => simp [jointAxes?, ih]

@[simp] theorem aligned_length (s : List Nat) : aligned s.length s = s := by simp [aligned]

@[simp] theorem joint?_self (s : List Nat) : joint? s s = some s := by simp [joint?]

/-- Cells need not be repeated for their own shape. -/
theorem stretch_self {α : Type} {s : List Nat} {cells : List α} (h : cells.length = cellCount s) :
    stretch s s cells = cells := by
  rw [stretch, aligned_length]
  induction s generalizing cells with
  | nil => rfl
  | cons n s ih =>
    have hrows : ∀ (k : Nat) (xs : List α), xs.length = k * cellCount s →
        ((pieces (cellCount s) k xs).map (repeatAxes s s)).flatten = xs := by
      intro k
      induction k with
      | zero =>
        intro xs hx
        rw [Nat.zero_mul, List.length_eq_zero_iff] at hx
        simp [pieces, hx]
      | succ k ihk =>
        intro xs hx
        rw [Nat.succ_mul] at hx
        rw [pieces, List.map_cons, List.flatten_cons, ih (by rw [List.length_take]; omega),
          ihk _ (by rw [List.length_drop]; omega), List.take_append_drop]
    simp only [repeatAxes, if_true]
    exact hrows n cells h

end Shape
end ScriptedArrays
