import ScriptedArrays.Proofs.Writes

/-! Rows of arrays. A path of indices leads from an array to the row below it, which is a window
on the cells whose indices start with the path. Paths that part lead to rows without a common
cell. -/

namespace ScriptedArrays

open World

def InRange : (path shape : List Nat) → Prop
  | [], _ => True
  | i :: path, n :: shape => i < n ∧ InRange path shape
  | _ :: _, [] => False

theorem inRange_append {p q shape : List Nat} :
    InRange (p ++ q) shape ↔ InRange p shape ∧ InRange q (shape.drop p.length) := by
  induction p generalizing shape with
  | nil => simp [InRange]
  | cons i p ih =>
    cases shape with
    | nil => simp [InRange]
    | cons n shape => simp [InRange, ih, and_assoc]

theorem InRange.length_le {p shape : List Nat} (h : InRange p shape) : p.length ≤ shape.length := by
  induction p generalizing shape with
  | nil => exact Nat.zero_le _
  | cons i p ih =>
    cases shape with
    | nil => exact h.elim
    | cons n shape =>
      have := ih h.2
      simp only [List.length_cons]
      omega

def place : (shape path : List Nat) → Nat
  | _ :: shape, i :: path => i * cellCount shape + place shape path
  | _, _ => 0

theorem place_lt {shape path : List Nat} (h : InRange path shape) (hl : path.length = shape.length) :
    place shape path < cellCount shape := by
  induction path generalizing shape with
  | nil =>
    obtain rfl : shape = [] := List.eq_nil_of_length_eq_zero hl.symm
    exact Nat.zero_lt_one
  | cons i path ih =>
    cases shape with
    | nil => exact h.elim
    | cons n shape =>
      have hlt := ih h.2 (by simpa using hl)
      have hrow := Nat.mul_le_mul_right (cellCount shape) (Nat.succ_le_of_lt h.1)
      simp only [place, cellCount_cons, Nat.succ_mul] at hrow ⊢
      omega

namespace Window

/-- The row below a path of indices. -/
def below (win : Window) : List Nat → Window
  | [] => win
  | i :: path => (win.row i).below path

@[simp] theorem below_cons (win : Window) (i : Nat) (path : List Nat) :
    win.below (i :: path) = (win.row i).below path := rfl

theorem below_append (win : Window) (p q : List Nat) : win.below (p ++ q) = (win.below p).below q := by
  induction p generalizing win with
  | nil => rfl
  | cons i p ih => exact ih (win.row i)

theorem below_concat (win : Window) (p : List Nat) (k : Nat) :
    win.below (p ++ [k]) = (win.below p).row k := below_append win p [k]

@[simp] theorem type_below (win : Window) (p : List Nat) : (win.below p).type = win.type := by
  induction p generalizing win with
  | nil => rfl
  | cons i p ih => exact ih (win.row i)

@[simp] theorem buffer_below (win : Window) (p : List Nat) : (win.below p).buffer = win.buffer := by
  induction p generalizing win with
  | nil => rfl
  | cons i p ih => exact ih (win.row i)

theorem shape_below (win : Window) (p : List Nat) : (win.below p).shape = win.shape.drop p.length := by
  induction p generalizing win with
  | nil => rfl
  | cons i p ih =>
    rw [below_cons, ih, shape_row, rowShape, List.length_cons, ← List.drop_one, List.drop_drop,
      Nat.add_comm]

theorem size_below (win : Window) (p : List Nat) :
    (win.below p).size = cellCount (win.shape.drop p.length) := by
  rw [size, shape_below]

theorem start_below (win : Window) {p : List Nat} (h : InRange p win.shape) :
    (win.below p).start = win.start + place win.shape p := by
  induction p generalizing win with
  | nil =>
    cases win.shape <;> rfl
  | cons i p ih =>
    cases hs : win.shape with
    | nil =>
      rw [hs] at h
      exact h.elim
    | cons n shape =>
      rw [hs] at h
      have hrow : (win.row i).shape = shape := by
        rw [shape_row, rowShape, hs]
        rfl
      have hstep := ih (win.row i) (by rw [hrow]; exact h.2)
      have hstart : (win.row i).start = win.start + i * cellCount shape := by
        rw [row, rowSize, rowShape, hs]
        rfl
      rw [below_cons, hstep, hstart, hrow, place, Nat.add_assoc]

/-- A row lies within the array. -/
theorem below_within {win : Window} {p : List Nat} (h : InRange p win.shape) :
    win.start ≤ (win.below p).start ∧
      (win.below p).start + (win.below p).size ≤ win.start + win.size := by
  induction p generalizing win with
  | nil => exact ⟨Nat.le_refl _, Nat.le_refl _⟩
  | cons i p ih =>
    cases hs : win.shape with
    | nil =>
      rw [hs] at h
      exact h.elim
    | cons n shape =>
      rw [hs] at h
      have hi : i < win.length := by
        rw [length, hs]
        exact h.1
      have hrow : InRange p (win.row i).shape := by
        rw [shape_row, rowShape, hs]
        exact h.2
      obtain ⟨hlo, hhi⟩ := ih hrow
      have hend := row_end_le hi
      have hstart : win.start ≤ (win.row i).start := Nat.le_add_right _ _
      exact ⟨Nat.le_trans hstart hlo, Nat.le_trans hhi hend⟩

/-- Paths that part lead to rows that share no cell. -/
theorem below_apart {win : Window} {p q : List Nat} (hp : InRange p win.shape)
    (hq : InRange q win.shape) (hpq : ¬ p <+: q) (hqp : ¬ q <+: p) :
    (win.below p).start + (win.below p).size ≤ (win.below q).start ∨
      (win.below q).start + (win.below q).size ≤ (win.below p).start := by
  induction p generalizing win q with
  | nil => exact absurd List.nil_prefix hpq
  | cons i p ih =>
    cases q with
    | nil => exact absurd List.nil_prefix hqp
    | cons j q =>
      cases hs : win.shape with
      | nil =>
        rw [hs] at hp
        exact hp.elim
      | cons n shape =>
        rw [hs] at hp hq
        have hrow : ∀ k, (win.row k).shape = shape := by
          intro k
          rw [shape_row, rowShape, hs]
          rfl
        have hp' : InRange p (win.row i).shape := (hrow i).symm ▸ hp.2
        have hq' : InRange q (win.row j).shape := (hrow j).symm ▸ hq.2
        obtain ⟨hplo, hphi⟩ := below_within hp'
        obtain ⟨hqlo, hqhi⟩ := below_within hq'
        rcases Nat.lt_trichotomy i j with hij | rfl | hij
        · left
          have := win.row_end_le_row_start hij
          rw [below_cons, below_cons]
          omega
        · refine ih hp' hq' ?_ ?_
          · exact fun h => hpq (List.prefix_cons_inj i |>.mpr h)
          · exact fun h => hqp (List.prefix_cons_inj i |>.mpr h)
        · right
          have := win.row_end_le_row_start hij
          rw [below_cons, below_cons]
          omega

end Window

end ScriptedArrays
