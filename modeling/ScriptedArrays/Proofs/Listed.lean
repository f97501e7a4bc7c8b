import ScriptedArrays.Proofs.Writes

/-! Arrays and lists of their elements. The elements of an array, laid out as nested lists, are
converted one by one, and so are those of an array that is cast to a narrower type: both end as
the conversion of its cells in their order does. -/

namespace ScriptedArrays

open World

/-- Two computations end alike: both fail, or both give related results. -/
inductive Alike {ε ε' α β : Type} (r : α → β → Prop) : Except ε α → Except ε' β → Prop
  | ok {a : α} {b : β} (h : r a b) : Alike r (.ok a) (.ok b)
  | error (e : ε) (e' : ε') : Alike r (.error e) (.error e')

namespace Alike

variable {ε ε' α β γ δ : Type} {r : α → β → Prop} {s : γ → δ → Prop}

theorem bind {x : Except ε α} {y : Except ε' β} {f : α → Except ε γ} {g : β → Except ε' δ}
    (h : Alike r x y) (hf : ∀ a b, r a b → Alike s (f a) (g b)) : Alike s (x >>= f) (y >>= g) := by
  cases h with
  | ok h => exact hf _ _ h
  | error e e' => exact .error e e'

theorem mapM {f : α → Except ε γ} {g : β → Except ε' δ} {xs : List α} {ys : List β}
    (h : List.Forall₂ (fun x y => Alike s (f x) (g y)) xs ys) :
    Alike (List.Forall₂ s) (xs.mapM f) (ys.mapM g) := by
  induction h with
  | nil => exact .ok .nil
  | cons hx _ ih =>
    rw [List.mapM_cons, List.mapM_cons]
    exact hx.bind fun a b hab => ih.bind fun as bs hs => .ok (.cons hab hs)

end Alike

def SameContent (x y : Value) : Prop := x.content = y.content

def SameHeld (cell : CellType) (x y : Value) : Prop := SameContent (cell.held x) (cell.held y)

theorem forall₂_sameContent_refl (xs : List Value) : List.Forall₂ SameContent xs xs := by
  rw [List.forall₂_same]
  exact fun x _ => rfl

/-- The value as the host keeps it: it is the same object, unless it never was one. -/
structure Value.IsKept (v x : Value) : Prop where
  content : v.content = x.content
  same : x.isObject = true → v = x

theorem Value.IsKept.refl (x : Value) : Value.IsKept x x := ⟨rfl, fun _ => rfl⟩

theorem hostValue_eq_self {w : World} {v : Value} (hw : v.isWrapper = false) : w.hostValue v = v := by
  simp only [World.hostValue]
  split
  · cases hw
  · cases hw
  · rfl

theorem Value.IsKept.isWrapper {v x : Value} (h : v.IsKept x) (hx : x.isWrapper = false) :
    v.isWrapper = false := by
  by_cases ho : x.isObject = true
  · rwa [h.same ho]
  · have hcontent := h.content
    rw [content_of_not_isObject (v := x) (by simpa using ho)] at hcontent
    cases v with
    | view r =>
      rw [← hcontent] at hx
      cases hx
    | box r =>
      rw [← hcontent] at hx
      cases hx
    | _ => rfl

theorem content_hostValue (w : World) {v x : Value} (h : v.IsKept x) :
    (w.hostValue v).content = (w.hostValue x).content := by
  by_cases ho : x.isObject = true
  · rw [h.same ho]
  · have hx : x.isWrapper = false := by
      cases x <;> first | rfl | exact absurd rfl ho
    rw [hostValue_eq_self hx, hostValue_eq_self (h.isWrapper hx), h.content]

namespace Conversion

variable {w : World} {truncates : Bool} {cell : CellType} {v x : Value}

theorem alike_lift {α : Type} (e : Except HostFault α) : Alike Eq (lift e) (lift e) := by
  cases e with
  | ok a => exact .ok rfl
  | error f => exact .error _ _

theorem alike_wholeNumber (c : Value) :
    Alike Eq (wholeNumber w v c cell) (wholeNumber w x c cell) := by
  simp only [wholeNumber]
  cases c with
  | bool b => exact .ok rfl
  | int i => exact .ok rfl
  | number _ | text _ =>
    refine (alike_lift _).bind fun a b hab => ?_
    subst hab
    cases a.truncate? with
    | some n => exact .ok rfl
    | none => exact .error _ _
  | _ => exact .error _ _

theorem alike_cellText (c : Value) : Alike Eq (cellText w v c cell) (cellText w x c cell) := by
  simp only [cellText]
  cases c with
  | null => exact .error _ _
  | undefined => exact .error _ _
  | bytes b => exact .ok rfl
  | _ => exact alike_lift _

theorem alike_fitText (n : Nat) (s : String) :
    Alike Eq (fitText truncates v cell n s) (fitText truncates x cell n s) := by
  simp only [fitText]
  split
  · exact .ok rfl
  · split
    · exact .ok rfl
    · exact .error _ _

theorem alike_toReal (c : Value) (p : Precision) :
    Alike SameContent (toReal w v c cell p) (toReal w x c cell p) := by
  have hnumber : ∀ y : Value, Alike SameContent
      (do let y ← lift (w.numberOf y)
          .ok (.scalar (.native cell.content) (.number (y.narrow p.format))) : Except Refusal Value)
      (do let y ← lift (w.numberOf y)
          .ok (.scalar (.native cell.content) (.number (y.narrow p.format))) : Except Refusal Value) := by
    intro y
    refine (alike_lift _).bind fun a b hab => ?_
    subst hab
    exact .ok rfl
  simp only [toReal]
  cases c with
  | bool b => exact hnumber _
  | int i => exact hnumber _
  | number y => exact hnumber _
  | text s => exact hnumber _
  | _ => exact .error _ _

theorem alike_toComplex (c : Value) (p : Precision) :
    Alike SameContent (toComplex v c cell p) (toComplex x c cell p) := by
  simp only [toComplex]
  cases c with
  | int i =>
    refine (alike_lift _).bind fun a b hab => ?_
    subst hab
    exact .ok rfl
  | number y => exact .ok rfl
  | complex re im => exact .ok rfl
  | _ => exact .error _ _

/-- A kept value is converted like the value itself. -/
theorem alike_toCell (h : v.IsKept x) :
    Alike SameContent (toCell w truncates cell v) (toCell w truncates cell x) := by
  have hc := content_hostValue w h
  have hitem : (w.hostValue v).item = (w.hostValue x).item := by
    rw [Value.item, Value.item, hc]
  simp only [toCell]
  rw [hitem]
  generalize (w.hostValue x).item = c
  cases cell.content with
  | bool => exact .ok rfl
  | int signed bytes =>
    refine (alike_wholeNumber c).bind fun a b hab => ?_
    subst hab
    dsimp only
    split
    · exact .ok rfl
    · exact .error _ _
  | real p => exact alike_toReal c p
  | complex p => exact alike_toComplex c p
  | text n =>
    refine (alike_cellText c).bind fun a b hab => ?_
    subst hab
    refine (alike_fitText n a).bind fun s t hst => ?_
    subst hst
    exact .ok rfl
  | bytes n =>
    refine (alike_cellText c).bind fun a b hab => ?_
    subst hab
    refine (alike_fitText n a).bind fun s t hst => ?_
    subst hst
    cases Latin.encode? s with
    | some b => exact .ok rfl
    | none => exact .error _ _
  | object =>
    refine .ok ?_
    split
    · exact rfl
    · rw [SameContent, Value.opened, Value.opened, hc]
      split
      · rfl
      · exact hc
  | _ => exact .error _ _

end Conversion

theorem extract_rows (a : Array Value) (start size n : Nat) :
    (a.extract start (start + n * size)).toList =
      ((List.range n).map fun i =>
        (a.extract (start + i * size) (start + i * size + size)).toList).flatten := by
  induction n with
  | zero => simp
  | succ n ih =>
    have hsplit : a.extract start (start + (n + 1) * size) =
        a.extract start (start + n * size) ++
          a.extract (start + n * size) (start + n * size + size) := by
      rw [Array.extract_append_extract]
      congr 1
      · omega
      · rw [Nat.succ_mul]
        omega
    rw [hsplit, Array.toList_append, ih, List.range_succ, List.map_append, List.flatten_append]
    simp

theorem World.cells_eq_rows (w : World) {win : Window} (hs : win.shape ≠ []) :
    w.cells win = ((List.range win.length).map fun i => w.cells (win.row i)).flatten := by
  rw [cells, Window.size_eq_length_mul_rowSize hs, extract_rows]
  rfl

theorem World.cells_of_axisless {w : World} {win : Window} (he : w.Encloses win) (hs : win.shape = []) :
    w.cells win = [w.cell win 0] := by
  have hsize : win.size = 1 := by
    rw [Window.size, hs]
    rfl
  have hlen := length_cells he
  have hget := getElem?_cells he (show 0 < win.size by omega)
  rw [hsize] at hlen
  obtain ⟨c, hc⟩ := List.length_eq_one_iff.mp hlen
  rw [hc, List.getElem?_cons_zero] at hget
  rw [hc, World.cell, ← hget]
  rfl

theorem World.cell_row (w : World) {win : Window} (hs : win.rowShape = []) (i : Nat) :
    w.cell (win.row i) 0 = w.cell win i := by
  rw [World.cell, World.cell, Window.buffer_row, Window.row, Window.rowSize, hs]
  simp

/-- The elements of an array as the host lists them: a row as a list of what lists its own
rows, and a cell as its content. -/
def World.Lists (w : World) : (shape : List Nat) → Window → Value → Prop
  | [], win, v => v.IsKept (win.type.itemValue (w.cell win 0))
  | _ :: shape, win, v => ∃ r, v = .list r ∧
    List.Forall₂ (fun i x => w.Lists shape (win.row i) x) (List.range win.length) (w.lists.get r)

namespace Conversion

variable {w : World} {truncates : Bool} {cell : CellType}

def convertItem (w : World) (truncates : Bool) (t cell : CellType) (c : Value) :
    Except Refusal Value := do
  .ok (cell.stored (← toCell w truncates cell (t.itemValue c)))

theorem sameHeld_stored {x y : Value} (h : SameContent x y) :
    SameHeld cell (cell.stored x) (cell.stored y) := by
  by_cases ho : cell.isObject = true
  · have hheld : ∀ v, cell.held v = v := fun v => by
      simp [CellType.held, (by simpa [CellType.isObject] using ho : cell.content = .object)]
    rw [CellType.stored, CellType.stored, if_pos ho, if_pos ho, SameHeld, hheld, hheld]
    exact h
  · rw [stored_of_content (by simpa using ho) h]
    rfl

theorem held_placed (v : Value) : cell.held (placed cell v) = cell.held v := by
  simp only [placed]
  split
  · rename_i hc
    simp [CellType.held, hc, CellType.cutText]
  · rename_i hc
    simp [CellType.held, hc, CellType.cutBytes]
  · rfl

theorem alike_placed {e e' : Except Refusal (List Value)}
    (h : Alike (List.Forall₂ (SameHeld cell)) e e') :
    Alike (List.Forall₂ (SameHeld cell)) (do .ok ((← e).map (placed cell))) e' := by
  cases h with
  | ok h =>
    refine .ok ?_
    rw [List.forall₂_map_left_iff]
    refine h.imp fun x y hxy => ?_
    rw [SameHeld, held_placed]
    exact hxy
  | error f f' => exact .error f f'

theorem alike_each {f : Operand → Except Refusal (List Value)} {g : Value → Except Refusal Value}
    {r : Value → Value → Prop} {items : List Operand} {rows : List (List Value)}
    (h : List.Forall₂ (fun x row => Alike (List.Forall₂ r) (f x) (row.mapM g)) items rows) :
    Alike (List.Forall₂ r) (each f items) (rows.flatten.mapM g) := by
  induction h with
  | nil => exact .ok .nil
  | cons hx _ ih =>
    rw [each, List.flatten_cons, List.mapM_append]
    refine hx.bind fun a b hab => ih.bind fun as bs hs => .ok ?_
    exact List.rel_append hab hs

theorem alike_single {win : Window} {v : Value} (he : w.Encloses win) (hs : win.shape = [])
    (hv : v.IsKept (win.type.itemValue (w.cell win 0))) :
    Alike (List.Forall₂ (SameHeld cell)) (toCells w truncates cell [] (.plain v))
      ((w.cells win).mapM (convertItem w truncates win.type cell)) := by
  have hcells : w.cells win = [w.cell win 0] := cells_of_axisless he hs
  rw [hcells, List.mapM_cons, List.mapM_nil, toCells, convertItem, bind_assoc]
  refine (alike_toCell hv).bind fun a b hab => .ok ?_
  exact .cons (sameHeld_stored hab) .nil

/-- Nested lists of the elements are converted cell by cell. -/
theorem alike_of_lists {shape : List Nat} {win : Window} {v : Value}
    (he : w.Encloses win) (hs : win.shape = shape) (hv : w.Lists shape win v) :
    Alike (List.Forall₂ (SameHeld cell)) (toCells w truncates cell shape (.plain v))
      ((w.cells win).mapM (convertItem w truncates win.type cell)) := by
  induction shape generalizing win v with
  | nil => exact alike_single he hs hv
  | cons n shape ih =>
    obtain ⟨r, rfl, hrows⟩ := hv
    have hn : win.length = n := by rw [Window.length, hs]; rfl
    have hlen : (w.lists.get r).length = n := by
      rw [← hrows.length_eq, List.length_range, hn]
    have hcontent : w.contentOf (.plain (.list r)) = .plain (.list r) := rfl
    rw [toCells, hcontent, w.cells_eq_rows (by rw [hs]; exact List.cons_ne_nil _ _)]
    dsimp only
    rw [if_pos (by rw [List.length_map, hlen])]
    refine alike_placed (alike_each ?_)
    rw [List.forall₂_map_left_iff, List.forall₂_map_right_iff]
    have hbelow : ∀ i ∈ List.range win.length, i < win.length := fun i hi => List.mem_range.mp hi
    have hall := (List.forall₂_and_left _ _).mpr ⟨hbelow, hrows⟩
    refine List.Forall₂.flip (hall.imp fun i x hx => ?_)
    have hrow : (win.row i).shape = shape := by
      rw [Window.shape_row, Window.rowShape, hs]
      rfl
    exact ih (he.row hx.1) hrow hx.2

section Window

variable {n : Nat} {shape : List Nat} {given : Operand} {win : Window}

/-- Without a cast as a whole, an array is converted cell by cell as well. -/
theorem alike_of_narrowing (hg : w.contentOf given = .window win)
    (he : w.Encloses win) (hs : win.shape = n :: shape)
    (hk : win.type.content.castsWithinKind cell.content = true)
    (hno : win.type.content.castsSafely cell.content = false) :
    Alike (List.Forall₂ (SameHeld cell)) (toCells w truncates cell (n :: shape) given)
      ((w.cells win).mapM (convertItem w truncates win.type cell)) := by
  induction shape generalizing n given win with
  | nil =>
    have hrow : win.rowShape = [] := by
      rw [Window.rowShape, hs]
      rfl
    rw [toCells_of_narrowing hg hs hk hno,
      w.cells_eq_rows (by rw [hs]; exact List.cons_ne_nil _ _)]
    refine alike_placed (alike_each ?_)
    rw [World.operands, List.forall₂_map_left_iff, List.forall₂_map_right_iff, List.forall₂_same]
    intro i hi
    rw [hrow, List.isEmpty_nil, if_pos rfl, ← w.cell_row hrow]
    exact alike_single (he.row (List.mem_range.mp hi)) hrow (.refl _)
  | cons m shape ih =>
    have hrow : win.rowShape = m :: shape := by
      rw [Window.rowShape, hs]
      rfl
    rw [toCells_of_narrowing hg hs hk hno,
      w.cells_eq_rows (by rw [hs]; exact List.cons_ne_nil _ _)]
    refine alike_placed (alike_each ?_)
    rw [World.operands, List.forall₂_map_left_iff, List.forall₂_map_right_iff, List.forall₂_same]
    intro i hi
    rw [hrow, List.isEmpty_cons, if_neg Bool.false_ne_true]
    exact ih rfl (he.row (List.mem_range.mp hi)) hrow hk hno

end Window

end Conversion

end ScriptedArrays
