import ScriptedArrays.Equality

/-! Indices. An index lies in bounds if it is at least zero and below the length, as the
host compares numbers. What it selects then follows from its kind: an integer selects a
slot, an array of integers a copy of one, a truth value a copy of all slots or of none, and
any other number nothing. -/

namespace ScriptedArrays

/-- A copied part of an array. -/
structure Part where
  /-- The axes that the copy has above those of the part. All of them have length one, or
  the first is empty if the part is not chosen. -/
  lead : List Nat
  window : Window
  chosen : Bool
  /-- How deep sequences are laid out when they are assigned to the part. -/
  depth : Nat

def Part.shape (p : Part) : List Nat := p.lead ++ p.window.shape

/-- What an index in bounds selects. -/
inductive Selection
  | slot (i : Nat)
  | part (p : Part)
  | invalid

namespace World

/-- Whether an index lies in bounds. The comparison ends with the lower bound if that fails. -/
def bounds (w : World) (i : Value) (length : Nat) : Except HostFault Verdict := do
  let above ← w.relate .atMost (.int 0) i
  if ← above.truth then w.relate .less i (.int length) else return above

def inBounds (w : World) (i : Value) (length : Nat) : Except HostFault Bool := do
  (← w.bounds i length).truth

@[simp] theorem bounds_int (w : World) (n : Int) (length : Nat) :
    w.bounds (.int n) length = .ok (.plain (decide (0 ≤ n ∧ n < length))) := by
  by_cases h : (0 : Int) ≤ n
  · have h0 : w.relate .atMost (.int 0) (.int n) = .ok (.plain true) := by
      have : decide ((0 : Int) < n) || (0 : Int) == n := by
        rcases Int.lt_or_eq_of_le h with hl | he
        · simp [hl]
        · simp [he]
      simpa [relate, relateFrom, Value.quantity?, Value.item, Value.content, Value.numberType?,
        Quantity.relate?, Quantity.isComplex, Quantity.parts, Quantity.relateReal, Relation.ints,
        Relation.judge] using this
    have h1 : w.relate .less (.int n) (.int length) = .ok (.plain (decide (n < length))) := by
      simp [relate, relateFrom, Value.quantity?, Value.item, Value.content, Value.numberType?,
        Quantity.relate?, Quantity.isComplex, Quantity.parts, Quantity.relateReal, Relation.ints,
        Relation.judge]
    simp [bounds, h0, h1, bind, Except.bind, Verdict.truth, h]
  · have h0 : w.relate .atMost (.int 0) (.int n) = .ok (.plain false) := by
      have h1 : ¬ (0 : Int) < n := by omega
      have h2 : (0 : Int) ≠ n := by omega
      simp [relate, relateFrom, Value.quantity?, Value.item, Value.content, Value.numberType?,
        Quantity.relate?, Quantity.isComplex, Quantity.parts, Quantity.relateReal, Relation.ints,
        Relation.judge, h1, h2]
    simp [bounds, h0, bind, Except.bind, pure, Except.pure, Verdict.truth, h]

/-- All slots below a further axis, or none. -/
def wholePart (win : Window) (axes : Nat) (chosen : Bool) (depth : Nat) : Part :=
  ⟨[if chosen then 1 else 0], { win with shape := win.shape.drop axes }, chosen, depth⟩

/-- What an array with a single cell selects. -/
def selectBy (w : World) (win index : Window) : Selection :=
  match index.type.content, w.cell index 0 with
  | .int .., .int n =>
    if index.shape.isEmpty then .part ⟨[], win.row n.toNat, true, win.rowShape.length⟩
    else .part ⟨index.shape, win.row n.toNat, true, greatestRank⟩
  | .bool, .bool chosen =>
    let axes := index.shape.length
    if axes = 0 then .part (wholePart win 0 chosen (1 + win.shape.length))
    else if win.shape.take axes = index.shape then .part (wholePart win axes chosen greatestRank)
    else .invalid
  | _, _ => .invalid

/-- What an index selects. A number beyond the slots selects nothing. -/
def select (w : World) (win : Window) (i : Value) : Selection :=
  match i.item with
  | .int n => if n.toNat < win.length then .slot n.toNat else .invalid
  | .bool chosen => .part (wholePart win 0 chosen (1 + win.shape.length))
  | .array r => w.selectBy win (w.arrays.get r)
  | _ => .invalid

/-- The whole part of an index, for the log. -/
def wholeIndex (w : World) (i : Value) : Except HostFault Int :=
  let whole (v : Value) : Except HostFault Int :=
    match v.quantity? with
    | some (.int n) => .ok n
    | some (.real x) | some (.complex x _) => match x.truncate? with
      | some n => .ok n
      | none => .error (if x.isNaN then .value else .overflow)
    | none => .error .type
  match i.item with
  | .array r => whole (w.cell (w.arrays.get r) 0)
  | v => whole v

/-- An index within a message. Numbers are written in full width. -/
def indexText (w : World) (i : Value) : String :=
  match i.content with
  | .scalar _ (.number x) => NumberText.ofDouble x
  | .scalar _ (.complex re im) => NumberText.ofComplex .double re im
  | .array r =>
    let win := w.arrays.get r
    match win.shape, w.cell win 0 with
    | [], .number x => NumberText.ofDouble x
    | [], .complex re im => NumberText.ofComplex .double re im
    | _, _ => w.display i
  | _ => w.display i

/-- An index within a message, if it is written. -/
def indexText? (w : World) (i : Value) : Except HostFault String :=
  Display.written (w.displayable i) (w.indexText i)

end World

end ScriptedArrays
