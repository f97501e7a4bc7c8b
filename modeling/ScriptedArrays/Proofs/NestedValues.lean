import ScriptedArrays.Proofs.Refusals
import ScriptedArrays.Proofs.RowRuns

/-! Nested values. A value without arrays is converted for a nested slot exactly if it is a nest of
lists, tuples and script arrays of the shape of the slot, and each value at the bottom is converted
for a single cell. The row holds what those conversions give, at the same indices. -/

namespace ScriptedArrays

open World

theorem getElem?_flatten {α : Type} {rows : List (List α)} {m : Nat}
    (h : ∀ row ∈ rows, row.length = m) (i : Nat) {j : Nat} (hj : j < m) :
    rows.flatten[i * m + j]? = rows[i]?.bind fun row => row[j]? := by
  induction rows generalizing i with
  | nil => simp
  | cons row rows ih =>
    have hrow : row.length = m := h row List.mem_cons_self
    rw [List.flatten_cons]
    cases i with
    | zero =>
      rw [Nat.zero_mul, Nat.zero_add, List.getElem?_append_left (by rwa [hrow])]
      rfl
    | succ i =>
      have hsplit : (i + 1) * m + j = row.length + (i * m + j) := by
        rw [hrow, Nat.succ_mul]
        omega
      rw [hsplit, List.getElem?_append_right (Nat.le_add_right _ _), Nat.add_sub_cancel_left,
        ih fun r hr => h r (List.mem_cons_of_mem row hr)]
      rfl

namespace World

/-- The items of a list, of a tuple or of a script array. A script array has as many of them as its
length says, without regard to its fraction, and those that are missing are undefined. -/
def itemsIn? (w : World) (v : Value) : Option (List Value) :=
  match (w.hostValue v).item with
  | .list r => some (w.lists.get r)
  | .tuple r => some (w.tuples.get r)
  | .record r => do
    let length ← (w.records.get r).get? "length"
    let x ← (w.numberOf length).toOption
    let k ← x.truncate?
    if x.less .zero then none
    else some ((List.range k.toNat).map fun i => (w.records.get r).getD (toString i) .undefined)
  | _ => none

def valueAt? (w : World) : (path : List Nat) → Value → Option Value
  | [], v => some v
  | i :: path, v => (w.itemsIn? v).bind fun items => items[i]?.bind (w.valueAt? path)

/-- The value has items down to the depth of the shape, as many at each level as the shape says. -/
def IsNest (w : World) : (shape : List Nat) → Value → Prop
  | [], _ => True
  | n :: shape, v => ∃ items, w.itemsIn? v = some items ∧ items.length = n ∧
      ∀ x ∈ items, w.IsNest shape x

/-- The value is a nest of the shape of the slot, and each value at the bottom is converted for a
single cell. -/
structure Lifts (w : World) (truncates : Bool) (slot : SlotType) (v : Value) : Prop where
  isNest : w.IsNest slot.shape v
  converts : ∀ path, InRange path slot.shape → path.length = slot.shape.length →
    ∃ y z, w.valueAt? path v = some y ∧ convert truncates ⟨slot.cell, []⟩ y w = .ok z w

/-- No part is an array, neither as it is nor in a box. -/
def IsArrayFree (w : World) (given : Operand) : Prop :=
  ∀ v r, w.HasPart given v → (w.hostValue v).item ≠ .array r

section

variable {w : World} {v : Value} {items : List Value}

theorem contentOf_plain (h : ∀ r, (w.hostValue v).item ≠ .array r) :
    w.contentOf (.plain v) = .plain (w.hostValue v).item := by
  rw [contentOf, operand.eq_def]
  split
  · rename_i r hr
    exact absurd hr (h r)
  · rfl

theorem valueAt?_cons (hi : w.itemsIn? v = some items) {i : Nat} (hlt : i < items.length)
    (path : List Nat) : w.valueAt? (i :: path) v = w.valueAt? path items[i] := by
  rw [valueAt?, hi, Option.bind_some, List.getElem?_eq_getElem hlt, Option.bind_some]

end

end World

namespace Conversion

variable {w : World} {truncates : Bool} {cell : CellType} {v : Value} {items : List Value}
  {n : Nat} {shape : List Nat} {cells : List Value}

/-- What has items is converted item by item. -/
theorem rows_of_items (hi : w.itemsIn? v = some items) :
    Rows w cell items.length shape (.plain v) (items.map .plain) := by
  simp only [itemsIn?] at hi
  split at hi
  · rename_i r hr
    cases hi
    exact .list (by rw [contentOf, hr]; rfl) rfl
  · rename_i r hr
    cases hi
    exact .tuple (by rw [contentOf, hr]; rfl) rfl
  · rename_i r hr
    simp only [Option.bind_eq_bind, Option.bind_eq_some_iff] at hi
    obtain ⟨length, hlength, x, hx, k, hk, hi⟩ := hi
    split at hi
    · cases hi
    · rename_i hless
      cases hi
      have hnumber : w.numberOf length = .ok x := by
        cases hy : w.numberOf length with
        | error f => simp [hy, Except.toOption] at hx
        | ok y =>
          rw [hy] at hx
          cases hx
          rfl
      have hcontent : w.contentOf (.plain v) = .plain (.record r) := by
        rw [contentOf, hr]
        rfl
      have hrows : Rows w cell k.toNat shape (.plain v)
          (numberedItems (w.records.get r) k.toNat) :=
        .record hcontent hlength hnumber hk (by simpa using hless) rfl
      simpa only [numberedItems, List.length_map, List.length_range, List.map_map, Function.comp_def]
        using hrows
  · cases hi

theorem items_of_rows (hno : ∀ r, (w.hostValue v).item ≠ .array r) {operands : List Operand}
    (h : Rows w cell n shape (.plain v) operands) :
    ∃ items, operands = items.map .plain ∧ w.itemsIn? v = some items ∧ items.length = n := by
  have hplain := contentOf_plain hno
  cases h with
  | list hg hn =>
    rw [hplain, Operand.plain.injEq] at hg
    exact ⟨_, rfl, by simp only [itemsIn?, hg], hn⟩
  | tuple hg hn =>
    rw [hplain, Operand.plain.injEq] at hg
    exact ⟨_, rfl, by simp only [itemsIn?, hg], hn⟩
  | @record r length x k hg hlength hx hk hpos hn =>
    rw [hplain, Operand.plain.injEq] at hg
    refine ⟨(List.range k.toNat).map fun i => (w.records.get r).getD (toString i) .undefined,
      ?_, ?_, by simpa using hn⟩
    · rw [numberedItems, List.map_map, hn]
      rfl
    · simp [itemsIn?, hg, hlength, hx, hk, hpos, Except.toOption]
  | window hg => simp [hplain] at hg

theorem isArrayFree_of_rows {given : Operand} {operands : List Operand}
    (h : Rows w cell n shape given operands) (hf : w.IsArrayFree given) :
    ∀ x ∈ operands, w.IsArrayFree x :=
  fun _ hx y r hy => hf y r (hasPart_of_rows h hx hy)

theorem not_undecodable (hf : w.IsArrayFree (.plain v)) :
    ¬ Undecodable w truncates cell shape (.plain v) := by
  induction shape generalizing v with
  | nil => nofun
  | cons n shape ih =>
    have hno := fun r => hf v r (.self v)
    intro h
    cases h with
    | cells hwin => simp [contentOf_plain hno] at hwin
    | @row _ _ _ x before after hrows _ hx =>
      have hmem : x ∈ before ++ x :: after := List.mem_append_right _ List.mem_cons_self
      have hfree := isArrayFree_of_rows hrows hf x hmem
      obtain ⟨items, hitems, -⟩ := items_of_rows hno hrows
      rw [hitems] at hmem
      obtain ⟨y, -, rfl⟩ := List.mem_map.mp hmem
      exact ih hfree hx

theorem placed_of_hasRoomFor {c : Value} (h : cell.content.HasRoomFor c) : placed cell c = c := by
  simp only [placed]
  split
  · rename_i s hc
    rw [hc] at h
    obtain rfl : s = "" := String.length_eq_zero_iff.mp (Nat.le_zero.mp h)
    rfl
  · rename_i b hc
    rw [hc] at h
    obtain rfl : b = [] := List.length_eq_zero_iff.mp (Nat.le_zero.mp h)
    rfl
  · rfl

theorem ok_of_forall_each {convert : Operand → Except Refusal (List Value)}
    {operands : List Operand} (h : ∀ x ∈ operands, ∃ cells, convert x = .ok cells) :
    ∃ cells, each convert operands = .ok cells := by
  cases hc : each convert operands with
  | ok cells => exact ⟨cells, rfl⟩
  | error e =>
    obtain ⟨before, x, after, rfl, -, hx⟩ := each_error hc
    obtain ⟨cells, hcells⟩ := h x (List.mem_append_right _ List.mem_cons_self)
    rw [hx] at hcells
    cases hcells

/-- A nest is converted if all the values at its bottom are. -/
theorem exists_toCells (hn : w.IsNest shape v)
    (hb : ∀ path, InRange path shape → path.length = shape.length →
      ∃ y z, w.valueAt? path v = some y ∧ toCell w truncates cell y = .ok z) :
    ∃ cells, toCells w truncates cell shape (.plain v) = .ok cells := by
  induction shape generalizing v with
  | nil =>
    obtain ⟨y, z, hy, hz⟩ := hb [] True.intro rfl
    cases hy
    exact ⟨[cell.stored z], by rw [toCells, hz]; rfl⟩
  | cons n shape ih =>
    obtain ⟨items, hitems, rfl, hrest⟩ := hn
    have heach : ∀ x ∈ items.map Operand.plain,
        ∃ cells, toCells w truncates cell shape x = .ok cells := by
      intro x hx
      obtain ⟨y, hy, rfl⟩ := List.mem_map.mp hx
      obtain ⟨i, hi, rfl⟩ := List.getElem_of_mem hy
      refine ih (hrest _ hy) fun path hr hl => ?_
      obtain ⟨y, z, hy, hz⟩ := hb (i :: path) ⟨hi, hr⟩ (congrArg Nat.succ hl)
      rw [valueAt?_cons hitems hi] at hy
      exact ⟨y, z, hy, hz⟩
    obtain ⟨cells, hcells⟩ := ok_of_forall_each heach
    rw [toCells_of_rows (rows_of_items hitems), hcells]
    exact ⟨_, rfl⟩

/-- Without arrays a row is converted from items, one for each row below it. -/
theorem items_of_toCells (hf : w.IsArrayFree (.plain v))
    (h : toCells w truncates cell (n :: shape) (.plain v) = .ok cells) :
    ∃ items parts, w.itemsIn? v = some items ∧ items.length = n ∧
      (∀ x ∈ items, w.IsArrayFree (.plain x)) ∧
      List.Forall₂ (fun x part => toCells w truncates cell shape (.plain x) = .ok part) items parts ∧
      cells = parts.flatten.map (placed cell) := by
  have hno := fun r => hf v r (.self v)
  rcases toCells_cases w truncates cell n shape (.plain v) with
    ⟨win, hwin, -⟩ | ⟨operands, hrows⟩ | ⟨_, hunfit⟩ | ⟨_, _, _, _, _, _, hfault⟩
  · simp [contentOf_plain hno] at hwin
  · obtain ⟨items, rfl, hitems, hlen⟩ := items_of_rows hno hrows
    rw [toCells_of_rows hrows] at h
    obtain ⟨all, hall, h⟩ := ok_of_bind h
    obtain ⟨parts, rfl, hparts⟩ := ok_of_each hall
    cases h
    refine ⟨items, parts, hitems, hlen, fun x hx => ?_, ?_, rfl⟩
    · exact isArrayFree_of_rows hrows hf _ (List.mem_map_of_mem hx)
    · rwa [List.forall₂_map_left_iff] at hparts
  · rw [hunfit] at h
    cases h
  · rw [hfault] at h
    cases h

theorem accepts_of_toCells (hf : w.IsArrayFree (.plain v))
    (h : toCells w truncates cell shape (.plain v) = .ok cells) : ∀ c ∈ cells, cell.Accepts c := by
  induction shape generalizing v cells with
  | nil =>
    obtain ⟨z, hz, h⟩ := ok_of_bind h
    cases h
    intro c hc
    rw [List.mem_singleton.mp hc]
    exact accepts_of_toCell hz
  | cons n shape ih =>
    obtain ⟨items, parts, -, -, hfree, hparts, rfl⟩ := items_of_toCells hf h
    intro c hc
    obtain ⟨d, hd, rfl⟩ := List.mem_map.mp hc
    obtain ⟨part, hpart, hmem⟩ := List.mem_flatten.mp hd
    obtain ⟨x, hx, hxpart⟩ := exists_of_forall₂ hparts hpart
    have haccepts : cell.Accepts d := ih (hfree x hx) hxpart d hmem
    rwa [placed_of_hasRoomFor (CellType.hasRoomFor_of_accepts haccepts)]

/-- What is converted without arrays is a nest, and its cells are those of the values at the
bottom. -/
theorem nest_of_toCells (hw : w.Sound) (hf : w.IsArrayFree (.plain v))
    (h : toCells w truncates cell shape (.plain v) = .ok cells) :
    w.IsNest shape v ∧ ∀ path, InRange path shape → path.length = shape.length →
      ∃ y z, w.valueAt? path v = some y ∧ toCell w truncates cell y = .ok z ∧
        cells[place shape path]? = some (cell.stored z) := by
  induction shape generalizing v cells with
  | nil =>
    obtain ⟨z, hz, h⟩ := ok_of_bind h
    cases h
    refine ⟨True.intro, fun path _ hl => ?_⟩
    obtain rfl : path = [] := List.eq_nil_of_length_eq_zero hl
    exact ⟨v, z, rfl, hz, rfl⟩
  | cons n shape ih =>
    obtain ⟨items, parts, hitems, hlen, hfree, hparts, rfl⟩ := items_of_toCells hf h
    refine ⟨⟨items, hitems, hlen, fun x hx => ?_⟩, fun path hr hl => ?_⟩
    · obtain ⟨part, -, hpart⟩ := exists_of_forall₂ hparts.flip hx
      exact (ih (hfree x hx) hpart).1
    · cases path with
      | nil => cases hl
      | cons i path =>
        have hi : i < items.length := hlen ▸ hr.1
        have hi' : i < parts.length := hparts.length_eq ▸ hi
        have hpart : toCells w truncates cell shape (.plain items[i]) = .ok parts[i] :=
          hparts.get hi hi'
        have hbelow := (ih (hfree _ (List.getElem_mem hi)) hpart).2
        obtain ⟨y, z, hy, hz, hcell⟩ := hbelow path hr.2 (Nat.succ_inj.mp hl)
        refine ⟨y, z, by rw [valueAt?_cons hitems hi, hy], hz, ?_⟩
        have hsize : ∀ part ∈ parts, part.length = cellCount shape := by
          intro part hpart
          have hplain : ∀ x, w.ShowsOperand (.plain x) := fun x => True.intro
          obtain ⟨x, -, hx⟩ := exists_of_forall₂ hparts hpart
          exact length_of_toCells hw (hplain x) hx
        have hplace := place_lt hr.2 (Nat.succ_inj.mp hl)
        have hroom := CellType.hasRoomFor_of_accepts (accepts_of_toCell hz)
        rw [place, List.getElem?_map, getElem?_flatten hsize i hplace,
          List.getElem?_eq_getElem hi', Option.bind_some, hcell, Option.map_some,
          placed_of_hasRoomFor hroom]

end Conversion

section Convert

variable {w : World} {truncates : Bool} {slot : SlotType} {v y z : Value}

theorem convert_single_iff (ho : slot.cell.isObject = false) :
    convert truncates ⟨slot.cell, []⟩ y w = .ok z w ↔
      ∃ c, Conversion.toCell w truncates slot.cell y = .ok c ∧ w.sameText y c = z := by
  have hn : ¬ (SlotType.mk slot.cell []).isNested = true := Bool.false_ne_true
  rw [convert_plain_ok_iff hn ho]
  exact and_iff_right rfl

theorem stored_sameText (ho : slot.cell.isObject = false) (c : Value) :
    slot.cell.stored (w.sameText y c) = slot.cell.stored c := by
  have hnot : ¬ slot.cell.isObject = true := by simp [ho]
  rw [CellType.stored, CellType.stored, if_neg hnot, if_neg hnot, item_sameText]

theorem CellType.accepts_allocated {t : CellType} {c : Value} (h : t.Accepts c) :
    t.allocated.Accepts c := by
  refine ⟨Content.admits_allocated h.1, ?_⟩
  have hroom := hasRoomFor_of_accepts h
  simp only [allocated]
  split
  · rename_i ht
    rw [ht] at hroom
    obtain ⟨s, rfl⟩ := ht ▸ h.1
    obtain rfl : s = "" := String.length_eq_zero_iff.mp (Nat.le_zero.mp hroom)
    rfl
  · rename_i ht
    rw [ht] at hroom
    obtain ⟨b, rfl⟩ := ht ▸ h.1
    obtain rfl : b = [] := List.length_eq_zero_iff.mp (Nat.le_zero.mp hroom)
    rfl
  · exact h.2

/-- The cells of a row that is converted without arrays are found at their indices. -/
theorem convert_of_isArrayFree (h : w.Sound) (hn : slot.isNested = true)
    (ho : slot.cell.isObject = false) (hp : slot.cell.content.IsProper)
    (hf : w.IsArrayFree (.plain v)) {cells : List Value}
    (hc : Conversion.toCells w truncates slot.cell slot.shape (.plain v) = .ok cells) :
    ∃ a u, convert truncates slot v w = .ok (.array a) u ∧
      (u.arrays.get a).type = slot.cell.allocated ∧ (u.arrays.get a).shape = slot.shape ∧
      ∀ path, InRange path slot.shape → path.length = slot.shape.length →
        cells[place slot.shape path]? = some (u.cellAt (u.arrays.get a) path) := by
  obtain ⟨a, u, hu, htype, hshape, hsame⟩ := convert_of_proper h hn hp hc
  have hrow : w.rowType slot v = slot.cell.allocated := by
    have hno := fun r => hf v r (.self v)
    simp only [World.rowType]
    split
    · rename_i r hr _
      exact absurd hr (hno r)
    · rename_i r hr _
      exact absurd hr (hno r)
    · rfl
  rw [hrow] at htype hsame
  have hsound : u.Sound := (convert_ok h hp hu).1
  have hgiven : ∀ c ∈ cells, slot.cell.allocated.Accepts c := fun c hmem =>
    CellType.accepts_allocated (Conversion.accepts_of_toCells hf hc c hmem)
  have hcells : u.cells (u.arrays.get a) = cells := by
    have hheld : ∀ c ∈ u.cells (u.arrays.get a), slot.cell.allocated.Accepts c := by
      have hwithin : u.Within (u.arrays.get a) := (hsound.shows a).within
      exact htype ▸ hwithin.accepts_cells hsound
    have hplain : slot.cell.allocated.isObject = false := by
      rw [← hrow, CellType.isObject]
      rcases rowType_cases w slot v with hr | ⟨-, n, hr⟩ | ⟨-, n, hr⟩ <;> rw [hr]
      · exact ho
      · rfl
      · rfl
    rw [List.map_congr_left fun c hmem => (hgiven c hmem).2, List.map_id'] at hsame
    exact eq_of_sameContent hplain hheld hgiven hsame
  have hencloses : u.Encloses (u.arrays.get a) :=
    (hsound.shows a).encloses (by rw [hshape]; simpa [SlotType.isNested] using hn)
  refine ⟨a, u, hu, htype, hshape, fun path hr hl => ?_⟩
  rw [← hshape] at hr hl ⊢
  have hcell : (u.cells ((u.arrays.get a).below []))[place _ path]? = _ :=
    getElem?_cells_below hencloses hr hl
  rwa [← hcells]

end Convert

/-- A value without arrays is converted for a nested slot exactly if it is a nest of the shape of the
slot and the values at the bottom are converted for single cells. Then each cell holds what the
conversion of the value with its indices gives, and otherwise the value does not fit. -/
theorem convert_nested {w : World} (hw : Reachable w) (truncates : Bool) {slot : SlotType}
    (hn : slot.isNested = true) (ho : slot.cell.isObject = false)
    (hp : slot.cell.content.IsProper) {v : Value} (hm : w.IsModerate (.plain v))
    (hf : w.IsArrayFree (.plain v)) :
    (w.Lifts truncates slot v → ∃ a u, convert truncates slot v w = .ok (.array a) u ∧
      (u.arrays.get a).type = slot.cell.allocated ∧ (u.arrays.get a).shape = slot.shape ∧
      ∀ path y z, InRange path slot.shape → path.length = slot.shape.length →
        w.valueAt? path v = some y → convert truncates ⟨slot.cell, []⟩ y w = .ok z w →
        u.cellAt (u.arrays.get a) path = slot.cell.stored z) ∧
    (¬ w.Lifts truncates slot v → ∃ value target reason u,
      convert truncates slot v w = .error (.cannotConvert value target reason) u) := by
  have hplain : w.ShowsOperand (.plain v) := True.intro
  cases hc : Conversion.toCells w truncates slot.cell slot.shape (.plain v) with
  | ok cells =>
    obtain ⟨hnest, hbottom⟩ := Conversion.nest_of_toCells hw.sound hf hc
    constructor
    · intro _
      obtain ⟨a, u, hu, htype, hshape, hcells⟩ :=
        convert_of_isArrayFree hw.sound hn ho hp hf hc
      refine ⟨a, u, hu, htype, hshape, fun path y z hr hl hy hz => ?_⟩
      obtain ⟨y', c, hy', hc, hcell⟩ := hbottom path hr hl
      rw [hy] at hy'
      cases hy'
      obtain ⟨c', hc', rfl⟩ := (convert_single_iff ho).mp hz
      rw [hc] at hc'
      cases hc'
      rw [hcells path hr hl] at hcell
      rw [stored_sameText ho, Option.some.inj hcell]
    · intro hno
      refine absurd ⟨hnest, fun path hr hl => ?_⟩ hno
      obtain ⟨y, c, hy, hc, -⟩ := hbottom path hr hl
      exact ⟨y, _, hy, (convert_single_iff ho).mpr ⟨c, hc, rfl⟩⟩
  | error e =>
    constructor
    · intro hlifts
      have hexists : ∃ cells,
          Conversion.toCells w truncates slot.cell slot.shape (.plain v) = .ok cells := by
        refine Conversion.exists_toCells hlifts.isNest fun path hr hl => ?_
        obtain ⟨y, z, hy, hz⟩ := hlifts.converts path hr hl
        obtain ⟨c, hc, -⟩ := (convert_single_iff ho).mp hz
        exact ⟨y, c, hy, hc⟩
      obtain ⟨cells, hcells⟩ := hexists
      rw [hc] at hcells
      cases hcells
    · intro _
      have hjudges : Conversion.Judges w
          (Conversion.toCells w truncates slot.cell slot.shape (.plain v)) :=
        (Conversion.toCells_faults hw.sound hplain hm).2 (Conversion.not_undecodable hf)
      rw [convert_of_refused hn hc]
      rcases decides_of_judges hjudges hc with ⟨x, u, hx⟩ | hfails
      · obtain ⟨f, l, hl⟩ := refuseWith_eq (α := Value) e w
        rw [hl] at hx
        cases hx
      · exact hfails

def crate : World := World.empty.afterAll [
  .newTuple [.bool true, .null], .newRecord [("length", .int 2), ("0", .int 7)],
  .newList [.tuple ⟨1⟩, .record ⟨0⟩]]

theorem reachable_crate : Reachable crate := by
  apply Reachable.start.afterAll
  simp [Operation.IsProper]

theorem itemsIn?_crate : crate.itemsIn? (.list ⟨0⟩) = some [.tuple ⟨1⟩, .record ⟨0⟩] ∧
    crate.itemsIn? (.tuple ⟨1⟩) = some [.bool true, .null] ∧
    crate.itemsIn? (.record ⟨0⟩) = some [.int 7, .undefined] := by
  decide +kernel

def partsOfCrate : List Value :=
  [.list ⟨0⟩, .tuple ⟨1⟩, .record ⟨0⟩, .bool true, .null, .int 2, .int 7, .undefined]

theorem mem_partsOfCrate {x v : Value} (h : crate.HasPart (.plain x) v) (hx : x ∈ partsOfCrate) :
    v ∈ partsOfCrate := by
  have hcontent : ∀ x ∈ partsOfCrate, crate.contentOf (.plain x) = .plain x := by
    intro x hx
    simp only [partsOfCrate, List.mem_cons, List.not_mem_nil, or_false] at hx
    rcases hx with rfl | rfl | rfl | rfl | rfl | rfl | rfl | rfl <;> rfl
  have hlist : ∀ y ∈ crate.lists.get ⟨0⟩, y ∈ partsOfCrate := by decide
  have htuple : ∀ y ∈ crate.tuples.get ⟨1⟩, y ∈ partsOfCrate := by decide
  have hentry : ∀ name, (crate.records.get ⟨0⟩).getD name .undefined ∈ partsOfCrate := by
    intro name
    rw [Entries.getD, Entries.get?]
    cases hp : (crate.records.get ⟨0⟩).find? (·.1 == name) with
    | none => decide
    | some p =>
      have hall : ∀ p ∈ crate.records.get ⟨0⟩, p.2 ∈ partsOfCrate := by decide
      exact hall p (List.mem_of_find?_eq_some hp)
  generalize hgiven : Operand.plain x = given at h
  induction h generalizing x with
  | self v =>
    cases hgiven
    exact hx
  | @listItem _ r _ _ hg hy _ ih =>
    obtain rfl : x = .list r := by simpa [← hgiven, hcontent x hx] using hg
    obtain rfl : r = ⟨0⟩ := by simpa [partsOfCrate] using hx
    exact ih (hlist _ hy) rfl
  | @tupleItem _ r _ _ hg hy _ ih =>
    obtain rfl : x = .tuple r := by simpa [← hgiven, hcontent x hx] using hg
    obtain rfl : r = ⟨1⟩ := by simpa [partsOfCrate] using hx
    exact ih (htuple _ hy) rfl
  | @entry _ r _ name hg _ ih =>
    obtain rfl : x = .record r := by simpa [← hgiven, hcontent x hx] using hg
    obtain rfl : r = ⟨0⟩ := by simpa [partsOfCrate] using hx
    exact ih (hentry name) rfl
  | slot hg => simp [← hgiven, hcontent x hx] at hg

theorem isLegible_crate : crate.IsLegible (.list ⟨0⟩) := by
  refine isLegible_of_mem partsOfCrate ?_ _ List.mem_cons_self
  decide +kernel

theorem isModerate_crate : crate.IsModerate (.plain (.list ⟨0⟩)) := by
  refine ⟨fun v hv => ?_, isLegible_crate⟩
  have hmem := mem_partsOfCrate hv List.mem_cons_self
  have hsmall : ∀ v ∈ partsOfCrate, ¬ crate.Oversized v := by
    have hint : ∀ n : Nat, n < Double.bound → ¬ crate.Oversized (.int n) := fun n hn h =>
      absurd ((oversized_int_iff rfl).mp h) (by omega)
    intro v hv
    simp only [partsOfCrate, List.mem_cons, List.not_mem_nil, or_false] at hv
    rcases hv with rfl | rfl | rfl | rfl | rfl | rfl | rfl | rfl
    case inr.inr.inr.inr.inr.inl => exact hint 2 (by decide +kernel)
    case inr.inr.inr.inr.inr.inr.inl => exact hint 7 (by decide +kernel)
    all_goals exact not_oversized nofun nofun nofun
  have hitem : ∀ v ∈ partsOfCrate, (crate.hostValue v).item = v := by decide
  rw [hitem v hmem]
  exact ⟨hsmall v hmem, hsmall v hmem⟩

theorem isArrayFree_crate : crate.IsArrayFree (.plain (.list ⟨0⟩)) := by
  have hitem : ∀ v ∈ partsOfCrate, ∀ r, (crate.hostValue v).item ≠ .array r := by
    intro v hv r
    simp only [partsOfCrate, List.mem_cons, List.not_mem_nil, or_false] at hv
    rcases hv with rfl | rfl | rfl | rfl | rfl | rfl | rfl | rfl <;> exact nofun
  exact fun v r hv => hitem v (mem_partsOfCrate hv List.mem_cons_self) r

/-- The list is converted for two rows of two cells each, and not for two rows of three. -/
theorem convert_mixed_nest :
    (∃ a u, convert false ⟨.native .bool, [2, 2]⟩ (.list ⟨0⟩) crate = .ok (.array a) u ∧
      u.cellAt (u.arrays.get a) [1, 0] = .bool true ∧
      u.cellAt (u.arrays.get a) [1, 1] = .bool false) ∧
    ∃ value target reason u, convert false ⟨.native .bool, [2, 3]⟩ (.list ⟨0⟩) crate =
      .error (.cannotConvert value target reason) u := by
  have hpair : (SlotType.mk (.native .bool) [2, 2]).isNested = true := rfl
  have htriple : (SlotType.mk (.native .bool) [2, 3]).isNested = true := rfl
  have hplain : (CellType.native .bool).isObject = false := rfl
  obtain ⟨hlist, htuple, hrecord⟩ := itemsIn?_crate
  constructor
  · have hlifts : crate.Lifts false ⟨.native .bool, [2, 2]⟩ (.list ⟨0⟩) := by
      constructor
      · refine ⟨_, hlist, rfl, ?_⟩
        rintro x (- | ⟨-, - | ⟨-, ⟨⟩⟩⟩)
        · exact ⟨_, htuple, rfl, fun y _ => True.intro⟩
        · exact ⟨_, hrecord, rfl, fun y _ => True.intro⟩
      · intro path hr hl
        obtain ⟨i, j, rfl⟩ := List.length_eq_two.mp hl
        obtain ⟨hi, hj, -⟩ := hr
        interval_cases i <;> interval_cases j <;>
          simp only [valueAt?, hlist, htuple, hrecord, Option.bind_some, List.getElem?_cons_zero,
            List.getElem?_cons_succ] <;>
          exact ⟨_, _, rfl, rfl⟩
    obtain ⟨a, u, hu, -, -, hcells⟩ := (convert_nested reachable_crate false hpair hplain True.intro
      isModerate_crate isArrayFree_crate).1 hlifts
    have hleft : InRange [1, 0] [2, 2] := ⟨by decide, by decide, True.intro⟩
    have hright : InRange [1, 1] [2, 2] := ⟨by decide, by decide, True.intro⟩
    have hvalues : crate.valueAt? [1, 0] (.list ⟨0⟩) = some (.int 7) ∧
        crate.valueAt? [1, 1] (.list ⟨0⟩) = some .undefined := by
      constructor <;> simp only [valueAt?, hlist, hrecord, Option.bind_some,
        List.getElem?_cons_zero, List.getElem?_cons_succ]
    refine ⟨a, u, hu, ?_, ?_⟩
    · exact hcells [1, 0] (.int 7) (.bool true) hleft rfl hvalues.1 rfl
    · exact hcells [1, 1] .undefined (.bool false) hright rfl hvalues.2 rfl
  · refine (convert_nested reachable_crate false htriple hplain True.intro isModerate_crate
      isArrayFree_crate).2 ?_
    rintro ⟨⟨items, hitems, -, hrows⟩, -⟩
    obtain rfl := Option.some.inj (hlist.symm.trans hitems)
    obtain ⟨row, hrow, hlength, -⟩ := hrows (.tuple ⟨1⟩) List.mem_cons_self
    obtain rfl := Option.some.inj (htuple.symm.trans hrow)
    cases hlength

end ScriptedArrays
