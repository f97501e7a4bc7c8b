import ScriptedArrays.Proofs.Objects

/-! Conversion. A value that is converted for a nested slot is either cast as a whole or taken
apart into one item for each row. Either way it gives one cell for each place of the slot, and
each of them is admitted by the type of the cells. -/

namespace ScriptedArrays

open World

theorem SlotType.name_plain {slot : SlotType} (hs : slot.shape = []) : slot.name = slot.cell.name := by
  rw [SlotType.name, hs]
  exact String.append_empty

def World.ShowsOperand (w : World) : Operand → Prop
  | .window win => w.Shows win
  | .plain _ => True

namespace Conversion

variable {w : World} {truncates : Bool} {cell : CellType}

theorem shows_operand (h : w.Sound) (v : Value) : w.ShowsOperand (w.operand v) := by
  simp only [World.operand]
  split
  · exact h.shows _
  · exact True.intro

theorem shows_contentOf (h : w.Sound) {given : Operand} (hg : w.ShowsOperand given) :
    w.ShowsOperand (w.contentOf given) := by
  cases given with
  | plain v => exact shows_operand h _
  | window win => exact hg

theorem shows_operands {win : Window} (hw : w.Shows win) : ∀ x ∈ w.operands win, w.ShowsOperand x := by
  intro x hx
  obtain ⟨i, hi, rfl⟩ := List.mem_map.mp hx
  split
  · exact True.intro
  · exact hw.row (List.mem_range.mp hi)

theorem shows_plain (vs : List Value) : ∀ x ∈ vs.map Operand.plain, w.ShowsOperand x := by
  intro x hx
  obtain ⟨v, -, rfl⟩ := List.mem_map.mp hx
  exact True.intro

theorem shows_numberedItems (e : Entries) (n : Nat) :
    ∀ x ∈ numberedItems e n, w.ShowsOperand x := by
  intro x hx
  obtain ⟨i, -, rfl⟩ := List.mem_map.mp hx
  exact True.intro

inductive Rows (w : World) (cell : CellType) (n : Nat) (shape : List Nat) (given : Operand) :
    List Operand → Prop
  | list {r : Ref .list} (hg : w.contentOf given = .plain (.list r))
      (hn : (w.lists.get r).length = n) : Rows w cell n shape given ((w.lists.get r).map .plain)
  | tuple {r : Ref .tuple} (hg : w.contentOf given = .plain (.tuple r))
      (hn : (w.tuples.get r).length = n) : Rows w cell n shape given ((w.tuples.get r).map .plain)
  | record {r : Ref .record} {v : Value} {x : Double} {k : Int}
      (hg : w.contentOf given = .plain (.record r)) (hv : (w.records.get r).get? "length" = some v)
      (hx : w.numberOf v = .ok x) (hk : x.truncate? = some k) (hpos : x.less .zero = false)
      (hn : k.toNat = n) : Rows w cell n shape given (numberedItems (w.records.get r) n)
  | window {win : Window} (hg : w.contentOf given = .window win) (hs : win.shape = n :: shape)
      (hk : win.type.content.castsWithinKind cell.content = true)
      (hno : win.type.content.castsSafely cell.content = false) :
      Rows w cell n shape given (w.operands win)

section Rows

variable {n : Nat} {shape : List Nat} {given : Operand} {win : Window} {items : List Operand}

theorem length_operands (w : World) (hs : win.shape = n :: shape) : (w.operands win).length = n := by
  rw [World.operands, List.length_map, List.length_range, Window.length, hs]
  rfl

theorem length_numberedItems (e : Entries) (n : Nat) : (numberedItems e n).length = n := by
  rw [numberedItems, List.length_map, List.length_range]

theorem length_rows (h : Rows w cell n shape given items) : items.length = n := by
  cases h with
  | list hg hn => rwa [List.length_map]
  | tuple hg hn => rwa [List.length_map]
  | record => exact length_numberedItems _ n
  | window hg hs => exact length_operands w hs

theorem shows_rows (hw : w.Sound) (hg : w.ShowsOperand given) (h : Rows w cell n shape given items) :
    ∀ x ∈ items, w.ShowsOperand x := by
  cases h with
  | list => exact shows_plain _
  | tuple => exact shows_plain _
  | record => exact shows_numberedItems _ _
  | window hwin =>
    have hshows := shows_contentOf hw hg
    rw [hwin] at hshows
    exact shows_operands hshows

theorem toCells_of_narrowing (hg : w.contentOf given = .window win)
    (hs : win.shape = n :: shape) (hk : win.type.content.castsWithinKind cell.content = true)
    (hno : win.type.content.castsSafely cell.content = false) :
    toCells w truncates cell (n :: shape) given =
      (do .ok ((← each (toCells w truncates cell shape) (w.operands win)).map (placed cell))) := by
  rw [toCells, hg]
  dsimp only
  rw [if_neg (not_not.mpr hs), hk, hno, if_pos (length_operands w hs)]
  rfl

theorem toCells_of_safe (hg : w.contentOf given = .window win) (hs : win.shape = n :: shape)
    (hsafe : win.type.content.castsSafely cell.content = true) :
    toCells w truncates cell (n :: shape) given =
      lift ((w.cells win).mapM (castCell win.type cell.content)) := by
  rw [toCells, hg]
  dsimp only
  rw [if_neg (not_not.mpr hs), Content.castsWithinKind_of_castsSafely hsafe, hsafe]
  rfl

/-- A value that is taken apart is converted row by row. -/
theorem toCells_of_rows (h : Rows w cell n shape given items) :
    toCells w truncates cell (n :: shape) given =
      (do .ok ((← each (toCells w truncates cell shape) items).map (placed cell))) := by
  cases h with
  | list hg hn =>
    rw [toCells, hg]
    dsimp only
    rw [if_pos (by rwa [List.length_map])]
  | tuple hg hn =>
    rw [toCells, hg]
    dsimp only
    rw [if_pos (by rwa [List.length_map])]
  | record hg hv hx hk hpos hn =>
    rw [toCells, hg]
    dsimp only
    rw [hv]
    dsimp only
    rw [hx]
    dsimp only [lift, bind, Except.bind]
    rw [hk]
    dsimp only
    rw [hpos, if_neg Bool.false_ne_true, if_pos hn, if_pos (length_numberedItems _ n)]
  | window hg hs hk hno => exact toCells_of_narrowing hg hs hk hno

/-- A value is cast as a whole or taken apart into rows. Otherwise it does not fit, or its length has
no number. -/
theorem toCells_cases (w : World) (truncates : Bool) (cell : CellType) (n : Nat) (shape : List Nat)
    (given : Operand) :
    (∃ win, w.contentOf given = .window win ∧ win.shape = n :: shape ∧
      win.type.content.castsSafely cell.content = true) ∨
    (∃ items, Rows w cell n shape given items) ∨
    (∃ reason, toCells w truncates cell (n :: shape) given =
      .error (.unfit given (SlotType.name ⟨cell, n :: shape⟩) reason)) ∨
    ∃ r v f, w.contentOf given = .plain (.record r) ∧ (w.records.get r).get? "length" = some v ∧
      w.numberOf v = .error f ∧ toCells w truncates cell (n :: shape) given = .error (.host f) := by
  rw [toCells]
  dsimp only
  split
  · next win hg =>
    by_cases hs : win.shape = n :: shape
    · rw [if_neg (not_not.mpr hs)]
      cases hk : win.type.content.castsWithinKind cell.content with
      | false => exact .inr (.inr (.inl ⟨_, rfl⟩))
      | true =>
        cases hsafe : win.type.content.castsSafely cell.content with
        | true => exact .inl ⟨win, hg, hs, hsafe⟩
        | false => exact .inr (.inl ⟨_, .window hg hs hk hsafe⟩)
    · rw [if_pos hs]
      exact .inr (.inr (.inl ⟨_, rfl⟩))
  · next r hg =>
    by_cases hn : (w.lists.get r).length = n
    · exact .inr (.inl ⟨_, .list hg hn⟩)
    · rw [if_neg (by rwa [List.length_map])]
      exact .inr (.inr (.inl ⟨_, rfl⟩))
  · next r hg =>
    by_cases hn : (w.tuples.get r).length = n
    · exact .inr (.inl ⟨_, .tuple hg hn⟩)
    · rw [if_neg (by rwa [List.length_map])]
      exact .inr (.inr (.inl ⟨_, rfl⟩))
  · next r hg =>
    cases hv : (w.records.get r).get? "length" with
    | none => exact .inr (.inr (.inl ⟨_, rfl⟩))
    | some v =>
      dsimp only
      cases hx : w.numberOf v with
      | error f => exact .inr (.inr (.inr ⟨r, v, f, hg, hv, hx, rfl⟩))
      | ok x =>
        dsimp only [lift, bind, Except.bind]
        cases hk : x.truncate? with
        | none => exact .inr (.inr (.inl ⟨_, rfl⟩))
        | some k =>
          dsimp only
          cases hpos : x.less .zero with
          | true => exact .inr (.inr (.inl ⟨_, rfl⟩))
          | false =>
            rw [if_neg Bool.false_ne_true]
            by_cases hn : k.toNat = n
            · exact .inr (.inl ⟨_, .record hg hv hx hk hpos hn⟩)
            · rw [if_neg hn]
              exact .inr (.inr (.inl ⟨_, rfl⟩))
  · exact .inr (.inr (.inl ⟨_, rfl⟩))

end Rows

theorem ok_of_each {convert : Operand → Except Refusal (List Value)} {items : List Operand}
    {cells : List Value} (h : each convert items = .ok cells) :
    ∃ parts, cells = parts.flatten ∧
      List.Forall₂ (fun x part => convert x = .ok part) items parts := by
  induction items generalizing cells with
  | nil =>
    cases h
    exact ⟨[], rfl, .nil⟩
  | cons x xs ih =>
    obtain ⟨part, hpart, h⟩ := ok_of_bind h
    obtain ⟨rest, hrest, h⟩ := ok_of_bind h
    obtain ⟨parts, rfl, hparts⟩ := ih hrest
    cases h
    exact ⟨part :: parts, rfl, .cons hpart hparts⟩

/-- A value that was converted for a nested slot was cast as a whole, or taken apart. -/
theorem ok_of_toCells (h : w.Sound) {n : Nat} {shape : List Nat} {given : Operand}
    {cells : List Value} (hg : w.ShowsOperand given)
    (hc : toCells w truncates cell (n :: shape) given = .ok cells) :
    (∃ win, w.contentOf given = .window win ∧ w.Shows win ∧ win.shape = n :: shape ∧
      win.type.content.castsSafely cell.content = true ∧
      (w.cells win).mapM (castCell win.type cell.content) = .ok cells) ∨
    ∃ items parts, items.length = n ∧ (∀ x ∈ items, w.ShowsOperand x) ∧
      each (toCells w truncates cell shape) items = .ok parts ∧ cells = parts.map (placed cell) := by
  rcases toCells_cases w truncates cell n shape given with
    ⟨win, hwin, hs, hsafe⟩ | ⟨items, hrows⟩ | ⟨_, hunfit⟩ | ⟨_, _, _, _, _, _, hfault⟩
  · have hshows := shows_contentOf h hg
    rw [hwin] at hshows
    refine .inl ⟨win, hwin, hshows, hs, hsafe, ?_⟩
    rw [toCells_of_safe hwin hs hsafe] at hc
    cases hm : (w.cells win).mapM (castCell win.type cell.content) with
    | error f =>
      rw [hm] at hc
      cases hc
    | ok xs =>
      rw [hm] at hc
      cases hc
      rfl
  · rw [toCells_of_rows hrows] at hc
    obtain ⟨parts, hparts, hc⟩ := ok_of_bind hc
    cases hc
    exact .inr ⟨items, parts, length_rows hrows, shows_rows h hg hrows, hparts, rfl⟩
  · rw [hunfit] at hc
    cases hc
  · rw [hfault] at hc
    cases hc

/-- A converted value has one cell for each place of the slot. -/
theorem length_of_toCells (h : w.Sound) {shape : List Nat} {given : Operand} {cells : List Value}
    (hg : w.ShowsOperand given) (hc : toCells w truncates cell shape given = .ok cells) :
    cells.length = cellCount shape := by
  induction shape generalizing given cells with
  | nil =>
    cases given with
    | plain v =>
      obtain ⟨x, -, hc⟩ := ok_of_bind hc
      cases hc
      rfl
    | window win => cases hc
  | cons n shape ih =>
    rcases ok_of_toCells h hg hc with ⟨win, -, hw, hshape, -, hcells⟩ | ⟨items, parts, hlen, hi, hp, rfl⟩
    · rw [← (forall₂_of_mapM hcells).length_eq,
        length_cells (hw.encloses (by rw [hshape]; exact List.cons_ne_nil _ _)), Window.size, hshape]
    · obtain ⟨rows, rfl, hrows⟩ := ok_of_each hp
      have hall : ∀ row ∈ rows, row.length = cellCount shape := by
        intro row hrow
        obtain ⟨x, hx, hxr⟩ := exists_of_forall₂ hrows hrow
        exact ih (hi x hx) hxr
      rw [List.length_map, List.length_flatten, List.map_congr_left hall, cellCount_cons, ← hlen,
        hrows.length_eq]
      simp

theorem admits_placed {v : Value} (hv : cell.content.Admits v) :
    cell.content.Admits (placed cell v) := by
  simp only [placed]
  split
  · rename_i hc
    rw [hc]
    exact ⟨_, rfl⟩
  · rename_i hc
    rw [hc]
    exact ⟨_, rfl⟩
  · exact hv

/-- A converted value has cells that their type admits. -/
theorem admits_of_toCells (h : w.Sound) (hp : cell.content.IsProper) {shape : List Nat}
    {given : Operand} {cells : List Value} (hg : w.ShowsOperand given)
    (hc : toCells w truncates cell shape given = .ok cells) :
    ∀ v ∈ cells, cell.content.Admits v := by
  induction shape generalizing given cells with
  | nil =>
    cases given with
    | plain v =>
      obtain ⟨x, hx, hc⟩ := ok_of_bind hc
      cases hc
      intro v hv
      rw [List.mem_singleton.mp hv]
      exact (accepts_of_toCell hx).1
    | window win => cases hc
  | cons n shape ih =>
    rcases ok_of_toCells h hg hc with ⟨win, -, hw, -, hsafe, hcells⟩ | ⟨items, parts, -, hi, hp, rfl⟩
    · intro v hv
      obtain ⟨x, hx, hxv⟩ := exists_of_forall₂ (forall₂_of_mapM hcells) hv
      exact admits_castCell (hw.within.regular h).2 hp (hw.within.accepts_cells h x hx).1 hsafe hxv
    · intro v hv
      obtain ⟨x, hx, rfl⟩ := List.mem_map.mp hv
      obtain ⟨rows, rfl, hrows⟩ := ok_of_each hp
      obtain ⟨row, hrow, hxrow⟩ := List.mem_flatten.mp hx
      obtain ⟨item, hitem, hconv⟩ := exists_of_forall₂ hrows hrow
      exact admits_placed (ih (hi item hitem) hconv x hxrow)

end Conversion

theorem regular_rowType {w : World} (h : w.Sound) {slot : SlotType}
    (hp : slot.cell.content.IsProper) (v : Value) : (w.rowType slot v).IsRegular := by
  have htext : ∀ r n, (w.arrays.get r).type.content.textWidth? = some n → n ≠ 0 := by
    rintro r n hn rfl
    exact CellType.textWidth_ne_zero (h.regular r) hn
  simp only [World.rowType]
  split
  · split
    · rename_i n hn
      refine ⟨CellType.content_allocated ?_ (by simp), True.intro⟩
      simpa using htext _ n hn
    · exact CellType.regular_allocated hp
  · split
    · rename_i n hn
      refine ⟨CellType.content_allocated (by simp) ?_, True.intro⟩
      simpa using htext _ n hn
    · exact CellType.regular_allocated hp
  · exact CellType.regular_allocated hp

/-- The cells of a row have the type of the slot, or a capacity of their own if that has none. -/
theorem rowType_cases (w : World) (slot : SlotType) (v : Value) :
    w.rowType slot v = slot.cell ∨
    (slot.cell.content = .text 0 ∧ ∃ n, w.rowType slot v = { slot.cell with content := .text n }) ∨
    (slot.cell.content = .bytes 0 ∧
      ∃ n, w.rowType slot v = { slot.cell with content := .bytes n }) := by
  by_cases ht : slot.cell.content = .text 0
  · refine .inr (.inl ⟨ht, ?_⟩)
    simp only [World.rowType, CellType.allocated, ht]
    split
    · split <;> exact ⟨_, rfl⟩
    · rename_i hb
      cases hb
    · exact ⟨_, rfl⟩
  by_cases hb : slot.cell.content = .bytes 0
  · refine .inr (.inr ⟨hb, ?_⟩)
    simp only [World.rowType, CellType.allocated, hb]
    split
    · rename_i ht
      cases ht
    · split <;> exact ⟨_, rfl⟩
    · exact ⟨_, rfl⟩
  · left
    simp only [World.rowType]
    split
    · rename_i h
      exact absurd h ht
    · rename_i h
      exact absurd h hb
    · exact CellType.content_allocated ht hb

theorem admits_rowType {w : World} {slot : SlotType} {x : Value} (v : Value)
    (hx : slot.cell.content.Admits x) : (w.rowType slot v).content.Admits x := by
  rcases rowType_cases w slot v with h | ⟨hc, n, h⟩ | ⟨hc, n, h⟩ <;> rw [h]
  · exact hx
  · rw [hc] at hx
    exact hx
  · rw [hc] at hx
    exact hx

theorem rowType_of_regular {w : World} {slot : SlotType} (hr : slot.cell.IsRegular) (v : Value) :
    w.rowType slot v = slot.cell := by
  obtain ⟨ht, hb⟩ := CellType.ne_empty_of_regular hr
  rcases rowType_cases w slot v with h | ⟨hc, -⟩ | ⟨hc, -⟩
  · exact h
  · exact absurd hc ht
  · exact absurd hc hb

theorem castsSafely_rowType (w : World) (slot : SlotType) (v : Value) :
    (w.rowType slot v).content.castsSafely slot.cell.content = true := by
  rcases rowType_cases w slot v with h | ⟨hc, n, h⟩ | ⟨hc, n, h⟩ <;> rw [h]
  · exact Content.castsSafely_self _
  · rw [hc]
    cases n <;> rfl
  · rw [hc]
    cases n <;> rfl

theorem castCell_rowType {w : World} {slot : SlotType} {v x : Value}
    (hx : (w.rowType slot v).content.Admits x) :
    Conversion.castCell (w.rowType slot v) slot.cell.content x = .ok x := by
  rcases rowType_cases w slot v with h | ⟨hc, n, h⟩ | ⟨hc, n, h⟩ <;> rw [h] at hx ⊢
  · exact Conversion.castCell_self hx
  · obtain ⟨s, rfl⟩ := hx
    rw [hc]
    rfl
  · obtain ⟨b, rfl⟩ := hx
    rw [hc]
    rfl

/-- Nothing but new cells and what is logged may differ. -/
structure World.Adds (w w' : World) : Prop where
  extends_ : w.Extends w'
  buffers : ∀ b, w.buffers.Has b → w'.buffers.get b = w.buffers.get b
  views : w'.views = w.views
  presenters : w'.presenters = w.presenters
  log : w'.log = w.log

theorem World.Adds.refl (w : World) : w.Adds w := ⟨.refl w, fun _ _ => rfl, rfl, rfl, rfl⟩

theorem refuseWith_apply {α : Type} {given : Operand} {w : World}
    (hq : w.quotableOperand given = true) (target reason : String) :
    (refuseWith (.unfit given target reason) : Action α) w =
      (do logEvent (.conversionFailed (w.quoteOperand given) target reason)
          fail (.cannotConvert (w.quoteOperand given) target reason) : Action α) w := by
  have htext : w.quoteOperand? given = .ok (w.quoteOperand given) := by
    rw [World.quoteOperand?, hq, Display.written, if_pos rfl]
  rw [refuseWith, get_bind_apply, htext]
  rfl

theorem refuseWith_unfit {α : Type} {given : Operand} {w : World}
    (hq : w.quotableOperand given = true) (target reason : String) :
    ∃ l, (refuseWith (.unfit given target reason) : Action α) w =
      .error (.cannotConvert (w.quoteOperand given) target reason) { w with log := l } := by
  obtain ⟨l, hl⟩ := logEvent_eq (.conversionFailed (w.quoteOperand given) target reason) w
  exact ⟨l, (refuseWith_apply hq target reason).trans (bind_apply_of_ok _ hl)⟩

theorem refuseWith_unwritten {α : Type} {given : Operand} {w : World}
    (hq : w.quotableOperand given = false) (target reason : String) :
    (refuseWith (.unfit given target reason) : Action α) w = .error (.host .value) w := by
  have htext : w.quoteOperand? given = .error .value := by
    rw [World.quoteOperand?, hq, Display.written, if_neg Bool.false_ne_true]
  rw [refuseWith, get_bind_apply, htext]
  rfl

theorem refuseWith_plain {α : Type} {v : Value} {w : World} (hq : w.quotable v = true)
    (target reason : String) : ∃ l, (refuseWith (.unfit (.plain v) target reason) : Action α) w =
      .error (.cannotConvert (w.quote v) target reason) { w with log := l } := by
  have hoperand : w.quotableOperand (.plain v) = true := hq
  exact refuseWith_unfit hoperand target reason

theorem refuseWith_plain_unwritten {α : Type} {v : Value} {w : World} (hq : w.quotable v = false)
    (target reason : String) : (refuseWith (.unfit (.plain v) target reason) : Action α) w =
      .error (.host .value) w := by
  have hoperand : w.quotableOperand (.plain v) = false := hq
  exact refuseWith_unwritten hoperand target reason

theorem refuseWith_eq {α : Type} (r : Refusal) (w : World) :
    ∃ f l, (refuseWith r : Action α) w = .error f { w with log := l } := by
  cases r with
  | host f => exact ⟨.host f, w.log, rfl⟩
  | unfit given target reason =>
    cases hq : w.quotableOperand given with
    | true => exact ⟨_, refuseWith_unfit hq target reason⟩
    | false => exact ⟨_, w.log, refuseWith_unwritten hq target reason⟩

section Convert

variable {truncates : Bool} {slot : SlotType} {v : Value} {w : World}

theorem reusable?_eq_some_iff {type : CellType} {shape : List Nat} {r : Ref .array} :
    w.reusable? type shape v = some r ↔ (w.hostValue v).item = .array r ∧
      (w.arrays.get r).type = type ∧ (w.arrays.get r).shape = shape := by
  unfold World.reusable?
  split
  · rename_i q hq
    dsimp only
    constructor
    · intro h
      split at h
      · rename_i heq
        cases h
        simp only [Bool.and_eq_true, beq_iff_eq] at heq
        exact ⟨hq, heq⟩
      · cases h
    · rintro ⟨hr, ht, hs⟩
      obtain rfl : q = r := Value.array.inj (hq.symm.trans hr)
      rw [if_pos (by simp [ht, hs])]
  · rename_i hno
    exact iff_of_false nofun fun h => hno r h.1

theorem convert_of_refused {r : Refusal} (hn : slot.isNested = true)
    (hc : Conversion.toCells w truncates slot.cell slot.shape (.plain v) = .error r) :
    convert truncates slot v w = refuseWith r w := by
  rw [convert, get_bind_apply, if_pos hn, hc]

theorem convert_of_reusable {cells : List Value} {r : Ref .array} (hn : slot.isNested = true)
    (hc : Conversion.toCells w truncates slot.cell slot.shape (.plain v) = .ok cells)
    (hr : w.reusable? (w.rowType slot v) slot.shape v = some r) :
    convert truncates slot v w = .ok (.array r) w := by
  rw [convert, get_bind_apply, if_pos hn, hc]
  simp only [hr]
  rfl

theorem convert_of_new {cells : List Value} (hn : slot.isNested = true)
    (hc : Conversion.toCells w truncates slot.cell slot.shape (.plain v) = .ok cells)
    (hr : w.reusable? (w.rowType slot v) slot.shape v = none) :
    convert truncates slot v w =
      (newArray (w.rowType slot v) slot.shape cells >>= fun r => pure (.array r)) w := by
  rw [convert, get_bind_apply, if_pos hn, hc]
  simp only [hr]

theorem convert_plain_refused {r : Refusal} (hn : ¬ slot.isNested = true)
    (hc : Conversion.toCell w truncates slot.cell v = .error r) :
    convert truncates slot v w = refuseWith r w := by
  rw [convert, get_bind_apply, if_neg hn, hc]

theorem convert_plain {x : Value} (hn : ¬ slot.isNested = true)
    (hc : Conversion.toCell w truncates slot.cell v = .ok x) :
    convert truncates slot v w = .ok (if slot.cell.isObject then x else w.sameText v x) w := by
  rw [convert, get_bind_apply, if_neg hn, hc]
  rfl

theorem convert_plain_ok_iff (hn : ¬ slot.isNested = true) (ho : slot.cell.isObject = false)
    {x : Value} {u : World} : convert truncates slot v w = .ok x u ↔
      u = w ∧ ∃ c, Conversion.toCell w truncates slot.cell v = .ok c ∧ w.sameText v c = x := by
  cases hc : Conversion.toCell w truncates slot.cell v with
  | ok c =>
    rw [convert_plain hn hc, if_neg (by simp [ho])]
    constructor
    · intro h
      cases h
      exact ⟨rfl, c, rfl, rfl⟩
    · rintro ⟨rfl, d, hd, rfl⟩
      cases hd
      rfl
  | error e =>
    obtain ⟨f, l, hf⟩ := refuseWith_eq (α := Value) e w
    rw [convert_plain_refused hn hc, hf]
    refine iff_of_false nofun ?_
    rintro ⟨-, d, hd, -⟩
    cases hd

theorem item_sameText (x : Value) : (w.sameText v x).item = x.item := by
  unfold World.sameText
  dsimp only
  split
  · rfl
  · rfl
  · split
    · rename_i hc
      rw [Value.item, hc]
      rfl
    · rfl
  · rfl

/-- What a conversion does. If it fails it only logs, and otherwise it gives a content that the
cells of the slot accept, or an array of the shape of the slot. -/
theorem convert_cases (truncates : Bool) (v : Value) (h : w.Sound) (hp : slot.cell.content.IsProper) :
    (∃ f l, convert truncates slot v w = .error f { w with log := l }) ∨
    (slot.isNested = false ∧ ∃ x, convert truncates slot v w = .ok x w ∧
      slot.cell.Accepts (slot.cell.stored x)) ∨
    (slot.isNested = true ∧ ∃ r w', convert truncates slot v w = .ok (.array r) w' ∧ w'.Sound ∧
      w.Adds w' ∧ w'.arrays.Has r ∧ (w'.arrays.get r).type = w.rowType slot v ∧
      (w'.arrays.get r).shape = slot.shape) := by
  by_cases hn : slot.isNested = true
  · cases hc : Conversion.toCells w truncates slot.cell slot.shape (.plain v) with
    | error r =>
      rw [convert_of_refused hn hc]
      exact .inl (refuseWith_eq r w)
    | ok cells =>
      right; right
      refine ⟨hn, ?_⟩
      cases hr : w.reusable? (w.rowType slot v) slot.shape v with
      | some r =>
        rw [convert_of_reusable hn hc hr]
        obtain ⟨-, htype, hshape⟩ := reusable?_eq_some_iff.mp hr
        refine ⟨r, w, rfl, h, .refl w, ?_, htype, hshape⟩
        by_contra hno
        rw [Store.get_of_not_has _ hno] at hshape
        rw [SlotType.isNested, ← hshape] at hn
        cases hn
      | none =>
        have hplain : w.ShowsOperand (.plain v) := True.intro
        have hadmits : ∀ x ∈ cells, (w.rowType slot v).content.Admits x := fun x hx =>
          admits_rowType v (Conversion.admits_of_toCells h hp hplain hc x hx)
        obtain ⟨u, hu, hs, he, hhas, hget, hbuf, -, hv, hpr, hl⟩ :=
          newArray_spec h slot.shape (regular_rowType h hp v) hadmits
        rw [convert_of_new hn hc hr, bind_apply_of_ok _ hu]
        refine ⟨_, u, rfl, hs, ⟨he, hbuf, hv, hpr, hl⟩, hhas, ?_⟩
        rw [hget]
        exact ⟨rfl, rfl⟩
  · cases hc : Conversion.toCell w truncates slot.cell v with
    | error r =>
      rw [convert_plain_refused hn hc]
      exact .inl (refuseWith_eq r w)
    | ok x =>
      right; left
      refine ⟨by simpa using hn, _, convert_plain hn hc, ?_⟩
      have hacc := Conversion.accepts_of_toCell hc
      split
      · exact hacc
      · rename_i ho
        rw [CellType.stored, if_neg ho] at hacc ⊢
        rw [item_sameText]
        exact hacc

theorem convert_ok {x : Value} {w' : World} (h : w.Sound) (hp : slot.cell.content.IsProper)
    (hx : convert truncates slot v w = .ok x w') : w'.Sound ∧ w.Adds w' := by
  rcases convert_cases truncates v h hp with
    ⟨f, l, hf⟩ | ⟨-, y, hy, -⟩ | ⟨-, q, u, hu, hs, ha, -⟩
  · rw [hf] at hx
    cases hx
  · rw [hy] at hx
    cases hx
    exact ⟨h, .refl w⟩
  · rw [hu] at hx
    cases hx
    exact ⟨hs, ha⟩

theorem convert_error {f : Fault} {w' : World} (h : w.Sound) (hp : slot.cell.content.IsProper)
    (hf : convert truncates slot v w = .error f w') : w' = { w with log := w'.log } := by
  rcases convert_cases truncates v h hp with
    ⟨g, l, hg⟩ | ⟨-, y, hy, -⟩ | ⟨-, q, u, hu, -⟩
  · rw [hg] at hf
    cases hf
    rfl
  · rw [hy] at hf
    cases hf
  · rw [hu] at hf
    cases hf

theorem leads_convert (hp : slot.cell.content.IsProper) :
    Keeps Leads (convert truncates slot v) := by
  intro w h
  cases hx : convert truncates slot v w with
  | ok x w' =>
    rw [after_of_ok hx]
    exact ⟨(convert_ok h hp hx).1, (convert_ok h hp hx).2.extends_⟩
  | error f w' =>
    rw [after_of_error hx, convert_error h hp hx]
    exact leads_of_eq rfl rfl rfl rfl h

end Convert

theorem keeps_refuseWith {R : World → World → Prop} [IsPreorder World R] [Tolerant R] {α : Type}
    (r : Refusal) : Keeps R (refuseWith r : Action α) := by
  cases r with
  | host f => exact .failHost f
  | unfit given target reason =>
    exact .bind .get fun _ => .bind (.orFail _) fun _ => .bind (keeps_logEvent _) fun _ => .fail _

theorem spares_convert (truncates : Bool) (slot : SlotType) (v : Value) :
    Keeps Spares (convert truncates slot v) := by
  refine .bind .get fun w => .ite ?_ ?_
  · split
    · exact keeps_refuseWith _
    · dsimp only
      split
      · exact .pure _
      · exact .bind (spares_newArray _ _ _) fun _ => .pure _
  · split
    · exact keeps_refuseWith _
    · exact .pure _

end ScriptedArrays
