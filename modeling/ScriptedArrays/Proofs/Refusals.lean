import ScriptedArrays.Proofs.NumberRange
import ScriptedArrays.Proofs.RowCasts

/-! Refusals. A conversion that does not end well tells why: a value does not fit. It ends with a
fault of the host in two cases only. A number that the conversion asks for is beyond all doubles, or
bytes beyond ASCII are cast to text as a whole. -/

namespace ScriptedArrays

open World

namespace World

inductive HasPart (w : World) : Operand → Value → Prop
  | self (v : Value) : HasPart w (.plain v) v
  | listItem {given : Operand} {r : Ref .list} {x v : Value}
      (hg : w.contentOf given = .plain (.list r)) (hx : x ∈ w.lists.get r)
      (h : HasPart w (.plain x) v) : HasPart w given v
  | tupleItem {given : Operand} {r : Ref .tuple} {x v : Value}
      (hg : w.contentOf given = .plain (.tuple r)) (hx : x ∈ w.tuples.get r)
      (h : HasPart w (.plain x) v) : HasPart w given v
  | entry {given : Operand} {r : Ref .record} {v : Value} (name : String)
      (hg : w.contentOf given = .plain (.record r))
      (h : HasPart w (.plain ((w.records.get r).getD name .undefined)) v) : HasPart w given v
  | slot {given x : Operand} {win : Window} {v : Value} (hg : w.contentOf given = .window win)
      (hx : x ∈ w.operands win) (h : HasPart w x v) : HasPart w given v

def IsLegibleOperand (w : World) : Operand → Prop
  | .plain v => w.IsLegible v
  | .window win => ∀ c ∈ w.cells win, w.IsLegible c

/-- No part has a number beyond all doubles, neither as it is nor as the host value behind it, and
nothing that the value holds has too many digits. -/
structure IsModerate (w : World) (given : Operand) : Prop where
  number : ∀ v, w.HasPart given v → ¬ w.Oversized v ∧ ¬ w.Oversized (w.hostValue v).item
  legible : w.IsLegibleOperand given

section

variable {w : World} {given : Operand} {win : Window} {k : Nat}

theorem IsLegibleOperand.quotable (h : w.IsLegibleOperand given) : w.quotableOperand given = true := by
  cases given with
  | plain v => exact IsLegible.quotable h
  | window win =>
    exact List.all_eq_true.mpr fun c hc => (h c (ArrayText.mem_of_mem_objectsInSight hc)).quotable

theorem IsLegible.operand {v : Value} (h : w.IsLegible v) : w.IsLegibleOperand (w.operand v) := by
  cases v with
  | array r => exact h.cells
  | _ => exact h

theorem IsLegibleOperand.contentOf (h : w.IsLegibleOperand given) :
    w.IsLegibleOperand (w.contentOf given) := by
  cases given with
  | window win => exact h
  | plain v => exact IsLegible.operand (IsLegible.item (IsLegible.hostValue h))

theorem size_eq_of_lt (hk : k < win.length) : win.size = win.length * win.rowSize := by
  rw [Window.length] at hk
  cases hs : win.shape with
  | nil =>
    rw [hs] at hk
    exact absurd hk (Nat.not_lt_zero k)
  | cons n shape =>
    rw [Window.size, Window.length, Window.rowSize, Window.rowShape, hs]
    rfl

theorem cells_row_subset (hk : k < win.length) : w.cells (win.row k) ⊆ w.cells win := by
  intro c hc
  obtain ⟨j, hj, hget⟩ := mem_cells_iff.mp hc
  refine mem_cells_iff.mpr ⟨k * win.rowSize + j, ?_, by rw [← Nat.add_assoc]; exact hget⟩
  calc k * win.rowSize + j < k * win.rowSize + win.rowSize := Nat.add_lt_add_left hj _
    _ = (k + 1) * win.rowSize := (Nat.succ_mul k win.rowSize).symm
    _ ≤ win.length * win.rowSize := Nat.mul_le_mul_right _ hk
    _ = win.size := (size_eq_of_lt hk).symm

theorem IsLegibleOperand.operands (h : w.IsLegibleOperand (.window win)) :
    ∀ x ∈ w.operands win, w.IsLegibleOperand x := by
  intro x hx
  obtain ⟨k, hk, rfl⟩ := List.mem_map.mp hx
  rw [List.mem_range] at hk
  split
  · next hrow =>
    have hsize : win.size = win.length := by
      rw [size_eq_of_lt hk, Window.rowSize, List.isEmpty_iff.mp hrow, cellCount, Nat.mul_one]
    have hcell : w.IsLegible (w.cell win k) := by
      rcases cell_eq_undefined_or_mem (w := w) (hsize ▸ hk) with hnone | hmem
      · exact hnone ▸ isLegible_undefined w
      · exact h _ hmem
    show w.IsLegible (win.type.itemValue (w.cell win k))
    rw [CellType.itemValue]
    split
    · exact hcell
    · exact hcell.scalar
  · exact fun c hc => h c (cells_row_subset hk hc)

end

end World

namespace Conversion

variable {w : World} {truncates : Bool} {cell : CellType}

def Judges {α : Type} (w : World) (e : Except Refusal α) : Prop :=
  ∀ r, e = .error r → ∃ given target reason, r = .unfit given target reason ∧
    w.quotableOperand given = true

theorem judges_ok {α : Type} (a : α) : Judges w (.ok a) := nofun

theorem judges_refuseRow {α : Type} {given : Operand} (h : w.IsLegibleOperand given) (slot : SlotType)
    (reason : String) : Judges w (refuseRow given slot reason : Except Refusal α) := by
  rintro _ ⟨⟩
  exact ⟨given, slot.name, reason, rfl, h.quotable⟩

theorem judges_bind {α β : Type} {e : Except Refusal α} {g : α → Except Refusal β} (he : Judges w e)
    (hg : ∀ a, Judges w (g a)) : Judges w (e >>= g) := by
  intro r h
  cases e with
  | error r =>
    cases h
    exact he r rfl
  | ok a => exact hg a r h

/-- Where the conversion of a single value does not end well, it is this value that does not fit the
given cell, or its content has no number or no text. -/
structure Blames {α : Type} (w : World) (given content : Value) (cell : CellType)
    (e : Except Refusal α) : Prop where
  unfit : ∀ value target reason, e = .error (.unfit value target reason) →
    value = .plain given ∧ target = cell.name
  host : ∀ f, e = .error (.host f) → w.numberOf content = .error f ∨ w.textOf? content = .error f

section

variable {α β : Type} {given content : Value}

theorem blames_ok (a : α) : Blames w given content cell (.ok a) := ⟨nofun, nofun⟩

theorem blames_refuse (reason : String) :
    Blames w given content cell (refuse given cell reason : Except Refusal α) := by
  refine ⟨?_, nofun⟩
  rintro value target reason' ⟨⟩
  exact ⟨rfl, rfl⟩

theorem blames_numberOf : Blames w given content cell (lift (w.numberOf content)) := by
  cases hx : w.numberOf content with
  | ok x => exact blames_ok x
  | error f =>
    refine ⟨nofun, ?_⟩
    rintro f' ⟨⟩
    exact .inl hx

theorem blames_textOf? : Blames w given content cell (lift (w.textOf? content)) := by
  cases hs : w.textOf? content with
  | ok s => exact blames_ok s
  | error f =>
    refine ⟨nofun, ?_⟩
    rintro f' ⟨⟩
    exact .inr hs

theorem blames_bind {e : Except Refusal α} {g : α → Except Refusal β}
    (he : Blames w given content cell e) (hg : ∀ a, Blames w given content cell (g a)) :
    Blames w given content cell (e >>= g) := by
  cases e with
  | ok a => exact hg a
  | error r =>
    constructor
    · rintro value target reason ⟨⟩
      exact he.unfit value target reason rfl
    · rintro f ⟨⟩
      exact he.host f rfl

theorem blames_wholeNumber : Blames w given content cell (wholeNumber w given content cell) := by
  rw [wholeNumber.eq_def]
  split
  case h_1 => exact blames_ok _
  case h_2 => exact blames_ok _
  case h_5 => exact blames_refuse _
  all_goals
    refine blames_bind blames_numberOf fun x => ?_
    cases x.truncate? with
    | some n => exact blames_ok n
    | none => exact blames_refuse _

theorem blames_toReal (p : Precision) :
    Blames w given content cell (toReal w given content cell p) := by
  rw [toReal.eq_def]
  split
  case h_5 => exact blames_refuse _
  all_goals exact blames_bind blames_numberOf fun x => blames_ok _

theorem blames_toComplex (p : Precision) :
    Blames w given content cell (toComplex given content cell p) := by
  rw [toComplex.eq_def]
  split
  · next i =>
    have hnumber : Blames w given (.int i) cell (lift (Double.ofInt? i)) := blames_numberOf
    exact blames_bind hnumber fun x => blames_ok _
  · exact blames_ok _
  · exact blames_ok _
  · exact blames_refuse _

theorem blames_cellText : Blames w given content cell (cellText w given content cell) := by
  rw [cellText.eq_def]
  split
  · exact blames_refuse _
  · exact blames_refuse _
  · exact blames_ok _
  · exact blames_textOf?

theorem blames_fitText (capacity : Nat) (s : String) :
    Blames w given content cell (fitText truncates given cell capacity s) := by
  rw [fitText]
  split
  · exact blames_ok _
  · split
    · exact blames_ok _
    · exact blames_refuse _

theorem blames_toCell :
    Blames w given (w.hostValue given).item cell (toCell w truncates cell given) := by
  rw [toCell]
  split
  · exact blames_ok _
  · refine blames_bind blames_wholeNumber fun n => ?_
    dsimp only
    split
    · exact blames_ok _
    · exact blames_refuse _
  · exact blames_toReal _
  · exact blames_toComplex _
  · refine blames_bind blames_cellText fun s => ?_
    exact blames_bind (blames_fitText _ s) fun u => blames_ok _
  · refine blames_bind blames_cellText fun s => ?_
    refine blames_bind (blames_fitText _ s) fun u => ?_
    cases Latin.encode? u with
    | some b => exact blames_ok _
    | none => exact blames_refuse _
  · exact blames_ok _
  · exact blames_refuse _

theorem judges_toCell (hlegible : w.IsLegible given) (hv : ¬ w.Oversized (w.hostValue given).item) :
    Judges w (toCell w truncates cell given) := by
  intro r hr
  have hitem : w.IsLegible (w.hostValue given).item := hlegible.hostValue.item
  cases r with
  | unfit value target reason =>
    obtain ⟨rfl, -⟩ := blames_toCell.unfit value target reason hr
    exact ⟨_, target, reason, rfl, hlegible.quotable⟩
  | host f =>
    rcases blames_toCell.host f hr with hnumber | htext
    · obtain ⟨x, hx⟩ := hitem.exists_numberOf hv
      cases hnumber.symm.trans hx
    · cases (textOf?_of_hasText hitem.hasText).symm.trans htext

end

/-- A walk over items fails with the first item that fails. -/
theorem each_error {convert : Operand → Except Refusal (List Value)} {items : List Operand}
    {e : Refusal} (h : each convert items = .error e) :
    ∃ before x after, items = before ++ x :: after ∧
      (∀ y ∈ before, ∃ cells, convert y = .ok cells) ∧ convert x = .error e := by
  induction items with
  | nil => cases h
  | cons x items ih =>
    rw [each] at h
    cases hx : convert x with
    | error e' =>
      rw [hx] at h
      cases h
      exact ⟨[], x, items, rfl, fun y hy => absurd hy List.not_mem_nil, hx⟩
    | ok cells =>
      rw [hx] at h
      cases hrest : each convert items with
      | error e' =>
        rw [hrest] at h
        cases h
        obtain ⟨before, y, after, rfl, hbefore, hy⟩ := ih hrest
        refine ⟨x :: before, y, after, rfl, ?_, hy⟩
        rintro z (- | ⟨-, hz⟩)
        · exact ⟨cells, hx⟩
        · exact hbefore z hz
      | ok rest =>
        rw [hrest] at h
        cases h

theorem each_of_error {convert : Operand → Except Refusal (List Value)} {before after : List Operand}
    {x : Operand} {e : Refusal} (hbefore : ∀ y ∈ before, ∃ cells, convert y = .ok cells)
    (hx : convert x = .error e) : each convert (before ++ x :: after) = .error e := by
  induction before with
  | nil =>
    rw [List.nil_append, each, hx]
    rfl
  | cons y before ih =>
    obtain ⟨cells, hy⟩ := hbefore y List.mem_cons_self
    rw [List.cons_append, each, hy, ih fun z hz => hbefore z (List.mem_cons_of_mem y hz)]
    rfl

def Undecoded (w : World) (win : Window) (cell : CellType) : Prop :=
  ∃ m k b, win.type.content = .bytes m ∧ cell.content = .text k ∧ .bytes b ∈ w.cells win ∧
    b.all (·.toNat < 128) = false

section

variable {win : Window}

theorem mapM_castCell_of_undecoded (h : Undecoded w win cell)
    (hsafe : win.type.content.castsSafely cell.content = true)
    (hc : ∀ c ∈ w.cells win, win.type.content.Admits c) :
    (w.cells win).mapM (castCell win.type cell.content) = .error .decoding := by
  obtain ⟨m, k, b, hm, hk, hb, hascii⟩ := h
  have hcast : castCell win.type cell.content (.bytes b) = .error .decoding := by
    rw [hk, castCell, if_neg (by simp [hascii])]
  -- the walk may fail at an earlier cell, but every cell that fails does so in this way
  obtain ⟨f, hf⟩ := mapM_error_iff.mpr ⟨_, hb, _, hcast⟩
  obtain ⟨c, hmem, hfc⟩ := exists_of_mapM_error hf
  obtain ⟨_, _, b', _, hk', rfl, hascii'⟩ := castCell_error hsafe (hc c hmem) hfc
  rw [hk', castCell, if_neg (by simp [hascii'])] at hfc
  cases hfc
  exact hf

theorem exists_mapM_castCell (h : ¬ Undecoded w win cell)
    (hsafe : win.type.content.castsSafely cell.content = true)
    (hc : ∀ c ∈ w.cells win, win.type.content.Admits c) :
    ∃ cells, (w.cells win).mapM (castCell win.type cell.content) = .ok cells := by
  cases hf : (w.cells win).mapM (castCell win.type cell.content) with
  | ok cells => exact ⟨cells, rfl⟩
  | error f =>
    obtain ⟨c, hmem, hfc⟩ := exists_of_mapM_error hf
    obtain ⟨m, k, b, hm, hk, rfl, hascii⟩ := castCell_error hsafe (hc c hmem) hfc
    exact absurd ⟨m, k, b, hm, hk, hmem, hascii⟩ h

end

/-- The first part that a conversion comes to and does not convert is an array of bytes beyond
ASCII, which is cast to text. -/
inductive Undecodable (w : World) (truncates : Bool) (cell : CellType) : List Nat → Operand → Prop
  | cells {n : Nat} {shape : List Nat} {given : Operand} {win : Window}
      (hg : w.contentOf given = .window win) (hs : win.shape = n :: shape)
      (hsafe : win.type.content.castsSafely cell.content = true) (h : Undecoded w win cell) :
      Undecodable w truncates cell (n :: shape) given
  | row {n : Nat} {shape : List Nat} {given x : Operand} {before after : List Operand}
      (hrows : Rows w cell n shape given (before ++ x :: after))
      (hbefore : ∀ y ∈ before, ∃ cells, toCells w truncates cell shape y = .ok cells)
      (h : Undecodable w truncates cell shape x) : Undecodable w truncates cell (n :: shape) given

section

variable {n : Nat} {shape : List Nat} {given : Operand} {items : List Operand}

theorem hasPart_of_rows (h : Rows w cell n shape given items) {x : Operand} (hx : x ∈ items)
    {v : Value} (hv : w.HasPart x v) : w.HasPart given v := by
  cases h with
  | list hg hn =>
    obtain ⟨y, hy, rfl⟩ := List.mem_map.mp hx
    exact .listItem hg hy hv
  | tuple hg hn =>
    obtain ⟨y, hy, rfl⟩ := List.mem_map.mp hx
    exact .tupleItem hg hy hv
  | record hg =>
    obtain ⟨i, -, rfl⟩ := List.mem_map.mp hx
    exact .entry (toString i) hg hv
  | window hg => exact .slot hg hx hv

theorem isLegibleOperand_of_rows (h : Rows w cell n shape given items) (hl : w.IsLegibleOperand given) :
    ∀ x ∈ items, w.IsLegibleOperand x := by
  have hcontent := hl.contentOf
  cases h with
  | list hg hn =>
    rw [hg] at hcontent
    exact List.forall_mem_map.mpr fun y hy => IsLegible.part hcontent hy
  | tuple hg hn =>
    rw [hg] at hcontent
    exact List.forall_mem_map.mpr fun y hy => IsLegible.part hcontent hy
  | record hg =>
    rw [hg] at hcontent
    exact List.forall_mem_map.mpr fun i _ => IsLegible.entry hcontent _
  | window hg =>
    rw [hg] at hcontent
    exact hcontent.operands

theorem isModerate_of_rows (h : Rows w cell n shape given items) (hm : w.IsModerate given) :
    ∀ x ∈ items, w.IsModerate x :=
  fun x hx => ⟨fun v hv => hm.number v (hasPart_of_rows h hx hv),
    isLegibleOperand_of_rows h hm.legible x hx⟩

/-- A conversion to a row ends with a fault of the host exactly if it comes to such an array. -/
theorem toCells_faults (hw : w.Sound) (hg : w.ShowsOperand given) (hm : w.IsModerate given) :
    (Undecodable w truncates cell shape given →
      toCells w truncates cell shape given = .error (.host .decoding)) ∧
    (¬ Undecodable w truncates cell shape given → Judges w (toCells w truncates cell shape given)) := by
  induction shape generalizing given with
  | nil =>
    refine ⟨nofun, fun _ => ?_⟩
    cases given with
    | plain v =>
      exact judges_bind (judges_toCell hm.legible (hm.number v (.self v)).2) fun x => judges_ok _
    | window win => exact judges_refuseRow hm.legible _ _
  | cons n shape ih =>
    have hadmits : ∀ {win}, w.contentOf given = .window win → win.shape = n :: shape →
        ∀ c ∈ w.cells win, win.type.content.Admits c := by
      intro win hwin hs c hc
      have hshows := shows_contentOf hw hg
      rw [hwin] at hshows
      exact (hshows.within.accepts_cells hw c hc).1
    constructor
    · intro hundecodable
      cases hundecodable with
      | cells hwin hs hsafe h =>
        rw [toCells_of_safe hwin hs hsafe, mapM_castCell_of_undecoded h hsafe (hadmits hwin hs)]
        rfl
      | @row _ _ _ x before after hrows hbefore h =>
        have hx : x ∈ before ++ x :: after := List.mem_append_right _ List.mem_cons_self
        have hfails := (ih (shows_rows hw hg hrows x hx) (isModerate_of_rows hrows hm x hx)).1 h
        rw [toCells_of_rows hrows, each_of_error hbefore hfails]
        rfl
    · intro hno
      rcases toCells_cases w truncates cell n shape given with
        ⟨win, hwin, hs, hsafe⟩ | ⟨items, hrows⟩ | ⟨_, hunfit⟩ |
          ⟨r, v, f, hrecord, hv, hfault, -⟩
      · obtain ⟨cells, hcells⟩ := exists_mapM_castCell (fun h => hno (.cells hwin hs hsafe h)) hsafe
          (hadmits hwin hs)
        rw [toCells_of_safe hwin hs hsafe, hcells]
        exact judges_ok cells
      · rw [toCells_of_rows hrows]
        refine judges_bind (fun r hr => ?_) fun cells => judges_ok _
        -- the rows before the one that the walk fails at are converted, so the fault is its own
        obtain ⟨before, x, after, rfl, hbefore, hx⟩ := each_error hr
        have hmem : x ∈ before ++ x :: after := List.mem_append_right _ List.mem_cons_self
        have hrow := ih (shows_rows hw hg hrows x hmem) (isModerate_of_rows hrows hm x hmem)
        exact hrow.2 (fun h => hno (.row hrows hbefore h)) r hx
      · rw [hunfit]
        exact judges_refuseRow hm.legible ⟨cell, n :: shape⟩ _
      · have hpart : w.HasPart given v := .entry "length" hrecord (by
          rw [Entries.getD, hv]
          exact .self v)
        have hcontent := hm.legible.contentOf
        rw [hrecord] at hcontent
        have hlength : w.IsLegible v := by
          have hentry := IsLegible.entry hcontent "length"
          rwa [Entries.getD, hv] at hentry
        obtain ⟨x, hx⟩ := hlength.exists_numberOf (hm.number v hpart).1
        cases hfault.symm.trans hx

end

end Conversion

section

variable {w : World} {truncates : Bool} {slot : SlotType} {v : Value}

def Decides (result : EStateM.Result Fault World Value) : Prop :=
  (∃ x w', result = .ok x w') ∨
    ∃ value target reason w', result = .error (.cannotConvert value target reason) w'

theorem decides_refuseWith {given : Operand} (hq : w.quotableOperand given = true)
    (target reason : String) : Decides (refuseWith (.unfit given target reason) w) := by
  obtain ⟨l, hl⟩ := refuseWith_unfit hq target reason
  exact .inr ⟨_, target, reason, _, hl⟩

theorem decides_of_judges {α : Type} {e : Except Refusal α} {r : Refusal} (h : Conversion.Judges w e)
    (he : e = .error r) : Decides (refuseWith r w) := by
  obtain ⟨given, target, reason, rfl, hq⟩ := h r he
  exact decides_refuseWith hq target reason

theorem exists_convert_of_cells {cells : List Value} (hn : slot.isNested = true)
    (hc : Conversion.toCells w truncates slot.cell slot.shape (.plain v) = .ok cells) :
    ∃ x w', convert truncates slot v w = .ok x w' := by
  cases hr : w.reusable? (w.rowType slot v) slot.shape v with
  | some r => exact ⟨_, w, convert_of_reusable hn hc hr⟩
  | none =>
    obtain ⟨vs, m, hnew, -⟩ := newArray_eq (w.rowType slot v) slot.shape cells w
    rw [convert_of_new hn hc hr, bind_apply_of_ok _ hnew]
    exact ⟨_, _, rfl⟩

/-- A conversion of a value without numbers beyond all doubles gives a value or tells what does not
fit, except where it comes to an array of bytes beyond ASCII that is cast to text as a whole. There
the host cannot decode the bytes, and the world stays as it was. -/
theorem convert_faults (hw : Reachable w) (truncates : Bool) (slot : SlotType)
    (hm : w.IsModerate (.plain v)) :
    (Conversion.Undecodable w truncates slot.cell slot.shape (.plain v) →
      convert truncates slot v w = .error (.host .decoding) w) ∧
    (¬ Conversion.Undecodable w truncates slot.cell slot.shape (.plain v) →
      Decides (convert truncates slot v w)) := by
  have hplain : w.ShowsOperand (.plain v) := True.intro
  have hfaults : (Conversion.Undecodable w truncates slot.cell slot.shape (.plain v) → _) ∧ _ :=
    Conversion.toCells_faults hw.sound hplain hm
  by_cases hn : slot.isNested = true
  · constructor
    · intro hundecodable
      exact convert_of_refused hn (hfaults.1 hundecodable)
    · intro hno
      cases hc : Conversion.toCells w truncates slot.cell slot.shape (.plain v) with
      | ok cells => exact .inl (exists_convert_of_cells hn hc)
      | error r =>
        rw [convert_of_refused hn hc]
        exact decides_of_judges (hfaults.2 hno) hc
  · have hshape : slot.shape = [] := by simpa [SlotType.isNested] using hn
    constructor
    · rw [hshape]
      intro hundecodable
      cases hundecodable
    · intro _
      cases hc : Conversion.toCell w truncates slot.cell v with
      | ok x => exact .inl ⟨_, _, convert_plain hn hc⟩
      | error r =>
        rw [convert_plain_refused hn hc]
        exact decides_of_judges (Conversion.judges_toCell hm.legible (hm.number v (.self v)).2) hc

end

theorem operands_echoes : echoes.contentOf (.plain (.array ⟨1⟩)) = .window (echoes.shown ⟨0⟩) ∧
    echoes.operands (echoes.shown ⟨0⟩) = [233, 97, 233].map fun byte =>
      .plain (.scalar (.native (.bytes 1)) (.bytes [byte])) := by
  constructor <;> rfl

theorem isLegible_echoes : echoes.IsLegible (.array ⟨1⟩) := by
  refine isLegible_of_mem [.array ⟨1⟩, .undefined, .bytes [233], .bytes [97]] ?_ _
    List.mem_cons_self
  decide +kernel

theorem isModerate_echoes : echoes.IsModerate (.plain (.array ⟨1⟩)) := by
  obtain ⟨hcontent, hoperands⟩ := operands_echoes
  refine ⟨fun v hv => ?_, isLegible_echoes⟩
  cases hv with
  | self => exact ⟨not_oversized nofun nofun nofun, not_oversized nofun nofun nofun⟩
  | slot hg hx h =>
    rw [hcontent] at hg
    cases hg
    rw [hoperands] at hx
    obtain ⟨byte, -, rfl⟩ := List.mem_map.mp hx
    cases h with
    | self => exact ⟨not_oversized nofun nofun nofun, not_oversized nofun nofun nofun⟩
    | listItem hg | tupleItem hg | entry _ hg | slot hg => cases hg
  | listItem hg | tupleItem hg | entry _ hg =>
    rw [hcontent] at hg
    cases hg

/-- The bytes cannot be cast to text, but they can be cast to wider bytes. -/
theorem convert_undecodable_byte :
    convert false ⟨.native (.text 1), [3]⟩ (.array ⟨1⟩) echoes = .error (.host .decoding) echoes ∧
      Decides (convert false ⟨.native (.bytes 2), [3]⟩ (.array ⟨1⟩) echoes) := by
  have hfaults := fun slot => convert_faults reachable_echoes false slot isModerate_echoes
  have hcontent := operands_echoes.1
  constructor
  · refine (hfaults ⟨.native (.text 1), [3]⟩).1 (.cells hcontent rfl rfl ?_)
    exact ⟨1, 1, [233], rfl, rfl, by decide, rfl⟩
  · refine (hfaults ⟨.native (.bytes 2), [3]⟩).2 fun h => ?_
    cases h with
    | cells _ _ _ h =>
      obtain ⟨_, _, _, _, hk, _⟩ := h
      cases hk
    | @row _ _ _ x before after hrows =>
      generalize before ++ x :: after = items at hrows
      cases hrows with
      | window hg _ _ hno =>
        rw [hcontent] at hg
        cases hg
        cases hno
      | list hg | tuple hg | record hg =>
        rw [hcontent] at hg
        cases hg

end ScriptedArrays
