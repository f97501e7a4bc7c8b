import ScriptedArrays.Proofs.Refusals
import ScriptedArrays.Proofs.WholeNumbers

/-! The bounds check as a gate. A number passes it by its exact value, but what lies behind goes by the
kind of the number as well. An integer in bounds stands for one slot. A truth value in bounds stands
for all slots or for none, which are read as a copy, and a double in bounds stands for nothing. -/

namespace ScriptedArrays

open World

/-- The exact value is at least zero and below the length. -/
def Quantity.liesBelow (length : Nat) : Quantity → Bool
  | .int n => decide (0 ≤ n ∧ n < length)
  | .real (.finite s m _) => decide (0 ≤ Double.signed s m ∧ Double.signed s m < length * Double.one)
  | _ => false

def Value.liesBelow (i : Value) (length : Nat) : Bool := i.quantity?.any (Quantity.liesBelow length)

section Bounds

variable {w : World} {i : Value}

theorem relate_of_plain {rel : Relation} {a b : Value} {p q : Quantity} {holds : Bool}
    (ha : a.quantity? = some p) (hb : b.quantity? = some q) (hna : a.numberType? = none)
    (hnb : b.numberType? = none) (h : Quantity.relate? rel p q = some holds) :
    w.relate rel a b = .ok (.plain holds) := by
  rw [World.relate, relateFrom]
  simp [ha, hb, hna, hnb, h]

theorem relate?_above (length : Nat) (q : Quantity) (hq : q.isComplex = false) :
    ∃ above below, Quantity.relate? .atMost (.int 0) q = some above ∧
      Quantity.relate? .less q (.int length) = some below ∧ (above && below) = q.liesBelow length := by
  cases q with
  | int n =>
    refine ⟨_, _, relate?_int _ _ _, relate?_int _ _ _, ?_⟩
    rw [Bool.eq_iff_iff]
    simp only [Relation.ints, Relation.judge, Quantity.liesBelow, Bool.and_eq_true, Bool.or_eq_true,
      decide_eq_true_eq, beq_iff_eq]
    omega
  | real x =>
    refine ⟨_, _, rfl, rfl, ?_⟩
    cases x with
    | nan => rfl
    | infinite s => cases s <;> rfl
    | finite s m hm =>
      rw [Bool.eq_iff_iff]
      simp only [Quantity.parts, Quantity.relateReal, Relation.judge, Double.intLess, Double.equalInt,
        Double.lessInt, Quantity.liesBelow, Bool.and_eq_true, Bool.or_eq_true, decide_eq_true_eq,
        beq_iff_eq]
      omega
  | complex re im => cases hq

theorem Value.IsNumber.quantity (hi : i.content.IsNumber) :
    ∃ q, i.quantity? = some q ∧ q.isComplex = false ∧ i.numberType? = none := by
  cases hc : i.content with
  | bool b => exact ⟨.int (if b then 1 else 0), by simp [quantity?, item, hc], rfl, by simp [numberType?, hc]⟩
  | int n => exact ⟨.int n, by simp [quantity?, item, hc], rfl, by simp [numberType?, hc]⟩
  | number x => exact ⟨.real x, by simp [quantity?, item, hc], rfl, by simp [numberType?, hc]⟩
  | _ =>
    rw [hc] at hi
    exact hi.elim

theorem bounds_number (w : World) (hi : i.content.IsNumber) (length : Nat) :
    w.bounds i length = .ok (.plain (i.liesBelow length)) := by
  obtain ⟨q, hq, hreal, htype⟩ := hi.quantity
  obtain ⟨above, below, habove, hbelow, hboth⟩ := relate?_above length q hreal
  have h0 : w.relate .atMost (.int 0) i = .ok (.plain above) := relate_of_plain rfl hq rfl htype habove
  have h1 : w.relate .less i (.int length) = .ok (.plain below) :=
    relate_of_plain hq rfl htype rfl hbelow
  have hbelow : i.liesBelow length = (above && below) := by simp [Value.liesBelow, hq, hboth]
  cases above <;> simp [bounds, h0, h1, hbelow, bind, Except.bind, pure, Except.pure, Verdict.truth]

theorem inBounds_number (w : World) (hi : i.content.IsNumber) (length : Nat) :
    w.inBounds i length = .ok (i.liesBelow length) := by
  rw [inBounds, bounds_number w hi]
  rfl

end Bounds

namespace World

def SameCells (w w' : World) : Prop := ∀ b, w.buffers.Has b → w'.buffers.get b = w.buffers.get b

/-- A view of cells of its own, which are those of a window below a further axis, or none. -/
structure Copies (w w' : World) (q : Ref .view) (win : Window) (chosen : Bool) : Prop where
  fresh : ¬ w.buffers.Has (w'.shown q).buffer
  has : w'.buffers.Has (w'.shown q).buffer
  shape : (w'.shown q).shape = (if chosen then 1 else 0) :: win.shape
  cells : (w'.cells (w'.shown q)).map Value.content = if chosen then (w.cells win).map Value.content else []

end World

namespace Shape

theorem trimmed_of_lt {rank : Nat} {shape : List Nat} (h : shape.length < rank) :
    trimmed rank shape = shape := by
  unfold trimmed
  split
  · rename_i s
    have hlt : ¬ rank ≤ s.length := by
      rw [List.length_cons] at h
      omega
    rw [if_neg hlt]
  · rfl

theorem jointAxis?_one (n : Nat) : jointAxis? 1 n = some n := by
  by_cases hn : 1 = n <;> simp [jointAxis?, hn]

theorem repeatAxes_one {α : Type} {shape target : List Nat} {cells : List α} (n : Nat)
    (h : cells.length = cellCount shape) :
    repeatAxes (1 :: shape) (n :: target) cells =
      (List.replicate n (repeatAxes shape target cells)).flatten := by
  have hpieces : pieces (cellCount shape) 1 cells = [cells] := by simp [pieces, ← h]
  by_cases hn : 1 = n
  · subst hn
    simp [repeatAxes, hpieces]
  · simp [repeatAxes, hpieces, hn]

theorem fitted?_row {α : Type} {shape : List Nat} {cells : List α} (m n : Nat)
    (h : cells.length = cellCount shape) : fitted? shape (m :: n :: shape) cells =
      some (List.replicate m (List.replicate n cells).flatten).flatten := by
  have haligned : aligned (shape.length + 1 + 1) shape = 1 :: 1 :: shape := by
    simp [aligned, show shape.length + 1 + 1 - shape.length = 2 by omega, List.replicate_succ]
  have hjoint : joint? shape (m :: n :: shape) = some (m :: n :: shape) := by
    have hmax : max shape.length (shape.length + 1 + 1) = shape.length + 1 + 1 := by omega
    have htarget : aligned (shape.length + 1 + 1) (m :: n :: shape) = m :: n :: shape :=
      aligned_length (m :: n :: shape)
    rw [joint?, List.length_cons, List.length_cons, hmax, haligned, htarget]
    simp [jointAxes?, jointAxis?_one]
  have hself : repeatAxes shape shape cells = cells := by
    have hstretch := stretch_self h
    rwa [stretch, aligned_length] at hstretch
  rw [fitted?]
  simp only [trimmed_of_lt (show shape.length < (m :: n :: shape).length by simp), hjoint, if_true]
  rw [stretch, List.length_cons, List.length_cons, haligned,
    repeatAxes_one m (by rw [h, cellCount_cons, Nat.one_mul]), repeatAxes_one n h, hself]

end Shape

section Parts

variable {w : World} {r : Ref .view} {i v : Value} {b : Bool}

theorem select_bool (w : World) (win : Window) (hi : i.content = .bool b) :
    w.select win i = .part ⟨[if b then 1 else 0], win, b, 1 + win.shape.length⟩ := by
  rw [select, Value.item, hi]
  rfl

theorem select_number (w : World) (win : Window) {x : Double} (hi : i.content = .number x) :
    w.select win i = .invalid := by
  rw [select, Value.item, hi]

theorem held_cells (h : w.Sound) (r : Ref .view) :
    (w.cells (w.shown r)).map (w.shown r).type.held = w.cells (w.shown r) := by
  have haccepts : ∀ c ∈ w.cells (w.shown r), (w.shown r).type.Accepts c :=
    (h.shows _).within.accepts_cells h
  rw [List.map_congr_left fun c hc => (haccepts c hc).2, List.map_id']

/-- A part is read as a view of a copy. -/
theorem copies_of_part (h : w.Sound) (hr : w.views.Has r) (p : Ref .presenter) (scope : Value)
    (chosen : Bool) (depth : Nat) :
    ∃ q w', (partValue ⟨[if chosen then 1 else 0], w.shown r, chosen, depth⟩ >>= fun x =>
      Presenter.present p x scope) w = .ok (.view q) w' ∧ w.Copies w' q (w.shown r) chosen := by
  have hencloses : w.Encloses (w.shown r) := h.encloses _ (h.array r hr)
  have hwithin : w.Within (w.shown r) := (h.shows _).within
  let shape := (if chosen then 1 else 0) :: (w.shown r).shape
  let cells := if chosen then w.cells (w.shown r) else []
  have hadmits : ∀ c ∈ cells, (w.shown r).type.content.Admits c := by
    intro c hc
    cases chosen with
    | true => exact (hwithin.accepts_cells h c hc).1
    | false => exact absurd hc List.not_mem_nil
  have hlength : cells.length = cellCount shape := by
    cases chosen with
    | true => simpa [cells, shape, cellCount_cons, Window.size] using length_cells hencloses
    | false => simp [cells, shape, cellCount_cons]
  obtain ⟨u, hu, hs, he, hhas, hget, -, hcells, -⟩ :=
    newArray_spec h shape (hwithin.regular h) hadmits
  have hshape : (u.arrays.get w.arrays.next).shape ≠ [] := by
    rw [hget]
    exact List.cons_ne_nil _ _
  obtain ⟨q, w', hpresent, hs', he', hb', hq, harray⟩ := Presenter.present_array hs p scope hshape
  have hshown : w'.shown q = ⟨(w.shown r).type, w.buffers.next, 0, shape⟩ := by
    rw [shown, harray, he'.array _ hhas, hget]
  refine ⟨q, w', ?_, ?_, ?_, ?_, ?_⟩
  · have hpart : partValue ⟨[if chosen then 1 else 0], w.shown r, chosen, depth⟩ w =
        .ok (.array w.arrays.next) u := by
      rw [partValue, get_bind_apply]
      exact bind_apply_of_ok _ hu
    rw [bind_apply_of_ok _ hpart, hpresent]
  · rw [hshown]
    exact fun hno => w.buffers.ne_next_of_has hno rfl
  · exact (hs'.encloses _ (hs'.array q hq)).1
  · rw [hshown]
  · rw [hshown, World.cells, hb', ← World.cells, hcells hlength]
    cases chosen with
    | true => exact congrArg (List.map Value.content) (held_cells h r)
    | false => rfl

end Parts

namespace View

/-- Slots for single objects take the items of sequences one by one. -/
def IsLoose (w : World) (r : Ref .view) : Prop :=
  (w.shown r).type.isObject = true ∧ (w.shown r).rowShape = []

/-- The index stands for a slot. The slot itself is read, and its cells and no others are replaced by
those to which a value is converted, unless the value does not fit, which changes nothing. -/
structure StandsForSlot (w : World) (r : Ref .view) (i v : Value) (k : Nat) : Prop where
  lt : k < (w.shown r).length
  cell : (w.shown r).rowShape = [] → getIndex r i w = Presenter.present (w.views.get r).presenter
    ((w.shown r).type.itemValue (w.cell (w.shown r) k)) (w.views.get r).scope w
  row : (w.shown r).rowShape ≠ [] →
    ∃ q w', getIndex r i w = .ok (.view q) w' ∧ w'.shown q = (w.shown r).row k
  readable : Succeeds (getIndex r i) w
  write : (∃ cells w', setIndex r i v w = .ok () w' ∧ w.Converts r v cells ∧
      w.Writes w' ((w.shown r).row k) cells) ∨
    ∃ value target reason l,
      setIndex r i v w = .error (.cannotConvert value target reason) { w with log := l }

/-- The index stands for all slots, or for none. They are read as a copy, and the cells to which a value
is converted are written to each of them. The items of a sequence may not fit slots for single
objects. -/
structure StandsForAll (w : World) (r : Ref .view) (i v : Value) (chosen : Bool) : Prop where
  read : ∃ q w', getIndex r i w = .ok (.view q) w' ∧ w.Copies w' q (w.shown r) chosen
  refused : ∀ f u, convert (w.views.get r).truncates (w.views.get r).slot v w = .error f u →
    setIndex r i v w = .error f u
  write : ∀ x u, convert (w.views.get r).truncates (w.views.get r).slot v w = .ok x u →
    (∃ w', setIndex r i v w = .ok () w' ∧
      (chosen = true → ∃ cells, w.Writes w' (w.shown r) cells ∧ (¬ IsLoose w r →
        ∃ row, w.Converts r v row ∧ cells = (List.replicate (w.shown r).length row).flatten)) ∧
      (chosen = false → w.SameCells w')) ∨
    (IsLoose w r ∧ ∃ w', setIndex r i v w = .error (.host .value) w' ∧ w.SameCells w')

structure StandsForNothing (w : World) (r : Ref .view) (i v : Value) : Prop where
  read : getIndex r i w = .error (.host .index) w
  refused : ∀ f u, convert (w.views.get r).truncates (w.views.get r).slot v w = .error f u →
    setIndex r i v w = .error f u
  write : ∀ x u, convert (w.views.get r).truncates (w.views.get r).slot v w = .ok x u →
    ∃ w', setIndex r i v w = .error (.host .index) w' ∧ w.SameCells w'

/-- The bounds check is the only gate for the index: in bounds it stands for a slot, and beyond them it
reads as undefined and a write is refused with the bounds. -/
structure Gated (w : World) (r : Ref .view) (i v : Value) : Prop where
  inside : i.liesBelow (w.shown r).length = true → ∃ k, StandsForSlot w r i v k
  outside : i.liesBelow (w.shown r).length = false → getIndex r i w = .ok .undefined w ∧
    ∃ l, setIndex r i v w =
      .error (.outOfBounds (w.indexText i) ((w.shown r).length - 1)) { w with log := l }

section

variable {w : World} {r : Ref .view} {i v : Value}

theorem hasIndex_number (h : w.Sound) (hr : w.views.Has r) (hi : i.content.IsNumber) :
    hasIndex r i w = .ok (.bool (i.liesBelow (w.shown r).length)) w := by
  rw [hasIndex, get_bind_apply, look_bind_apply, bounds_number w hi, h.length_shown hr]
  rfl

/-- A conversion that fails for no reason of the host tells what does not fit. -/
theorem refused_of_convert {truncates : Bool} {slot : SlotType} {f : Fault} {u : World}
    (hf : convert truncates slot v w = .error f u) (hhost : ∀ g, f ≠ .host g) :
    ∃ value target reason, f = .cannotConvert value target reason := by
  have hrefused : ∀ c : Refusal, (refuseWith c : Action Value) w = .error f u →
      ∃ value target reason, f = .cannotConvert value target reason := by
    intro c hc
    cases c with
    | host g =>
      cases hc
      exact absurd rfl (hhost g)
    | unfit given target reason =>
      cases hq : w.quotableOperand given with
      | true =>
        obtain ⟨l, hl⟩ := refuseWith_unfit (α := Value) hq target reason
        cases hl.symm.trans hc
        exact ⟨_, target, reason, rfl⟩
      | false =>
        cases (refuseWith_unwritten hq target reason).symm.trans hc
        exact absurd rfl (hhost _)
  by_cases hn : slot.isNested = true
  · cases hc : Conversion.toCells w truncates slot.cell slot.shape (.plain v) with
    | error c => exact hrefused c ((convert_of_refused hn hc).symm.trans hf)
    | ok cells =>
      obtain ⟨x, u', hx⟩ := exists_convert_of_cells hn hc
      rw [hx] at hf
      cases hf
  · cases hc : Conversion.toCell w truncates slot.cell v with
    | error c => exact hrefused c ((convert_plain_refused hn hc).symm.trans hf)
    | ok x =>
      rw [convert_plain hn hc] at hf
      cases hf

theorem standsForSlot (h : w.Sound) (hr : w.views.Has r) {k : Nat} (hi : i.IsInteger k)
    (hk : k < (w.shown r).length) (hp : Presentable w r k)
    (hv : ∀ f u, convert (w.views.get r).truncates (w.views.get r).slot v w ≠ .error (.host f) u) :
    StandsForSlot w r i v k where
  lt := hk
  cell := getIndex_plain h hr hi hk
  row hn := by
    obtain ⟨q, w', hget, -, -, -, -, hq⟩ := getIndex_nested h hr hi hk hn
    exact ⟨q, w', hget, hq⟩
  readable := (succeeds_getIndex_iff h hr hi hk).mpr hp
  write := by
    have hregular : (w.views.get r).slot.cell.IsRegular := h.cell_slot r ▸ h.regular _
    cases hx : convert (w.views.get r).truncates (w.views.get r).slot v w with
    | ok x u =>
      obtain ⟨y, m, hc, ho, hset⟩ := setIndex_convert h hr hi hk hx
      obtain ⟨hconverts, hlength⟩ := converts_rowCells h hr hx hc ho
      exact .inl ⟨_, _, hset, hconverts, (convert_ok h hregular.2 hx).2.writes_setCells
        ((h.encloses _ (h.array r hr)).row hk) hlength m⟩
    | error f u =>
      obtain ⟨value, target, reason, rfl⟩ := refused_of_convert hx fun g hg => hv g u (hg ▸ hx)
      refine .inr ⟨value, target, reason, u.log, ?_⟩
      rw [setIndex_refused h hr hi hk hx, convert_error h hregular.2 hx]

/-- The cells that a converted value gives to all slots, or to none. -/
theorem partCells_of_not_isLoose (h : w.Sound) (hr : w.views.Has r) (hl : ¬ IsLoose w r) {u : World}
    {y : Value} (hlength : (u.rowCells (w.views.get r).slot y).length = (w.shown r).rowSize) (b : Bool)
    (depth : Nat) :
    u.partCells (w.views.get r).slot ⟨[if b then 1 else 0], w.shown r, b, depth⟩ y =
      .ok (if b then (List.replicate (w.shown r).length
        (u.rowCells (w.views.get r).slot y)).flatten else []) := by
  have hslot : (w.views.get r).slot = (w.shown r).slotType := h.slot r hr
  have hstrict : ¬ ((w.views.get r).slot.cell.isObject && !(w.views.get r).slot.isNested) = true := by
    intro hloose
    rw [hslot] at hloose
    refine hl ?_
    simpa [IsLoose, SlotType.isNested, Window.slotType] using hloose
  have hshape : (w.shown r).shape = (w.shown r).length :: (w.views.get r).slot.shape := by
    obtain ⟨n, shape, hs⟩ : ∃ n shape, (w.shown r).shape = n :: shape :=
      List.exists_cons_of_ne_nil (h.shape r hr)
    simp [hslot, Window.slotType, Window.length, Window.rowShape, hs]
  have hcount : (u.rowCells (w.views.get r).slot y).length = cellCount (w.views.get r).slot.shape := by
    rw [hlength, hslot]
    rfl
  unfold partCells
  simp only [if_neg hstrict, Part.shape, hshape, List.singleton_append,
    Shape.fitted?_row _ _ hcount]
  cases b <;> simp

theorem partCells_error {slot : SlotType} {p : Part} {y : Value} {f : HostFault}
    (hf : w.partCells slot p y = .error f) : f = .value := by
  unfold partCells at hf
  dsimp only at hf
  split at hf
  · cases hf
  · cases hf
    rfl

theorem put_of_part {slot : SlotType} {win : Window} {p : Part} {y : Value} {cells : List Value}
    (hp : w.select win i = .part p) (hcells : w.partCells slot p y = .ok cells) :
    put slot win i y w = .ok () (if p.chosen then w.setCells p.window cells else w) := by
  rw [put, get_bind_apply, hp]
  dsimp only
  rw [hcells]
  by_cases hchosen : p.chosen = true
  · simp only [if_pos hchosen]
    rfl
  · simp only [if_neg hchosen]
    rfl

theorem put_of_unfit {slot : SlotType} {win : Window} {p : Part} {y : Value} {f : HostFault}
    (hp : w.select win i = .part p) (hcells : w.partCells slot p y = .error f) :
    put slot win i y w = .error (.host f) w := by
  rw [put, get_bind_apply, hp]
  dsimp only
  rw [hcells]
  rfl

theorem standsForAll (h : w.Sound) (hr : w.views.Has r) {b : Bool} (hi : i.content = .bool b)
    (hb : w.inBounds i (w.views.get r).length = .ok true) : StandsForAll w r i v b where
  read := by
    have hslot : hostSlot (w.shown r) i w =
        partValue ⟨[if b then 1 else 0], w.shown r, b, 1 + (w.shown r).shape.length⟩ w := by
      rw [hostSlot, get_bind_apply, select_bool w _ hi]
    have hget : getIndex r i w = (hostSlot (w.shown r) i >>= fun x =>
        Presenter.present (w.views.get r).presenter x (w.views.get r).scope) w := by
      rw [getIndex, look_bind_apply, get_bind_apply, hb]
      rfl
    have hcopy := copies_of_part h hr (w.views.get r).presenter (w.views.get r).scope b
      (1 + (w.shown r).shape.length)
    simp only [bind, EStateM.bind, hslot] at hget hcopy
    rwa [← hget] at hcopy
  refused _ _ := setIndex_of_refused hb
  write x u hx := by
    have hregular : (w.views.get r).slot.cell.IsRegular := h.cell_slot r ▸ h.regular _
    have hadds := (convert_ok h hregular.2 hx).2
    have hencloses : w.Encloses (w.shown r) := h.encloses _ (h.array r hr)
    obtain ⟨y, m, hc, ho, hset⟩ := setIndex_put h hr hb hx
    obtain ⟨hconverts, hlength⟩ := converts_rowCells h hr hx hc ho
    have hparts : ¬ IsLoose w r → _ := fun hl =>
      partCells_of_not_isLoose (u := { u with kept := m }) h hr hl hlength b
        (1 + (w.shown r).shape.length)
    rw [hset]
    cases hcells : World.partCells { u with kept := m } (w.views.get r).slot
      ⟨[if b then 1 else 0], w.shown r, b, 1 + (w.shown r).shape.length⟩ y with
    | error f =>
      obtain rfl := partCells_error hcells
      refine .inr ⟨?_, _, put_of_unfit (select_bool _ _ hi) hcells, hadds.buffers⟩
      by_contra hl
      rw [hparts hl] at hcells
      cases hcells
    | ok cells =>
      refine .inl ⟨_, put_of_part (select_bool _ _ hi) hcells, ?_, ?_⟩
      · rintro rfl
        by_cases hl : IsLoose w r
        · exact ⟨_, hadds.writes_cells hencloses cells m, fun hno => absurd hl hno⟩
        · rw [hparts hl] at hcells
          cases hcells
          refine ⟨_, hadds.writes_setCells hencloses ?_ m, fun _ => ⟨_, hconverts, rfl⟩⟩
          have hrow : (World.rowCells { u with kept := m } (w.views.get r).slot y).length =
              (w.shown r).rowSize := hlength
          have hsize : (w.shown r).size = (w.shown r).length * (w.shown r).rowSize :=
            Window.size_eq_length_mul_rowSize (h.shape r hr)
          simp [hrow, hsize]
      · rintro rfl
        exact hadds.buffers

theorem standsForNothing (h : w.Sound) (hr : w.views.Has r) {x : Double} (hi : i.content = .number x)
    (hb : w.inBounds i (w.views.get r).length = .ok true) : StandsForNothing w r i v where
  read := by
    rw [getIndex, look_bind_apply, get_bind_apply, hb]
    show (hostSlot (w.shown r) i >>= _) w = _
    have hslot : hostSlot (w.shown r) i w = .error (.host .index) w := by
      rw [hostSlot, get_bind_apply, select_number w _ hi]
      rfl
    exact bind_apply_of_error _ hslot
  refused _ _ := setIndex_of_refused hb
  write y u hy := by
    have hregular : (w.views.get r).slot.cell.IsRegular := h.cell_slot r ▸ h.regular _
    obtain ⟨z, m, -, -, hset⟩ := setIndex_put h hr hb hy
    refine ⟨{ u with kept := m }, ?_, (convert_ok h hregular.2 hy).2.buffers⟩
    rw [hset, put, get_bind_apply, select_number _ _ hi]
    rfl

/-- An index that is a number is named in a message as it is written. -/
theorem indexText_number (hi : i.content.IsNumber) (w : World) :
    w.indexText i = (Display.simple? i.content).getD "" := by
  have hplain : w.indexText i = w.display i := by
    rw [indexText]
    split
    · rename_i hc
      rw [hc] at hi
      exact hi.elim
    · rename_i hc
      rw [hc] at hi
      exact hi.elim
    · rename_i hc
      rw [hc] at hi
      exact hi.elim
    · rfl
  rw [hplain, display, displayFrom]
  cases hc : i.content with
  | bool b => rfl
  | int n => rfl
  | number x => rfl
  | _ =>
    rw [hc] at hi
    exact hi.elim

theorem indexText?_number (hi : i.content.IsNumber) (w : World) : w.indexText? i =
    Display.written (Display.isWritten i) ((Display.simple? i.content).getD "") := by
  rw [indexText?, indexText_number hi, displayable, displayableFrom, Display.isWritten]
  cases hc : i.content with
  | bool b => rfl
  | int n => rfl
  | number x => rfl
  | _ =>
    rw [hc] at hi
    exact hi.elim

/-- Only the whole part of a number that is not finite fails to be logged. -/
theorem wholeIndex_cases (hi : i.content.IsNumber) :
    (∃ n, w.wholeIndex i = .ok n ∧ ∀ x, i.content = .number x → x.isFinite = true) ∨
    ∃ f x, w.wholeIndex i = .error f ∧ i.content = .number x ∧ x.isFinite = false := by
  cases hc : i.content with
  | bool b =>
    refine .inl ⟨if b then 1 else 0, ?_, fun x hx => Value.noConfusion hx⟩
    rw [wholeIndex, Value.item, hc]
    rfl
  | int n =>
    refine .inl ⟨n, ?_, fun x hx => Value.noConfusion hx⟩
    rw [wholeIndex, Value.item, hc]
    rfl
  | number x =>
    rw [wholeIndex, Value.item, hc]
    cases x with
    | finite s m hm =>
      refine .inl ⟨Double.signed s (m / Double.one), rfl, ?_⟩
      rintro _ ⟨⟩
      rfl
    | nan => exact .inr ⟨.value, .nan, rfl, rfl, rfl⟩
    | infinite s => exact .inr ⟨.overflow, .infinite s, rfl, rfl, rfl⟩
  | _ =>
    rw [hc] at hi
    exact hi.elim

end

section

variable {w : World} {r : Ref .view} {i : Value}

/-- Where the bounds check is the only gate for a number in bounds, that is an integer. -/
theorem StandsForSlot.integer (h : w.Sound) (hr : w.views.Has r) (hi : i.content.IsNumber)
    (hb : w.inBounds i (w.views.get r).length = .ok true) {v : Value} {k : Nat}
    (hs : StandsForSlot w r i v k) : ∃ n, i.content = .int n := by
  cases hc : i.content with
  | int n => exact ⟨n, rfl⟩
  | bool b =>
    -- a copy has cells of its own, and reading a slot makes none
    obtain ⟨q, w', hget, hcopy⟩ := (standsForAll (v := v) h hr hc hb).read
    by_cases hn : (w.shown r).rowShape = []
    · have hreads := Presenter.reads_present (w.views.get r).presenter
        ((w.shown r).type.itemValue (w.cell (w.shown r) k)) (w.views.get r).scope w h
      rw [after_of_ok ((hs.cell hn).symm.trans hget)] at hreads
      exact absurd (hreads.2.2 ▸ hcopy.has) hcopy.fresh
    · obtain ⟨q', u, hget', hrow⟩ := hs.row hn
      rw [hget] at hget'
      cases hget'
      have hbuffer : w.buffers.Has (w'.shown q).buffer := by
        rw [hrow]
        exact (h.encloses _ (h.array r hr)).1
      exact absurd hbuffer hcopy.fresh
  | number x =>
    obtain ⟨y, u, hget⟩ := hs.readable
    rw [(standsForNothing (v := v) h hr hc hb).read] at hget
    cases hget
  | _ =>
    rw [hc] at hi
    exact hi.elim

theorem liesBelow_int {n : Int} (hi : i.content = .int n) (length : Nat) :
    i.liesBelow length = decide (0 ≤ n ∧ n < length) := by
  simp [Value.liesBelow, Value.quantity?, Value.item, hi, Quantity.liesBelow]

/-- An integer stands for a slot only if the slot can be presented, and only for values that the host
does not fail to convert. -/
theorem StandsForSlot.fits (h : w.Sound) (hr : w.views.Has r) {j k : Nat} (hi : i.IsInteger k)
    (hk : k < (w.shown r).length) {v : Value} (hs : StandsForSlot w r i v j) :
    Presentable w r k ∧
      ∀ f u, convert (w.views.get r).truncates (w.views.get r).slot v w ≠ .error (.host f) u := by
  refine ⟨(succeeds_getIndex_iff h hr hi hk).mp hs.readable, fun f u hf => ?_⟩
  have hset := setIndex_refused h hr hi hk hf
  rcases hs.write with ⟨cells, w', hok, -⟩ | ⟨value, target, reason, l, herror⟩
  · rw [hset] at hok
    cases hok
  · rw [hset] at herror
    cases herror

/-- A number beyond the bounds is refused with them, unless it cannot be logged or is not written. -/
theorem setIndex_outside (h : w.Sound) (hr : w.views.Has r) (hi : i.content.IsNumber)
    (hb : w.inBounds i (w.views.get r).length = .ok false) (v : Value) :
    (∃ l, setIndex r i v w =
      .error (.outOfBounds (w.indexText i) ((w.shown r).length - 1)) { w with log := l }) ↔
    Display.isWritten i = true ∧
      (w.threshold ≤ Severity.debug.number → ∀ x, i.content = .number x → x.isFinite = true) := by
  have hbounds : ((w.views.get r).length : Int) - 1 = (w.shown r).length - 1 := by
    rw [h.length_shown hr]
  have hlogged : ∀ l, logRejected i (w.views.get r).length w = .ok () { w with log := l } →
      setIndex r i v w = (orFail (Display.written (Display.isWritten i) (w.indexText i)) >>= fun text =>
        fail (.outOfBounds text ((w.shown r).length - 1))) { w with log := l } := by
    intro l hl
    rw [setIndex_of_out hb, bind_apply_of_ok _ hl, get_bind_apply, indexText?_number hi,
      indexText_number hi, hbounds]
  have hends : ∀ l, logRejected i (w.views.get r).length w = .ok () { w with log := l } →
      ((∃ l, setIndex r i v w =
        .error (.outOfBounds (w.indexText i) ((w.shown r).length - 1)) { w with log := l }) ↔
      Display.isWritten i = true) := by
    intro l hl
    rw [hlogged l hl]
    cases Display.isWritten i with
    | true => exact iff_of_true ⟨l, rfl⟩ rfl
    | false => exact iff_of_false (fun ⟨_, hset⟩ => nomatch hset) Bool.false_ne_true
  by_cases hl : w.threshold ≤ Severity.debug.number
  · rcases wholeIndex_cases (w := w) hi with ⟨n, hn, hfinite⟩ | ⟨f, x, hf, hx, hinfinite⟩
    · obtain ⟨l, hlog⟩ := logEvent_eq (.writeRejected n (w.views.get r).length) w
      have hlogs : logRejected i (w.views.get r).length w = .ok () { w with log := l } := by
        rw [logRejected, get_bind_apply, if_pos hl, hn]
        exact hlog
      rw [hends l hlogs, and_iff_left fun _ => hfinite]
    · refine iff_of_false ?_ fun hall => ?_
      · rintro ⟨l, hset⟩
        have hlog : logRejected i (w.views.get r).length w = .error (.host f) w := by
          rw [logRejected, get_bind_apply, if_pos hl, hf]
          rfl
        rw [setIndex_of_out hb, bind_apply_of_error _ hlog] at hset
        cases hset
      · rw [hall.2 hl x hx] at hinfinite
        cases hinfinite
  · have hlogs : logRejected i (w.views.get r).length w = .ok () { w with log := w.log } := by
      rw [logRejected, get_bind_apply, if_neg hl]
      rfl
    rw [hends w.log hlogs, and_iff_left fun hno => absurd hno hl]

end

/-- A number passes the bounds check by its exact value, but the check is the only gate just for some
numbers. In bounds these are the integers, as far as what they lead to can be presented and the host
can compute what is to be written. Beyond the bounds it is any number, except one that is not finite
while writes are logged, and an integer with too many digits for the message. A truth value in bounds
stands for all slots or for none, and a double in bounds for nothing. -/
theorem gated_iff {w : World} (hw : Reachable w) {r : Ref .view} (hr : w.views.Has r) {i : Value}
    (hi : i.content.IsNumber) (v : Value) :
    hasIndex r i w = .ok (.bool (i.liesBelow (w.shown r).length)) w ∧
    (Gated w r i v ↔
      (i.liesBelow (w.shown r).length = true → ∃ k : Nat, i.content = .int k ∧ Presentable w r k ∧
        ∀ f u, convert (w.views.get r).truncates (w.views.get r).slot v w ≠ .error (.host f) u) ∧
      (i.liesBelow (w.shown r).length = false →
        (∀ n, i.content = .int n → n.natAbs < 10 ^ digitLimit) ∧
          (w.threshold ≤ Severity.debug.number → ∀ x, i.content = .number x → x.isFinite = true))) ∧
    (i.liesBelow (w.shown r).length = true →
      (∀ b, i.content = .bool b → StandsForAll w r i v b) ∧
      ∀ x, i.content = .number x → StandsForNothing w r i v) := by
  have h := hw.sound
  have hbounds : ∀ b, i.liesBelow (w.shown r).length = b →
      w.inBounds i (w.views.get r).length = .ok b := by
    intro b hb
    rw [inBounds_number w hi, h.length_shown hr, hb]
  refine ⟨hasIndex_number h hr hi, ⟨fun hgated => ⟨fun hb => ?_, fun hb => ?_⟩,
    fun hfits => ⟨fun hb => ?_, fun hb => ?_⟩⟩, fun hb => ⟨fun b hc => standsForAll h hr hc (hbounds true hb),
      fun x hc => standsForNothing h hr hc (hbounds true hb)⟩⟩
  · obtain ⟨k, hs⟩ := hgated.inside hb
    obtain ⟨n, hn⟩ := hs.integer h hr hi (hbounds true hb)
    rw [liesBelow_int hn, decide_eq_true_eq] at hb
    obtain ⟨k', rfl⟩ := Int.eq_ofNat_of_zero_le hb.1
    exact ⟨k', hn, hs.fits h hr (.inl hn) (by omega)⟩
  · rw [← Display.isWritten_iff]
    exact (setIndex_outside h hr hi (hbounds false hb) v).mp (hgated.outside hb).2
  · obtain ⟨k, hk, hp, hv⟩ := hfits.1 hb
    rw [liesBelow_int hk, decide_eq_true_eq] at hb
    exact ⟨k, standsForSlot h hr (.inl hk) (by omega) hp hv⟩
  · have hwritten := hfits.2 hb
    rw [← Display.isWritten_iff] at hwritten
    exact ⟨getIndex_of_out (hbounds false hb),
      (setIndex_outside h hr hi (hbounds false hb) v).mpr hwritten⟩

/-- The check lets true through for the rows of a square, and a write by it reaches both rows. -/
theorem bool_index_fills_all : hasIndex ⟨0⟩ (.bool true) square = .ok (.bool true) square ∧
    ¬ Gated square ⟨0⟩ (.bool true) (.list ⟨0⟩) ∧
    StandsForAll square ⟨0⟩ (.bool true) (.list ⟨0⟩) true ∧
    ∃ w', setIndex ⟨0⟩ (.bool true) (.list ⟨0⟩) square = .ok () w' ∧
      w'.cells (square.shown ⟨0⟩) = [.int 5, .int 6, .int 5, .int 6] := by
  have hbounds : (Value.bool true).liesBelow (square.shown ⟨0⟩).length = true := by rfl
  obtain ⟨hindex, hgated, hall⟩ := gated_iff reachable_square (show square.views.Has ⟨0⟩ by decide)
    (i := .bool true) True.intro (.list ⟨0⟩)
  refine ⟨hbounds ▸ hindex, fun h => ?_, (hall hbounds).1 true rfl, _, rfl, rfl⟩
  obtain ⟨k, hk, -⟩ := (hgated.mp h).1 hbounds
  cases hk

end View
end ScriptedArrays
