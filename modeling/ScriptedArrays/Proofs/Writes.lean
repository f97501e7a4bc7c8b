import ScriptedArrays.Proofs.Execution

/-! Indexed writes. A write by an integer either fails and leaves everything but the log as it
was, or replaces the cells of one slot by the converted value, which the next read presents. -/

namespace ScriptedArrays

open World

/-- The value is an integer of the host, of any size, or the content of an integer cell. -/
def Value.IsInteger (i : Value) (n : Int) : Prop :=
  i.content = .int n ∨
    ∃ t signed bytes, t.content = .int signed bytes ∧ i.content = .scalar t (.int n)

namespace Value.IsInteger

variable {i : Value} {n : Int}

theorem item (hi : i.IsInteger n) : i.item = .int n := by
  rcases hi with hc | ⟨t, signed, bytes, -, hc⟩
  · rw [Value.item, hc]
  · rw [Value.item, hc]

theorem quantity (hi : i.IsInteger n) : i.quantity? = some (.int n) := by
  rw [Value.quantity?, hi.item]

theorem numberType (hi : i.IsInteger n) : ∀ c ∈ i.numberType?, c.isInteger = true := by
  intro c h
  rcases hi with hc | ⟨t, signed, bytes, ht, hc⟩
  · rw [Value.numberType?, hc] at h
    cases h
  · rw [Value.numberType?, hc] at h
    dsimp only at h
    split at h
    · cases h
      rw [ht]
      rfl
    · cases h

end Value.IsInteger

theorem relate?_int (rel : Relation) (m n : Int) :
    Quantity.relate? rel (.int m) (.int n) = some (rel.ints m n) := by
  have hzero : Double.zero.equal .zero = true := Double.equal_self rfl
  cases rel <;> simp [Quantity.relate?, Quantity.isComplex, Quantity.parts, Quantity.relateReal, hzero]

theorem jointPrecision?_int {c d : Option Content} (hc : ∀ x ∈ c, x.isInteger = true)
    (hd : ∀ x ∈ d, x.isInteger = true) (m n : Int) :
    Quantity.jointPrecision? c d (.int m) (.int n) = none := by
  cases c with
  | none =>
    cases d with
    | none => rfl
    | some d => simp [Quantity.jointPrecision?, Quantity.meetingPrecision?, hd d rfl]
  | some c =>
    cases d with
    | none => simp [Quantity.jointPrecision?, Quantity.meetingPrecision?, hc c rfl]
    | some d => simp [Quantity.jointPrecision?, hc c rfl, hd d rfl]

def Verdict.Tells (v : Verdict) (b : Bool) : Prop := v = .plain b ∨ v = .cells [] [b]

namespace Verdict.Tells

variable {v : Verdict} {b : Bool}

theorem truth (h : v.Tells b) : v.truth = .ok b := by
  rcases h with rfl | rfl
  · rfl
  · rfl

theorem value (h : v.Tells b) (w : World) : ∃ x, v.value w = .ok x w ∧ x.item = .bool b := by
  rcases h with rfl | rfl
  · exact ⟨.bool b, rfl, rfl⟩
  · exact ⟨.scalar (.native .bool) (.bool b), rfl, rfl⟩

end Verdict.Tells

theorem relate_integer (w : World) (rel : Relation) {a b : Value} {m n : Int} (ha : a.IsInteger m)
    (hb : b.IsInteger n) : ∃ v, w.relate rel a b = .ok v ∧ v.Tells (rel.ints m n) := by
  have htyped : Quantity.relateTyped rel a.numberType? b.numberType? (.int m) (.int n) =
      .ok (rel.ints m n) := by
    rw [Quantity.relateTyped, jointPrecision?_int ha.numberType hb.numberType]
    simp [relate?_int]
  rw [World.relate, relateFrom]
  simp only [ha.quantity, hb.quantity]
  split
  · rw [relate?_int]
    exact ⟨_, rfl, .inl rfl⟩
  · rw [htyped]
    exact ⟨_, rfl, .inr rfl⟩

/-- An integer lies in bounds by its value. -/
theorem bounds_integer (w : World) {i : Value} {n : Int} (hi : i.IsInteger n) (length : Nat) :
    ∃ v, w.bounds i length = .ok v ∧ v.Tells (decide (0 ≤ n ∧ n < length)) := by
  have hzero : (Value.int 0).IsInteger 0 := .inl rfl
  have hlength : (Value.int length).IsInteger length := .inl rfl
  obtain ⟨above, habove, htrue⟩ := relate_integer w .atMost hzero hi
  obtain ⟨below, hbelow, hless⟩ := relate_integer w .less hi hlength
  have hle : Relation.ints .atMost 0 n = decide (0 ≤ n) := by
    rw [Bool.eq_iff_iff]
    simp only [Relation.ints, Relation.judge, Bool.or_eq_true, decide_eq_true_eq, beq_iff_eq]
    omega
  rw [hle] at htrue
  rw [bounds, habove]
  show ∃ v, (above.truth >>= fun b => if b then w.relate .less i (.int length) else return above) =
    .ok v ∧ _
  rw [htrue.truth]
  by_cases h0 : 0 ≤ n
  · simp only [h0, true_and]
    exact ⟨below, hbelow, hless⟩
  · have hno : ¬ (0 ≤ n ∧ n < (length : Int)) := fun h => h0 h.1
    rw [decide_eq_false hno, decide_eq_false h0]
    rw [decide_eq_false h0] at htrue
    exact ⟨above, rfl, htrue⟩

theorem inBounds_integer (w : World) {i : Value} {n : Int} (hi : i.IsInteger n) (length : Nat) :
    w.inBounds i length = .ok (decide (0 ≤ n ∧ n < length)) := by
  obtain ⟨v, hv, htells⟩ := bounds_integer w hi length
  rw [inBounds, hv]
  exact htells.truth

/-- The array that a view shows. -/
def World.shown (w : World) (r : Ref .view) : Window := w.arrays.get (w.views.get r).array

theorem World.Sound.length_shown {w : World} (h : w.Sound) {r : Ref .view} (hr : w.views.Has r) :
    (w.views.get r).length = (w.shown r).length := h.length r hr

theorem World.Sound.isNested {w : World} (h : w.Sound) {r : Ref .view} (hr : w.views.Has r) :
    (w.views.get r).slot.isNested = !(w.shown r).rowShape.isEmpty := by
  rw [h.slot r hr]
  rfl

theorem World.Extends.shown {w w' : World} (he : w.Extends w') (h : w.Sound) {r : Ref .view}
    (hr : w.views.Has r) : w'.shown r = w.shown r := by
  rw [World.shown, he.view r hr, World.shown]
  exact he.array _ (h.array r hr)

theorem select_integer (w : World) {win : Window} {i : Value} {k : Nat} (hi : i.IsInteger k)
    (hk : k < win.length) : w.select win i = .slot k := by
  rw [select, hi.item]
  exact if_pos hk

namespace View

section Read

variable {w : World} {r : Ref .view} {i : Value} {k : Nat}

theorem inBounds_slot (h : w.Sound) (hr : w.views.Has r) (hi : i.IsInteger k)
    (hk : k < (w.shown r).length) : w.inBounds i (w.views.get r).length = .ok true := by
  rw [inBounds_integer w hi, h.length_shown hr]
  simpa using hk

theorem getIndex_of_in (h : w.Sound) (hr : w.views.Has r) (hi : i.IsInteger k)
    (hk : k < (w.shown r).length) :
    getIndex r i w = (slotValue (w.shown r) k >>= fun x =>
      Presenter.present (w.views.get r).presenter x (w.views.get r).scope) w := by
  rw [getIndex, look_bind_apply, get_bind_apply, inBounds_slot h hr hi hk]
  show (hostSlot (w.shown r) i >>= _) w = _
  have hslot : hostSlot (w.shown r) i w = slotValue (w.shown r) k w := by
    rw [hostSlot, get_bind_apply, select_integer w hi hk]
  simp only [bind, EStateM.bind, hslot]

theorem getIndex_plain (h : w.Sound) (hr : w.views.Has r) (hi : i.IsInteger k)
    (hk : k < (w.shown r).length) (hn : (w.shown r).rowShape = []) :
    getIndex r i w = Presenter.present (w.views.get r).presenter
      ((w.shown r).type.itemValue (w.cell (w.shown r) k)) (w.views.get r).scope w := by
  rw [getIndex_of_in h hr hi hk]
  exact bind_apply_of_ok _ (slotValue_plain hn k w)

theorem getIndex_nested (h : w.Sound) (hr : w.views.Has r) (hi : i.IsInteger k)
    (hk : k < (w.shown r).length) (hn : (w.shown r).rowShape ≠ []) :
    ∃ q w', getIndex r i w = .ok (.view q) w' ∧ w'.Sound ∧ w.Extends w' ∧ w'.buffers = w.buffers ∧
      w'.views.Has q ∧ w'.shown q = (w.shown r).row k := by
  obtain ⟨u, hu, hs, he, hb, -, -, hhas, hget⟩ := slotValue_nested h (h.shows _) hk hn
  have hrow : (u.arrays.get w.arrays.next).shape ≠ [] := by
    rw [hget]
    exact hn
  obtain ⟨q, w', hw, hs', he', hb', hq, harray⟩ :=
    Presenter.present_array hs (w.views.get r).presenter (w.views.get r).scope hrow
  refine ⟨q, w', ?_, hs', he.trans he', hb'.trans hb, hq, ?_⟩
  · rw [getIndex_of_in h hr hi hk, ← hw]
    exact bind_apply_of_ok _ hu
  · rw [shown, harray, he'.array _ hhas, hget]
    rfl

end Read

section Write

variable {w w' : World} {r : Ref .view} {i v : Value} {n : Int}

theorem logRejected_eq (hi : i.IsInteger n) (length : Nat) (w : World) :
    logRejected i length w = logEvent (.writeRejected n length) w := by
  have hwhole : w.wholeIndex i = .ok n := by
    rw [wholeIndex, hi.item]
    rfl
  rw [logRejected, get_bind_apply]
  by_cases hl : w.threshold ≤ Severity.debug.number
  · rw [if_pos hl, hwhole]
    rfl
  · rw [if_neg hl, logEvent_of_not_le hl]
    rfl

theorem setIndex_put (h : w.Sound) (hr : w.views.Has r)
    (hb : w.inBounds i (w.views.get r).length = .ok true) {x : Value} {u : World}
    (hx : convert (w.views.get r).truncates (w.views.get r).slot v w = .ok x u) :
    ∃ y m, y.content = x.content ∧ (x.isObject = true → y = x) ∧
      setIndex r i v w = put (w.views.get r).slot (w.shown r) i y { u with kept := m } := by
  have hregular : (w.views.get r).slot.cell.IsRegular := h.cell_slot r ▸ h.regular _
  have hshown : u.arrays.get (w.views.get r).array = w.shown r :=
    (convert_ok h hregular.2 hx).2.extends_.array _ (h.array r hr)
  obtain ⟨y, m, hy, hc, ho⟩ := keep_eq x u
  refine ⟨y, m, hc, ho, ?_⟩
  rw [setIndex_of_in hb, bind_apply_of_ok _ hx, bind_apply_of_ok _ hy, get_bind_apply, hshown]

theorem setIndex_of_refused (hb : w.inBounds i (w.views.get r).length = .ok true) {f : Fault} {u : World}
    (hf : convert (w.views.get r).truncates (w.views.get r).slot v w = .error f u) :
    setIndex r i v w = .error f u := by
  rw [setIndex_of_in hb]
  exact bind_apply_of_error _ hf

theorem put_of_slot {slot : SlotType} {win : Window} {k : Nat} (hs : w.select win i = .slot k)
    (y : Value) : put slot win i y w = .ok () (w.setCells (win.row k) (w.rowCells slot y)) := by
  rw [put, get_bind_apply, hs]
  rfl

theorem setIndex_convert (h : w.Sound) (hr : w.views.Has r) {k : Nat} (hi : i.IsInteger k)
    (hk : k < (w.shown r).length) {x : Value} {u : World}
    (hx : convert (w.views.get r).truncates (w.views.get r).slot v w = .ok x u) :
    ∃ y m, y.content = x.content ∧ (x.isObject = true → y = x) ∧
      setIndex r i v w = .ok () (World.setCells { u with kept := m } ((w.shown r).row k)
        (u.rowCells (w.views.get r).slot y)) := by
  obtain ⟨y, m, hc, ho, hset⟩ := setIndex_put h hr (inBounds_slot h hr hi hk) hx
  exact ⟨y, m, hc, ho, hset.trans (put_of_slot (select_integer _ hi hk) y)⟩

theorem setIndex_refused (h : w.Sound) (hr : w.views.Has r) {k : Nat} (hi : i.IsInteger k)
    (hk : k < (w.shown r).length) {f : Fault} {u : World}
    (hf : convert (w.views.get r).truncates (w.views.get r).slot v w = .error f u) :
    setIndex r i v w = .error f u :=
  setIndex_of_refused (inBounds_slot h hr hi hk) hf

theorem setIndex_beyond (h : w.Sound) (hr : w.views.Has r) (hi : i.IsInteger n)
    (hn : ¬ (0 ≤ n ∧ n < (w.shown r).length)) :
    ∃ f l, setIndex r i v w = .error f { w with log := l } := by
  have hb : w.inBounds i (w.views.get r).length = .ok false := by
    rw [inBounds_integer w hi, h.length_shown hr, decide_eq_false hn]
  obtain ⟨l, hl⟩ := logEvent_eq (.writeRejected n (w.views.get r).length) w
  rw [setIndex_of_out hb, bind_apply_of_ok _ ((logRejected_eq hi _ w).trans hl), get_bind_apply]
  cases World.indexText? { w with log := l } i with
  | ok text => exact ⟨_, l, rfl⟩
  | error f => exact ⟨_, l, rfl⟩

end Write
end View

/-- The world differs in the cells of the window, which are the given ones, and in no other
cell that there was. -/
structure World.Writes (w w' : World) (win : Window) (cells : List Value) : Prop where
  extends_ : w.Extends w'
  written : w'.cells win = cells
  others : ∀ b, w.buffers.Has b → ∀ p,
    (b = win.buffer → p < win.start ∨ win.start + win.size ≤ p) →
    (w'.buffers.get b)[p]? = (w.buffers.get b)[p]?

/-- The cells that a view puts into a slot for a value: the content to which it is converted
as the slot stores it, or those of the array to which it is converted. -/
def World.Converts (w : World) (r : Ref .view) (v : Value) (cells : List Value) : Prop :=
  let slot := (w.views.get r).slot
  ∃ x u, convert (w.views.get r).truncates slot v w = .ok x u ∧
    ((slot.isNested = false ∧ ∃ y, y.content = x.content ∧ cells = [slot.cell.stored y]) ∨
      (slot.isNested = true ∧ ∃ a, x = .array a ∧ (u.arrays.get a).type = slot.cell ∧
        (u.arrays.get a).shape = slot.shape ∧ cells = u.cells (u.arrays.get a)))

namespace World

variable {w w' u : World} {win : Window} {cells : List Value}

/-- Cells written after a conversion are the only ones that differ, however many are given. -/
theorem Adds.writes_cells (ha : w.Adds u) (hw : w.Encloses win) (cells : List Value) (m : Nat) :
    w.Writes (setCells { u with kept := m } win cells) win
      ((setCells { u with kept := m } win cells).cells win) := by
  have hbuffer : u.buffers.get win.buffer = w.buffers.get win.buffer := ha.buffers _ hw.1
  have hget : ∀ b, w.buffers.Has b → ∀ p, (b = win.buffer → p < win.start ∨ win.start + win.size ≤ p) →
      ((setCells { u with kept := m } win cells).buffers.get b)[p]? = (w.buffers.get b)[p]? := by
    intro b hb p hp
    simp only [setCells, Store.get_set]
    split
    · rename_i hwin
      obtain ⟨rfl, -⟩ := hwin
      rw [getElem?_overwrite, hbuffer, if_neg]
      have := List.length_take_le win.size cells
      rcases hp rfl with hp | hp <;> omega
    · rw [ha.buffers b hb]
  refine ⟨ha.extends_.trans ?_, rfl, hget⟩
  exact {
    hasArray := fun r hr => hr
    array := fun r _ => rfl
    hasBuffer := fun b hb => (Store.has_set _ _ _ _).mpr hb
    size := fun b _ => by
      simp only [setCells, Store.get_set]
      split
      · rename_i hb
        rw [size_overwrite, hb.1]
      · rfl
    hasView := fun q hq => hq
    view := fun q _ => rfl }

theorem Adds.writes_setCells (ha : w.Adds u) (hw : w.Encloses win) (hl : cells.length = win.size)
    (m : Nat) : w.Writes (setCells { u with kept := m } win cells) win cells := by
  have henclosed : Encloses { u with kept := m } win := by
    refine ⟨ha.extends_.hasBuffer _ hw.1, ?_⟩
    show win.start + win.size ≤ (u.buffers.get win.buffer).size
    rw [ha.buffers _ hw.1]
    exact hw.2
  have hwrites := ha.writes_cells hw cells m
  rwa [cells_setCells_self henclosed hl] at hwrites

theorem Writes.cells_of_apart (h : w.Writes w' win cells) {other : Window} (ho : w.Encloses other)
    (hd : other.buffer = win.buffer →
      other.start + other.size ≤ win.start ∨ win.start + win.size ≤ other.start) :
    w'.cells other = w.cells other := by
  have ho' : w'.Encloses other :=
    ⟨h.extends_.hasBuffer _ ho.1, by rw [h.extends_.size _ ho.1]; exact ho.2⟩
  apply List.ext_getElem?
  intro p
  by_cases hp : p < other.size
  · rw [getElem?_cells ho' hp, getElem?_cells ho hp]
    refine h.others _ ho.1 _ fun hb => ?_
    rcases hd hb with hd | hd
    · left
      omega
    · right
      omega
  · rw [List.getElem?_eq_none (by rw [length_cells ho']; omega),
      List.getElem?_eq_none (by rw [length_cells ho]; omega)]

end World

/-- The converted value has a cell for each place of the slot. -/
theorem converts_rowCells {w u : World} {r : Ref .view} {v x y : Value} (h : w.Sound)
    (hr : w.views.Has r) (hx : convert (w.views.get r).truncates (w.views.get r).slot v w = .ok x u)
    (hc : y.content = x.content) (ho : x.isObject = true → y = x) :
    w.Converts r v (u.rowCells (w.views.get r).slot y) ∧
      (u.rowCells (w.views.get r).slot y).length = (w.shown r).rowSize := by
  have hregular : (w.views.get r).slot.cell.IsRegular := h.cell_slot r ▸ h.regular _
  have hslot : (w.views.get r).slot.shape = (w.shown r).rowShape := by
    rw [h.slot r hr]
    rfl
  rcases convert_cases (w.views.get r).truncates v h hregular.2 with
    ⟨f, l, hf⟩ | ⟨hn, x', hx', -⟩ | ⟨hn, a, u', hu, hs, -, hhas, htype, hshape⟩
  · rw [hf] at hx
    cases hx
  · have hplain : (w.shown r).rowShape = [] := by
      rw [← hslot]
      simpa [SlotType.isNested] using hn
    rw [World.rowCells_single hn]
    refine ⟨⟨x, u, hx, .inl ⟨hn, y, hc, rfl⟩⟩, ?_⟩
    rw [Window.rowSize, hplain]
    rfl
  · rw [hu] at hx
    cases hx
    rw [rowType_of_regular hregular] at htype
    rw [ho rfl, World.rowCells_array hn]
    refine ⟨⟨.array a, u, hu, .inr ⟨hn, a, rfl, htype, hshape, rfl⟩⟩, ?_⟩
    rw [length_cells (hs.encloses a hhas), Window.size, hshape, hslot]
    rfl

/-- The outcome of a write: it fails and only logs, or it replaces the cells of the slot. -/
theorem View.setIndex_cases {w : World} (h : w.Sound) {r : Ref .view} (hr : w.views.Has r) {i : Value}
    {n : Int} (hi : i.IsInteger n) (v : Value) :
    (∃ f l, setIndex r i v w = .error f { w with log := l }) ∨
    ∃ k : Nat, n = k ∧ k < (w.shown r).length ∧ ∃ cells w', setIndex r i v w = .ok () w' ∧
      w'.Sound ∧ w.Converts r v cells ∧ w.Writes w' ((w.shown r).row k) cells := by
  by_cases hn : 0 ≤ n ∧ n < (w.shown r).length
  · obtain ⟨k, rfl⟩ := Int.eq_ofNat_of_zero_le hn.1
    have hk : k < (w.shown r).length := by exact_mod_cast hn.2
    have hregular : (w.views.get r).slot.cell.IsRegular := h.cell_slot r ▸ h.regular _
    cases hx : convert (w.views.get r).truncates (w.views.get r).slot v w with
    | error f u =>
      left
      rw [setIndex_refused h hr hi hk hx, convert_error h hregular.2 hx]
      exact ⟨f, u.log, rfl⟩
    | ok x u =>
      right
      obtain ⟨y, m, hc, ho, hset⟩ := setIndex_convert h hr hi hk hx
      obtain ⟨hconverts, hlength⟩ := converts_rowCells h hr hx hc ho
      have hencloses : w.Encloses ((w.shown r).row k) :=
        (h.encloses _ (h.array r hr)).row hk
      have hsound := leads_setIndex r i v w h
      rw [after_of_ok hset] at hsound
      exact ⟨k, rfl, hk, _, _, hset, hsound.1, hconverts,
        (convert_ok h hregular.2 hx).2.writes_setCells hencloses hlength m⟩
  · exact .inl (setIndex_beyond h hr hi hn)

/-- Cells of the type hold truth values, numbers, texts or bytes. -/
def Content.IsScalar : Content → Prop
  | .bool | .int .. | .real _ | .complex _ | .text _ | .bytes _ => True
  | _ => False

theorem Conversion.isScalar_of_toCell {w : World} {truncates : Bool} {cell : CellType} {v x : Value}
    (hx : toCell w truncates cell v = .ok x) (ho : cell.isObject = false) : cell.content.IsScalar := by
  cases hc : cell.content with
  | object => simp [CellType.isObject, hc] at ho
  | date _ | duration _ | raw _ =>
    rw [toCell, hc] at hx
    cases hx
  | _ => exact True.intro

theorem isObject_of_isScalar {t : CellType} (hs : t.content.IsScalar) : t.isObject = false := by
  by_contra ho
  rw [show t.content = .object by simpa [CellType.isObject] using ho] at hs
  exact hs

/-- The value is a content without parts that refers to no object. -/
def Value.IsPrimitive : Value → Prop
  | .null | .bool _ | .int _ | .number _ | .complex .. | .text _ | .bytes _ | .date _
  | .duration _ => True
  | _ => False

namespace Value.IsPrimitive

variable {v : Value}

theorem content (h : v.IsPrimitive) : v.content = v := by
  cases v with
  | kept id x => exact h.elim
  | member owner name x => exact h.elim
  | _ => rfl

theorem item (h : v.IsPrimitive) : v.item = v := by
  cases v with
  | kept id x => exact h.elim
  | member owner name x => exact h.elim
  | scalar t x => exact h.elim
  | _ => rfl

theorem isWrapper (h : v.IsPrimitive) : v.isWrapper = false := by
  cases v with
  | view r => exact h.elim
  | box r => exact h.elim
  | _ => rfl

end Value.IsPrimitive

/-- What a cell holds that is not for objects is a primitive. -/
theorem isPrimitive_of_admits {t : CellType} {v : Value} (ho : t.isObject = false)
    (hv : t.content.Admits v) : v.IsPrimitive := by
  cases ht : t.content with
  | bool =>
    obtain ⟨b, rfl⟩ := ht ▸ hv
    exact True.intro
  | int signed width =>
    obtain ⟨n, rfl, -⟩ := ht ▸ hv
    exact True.intro
  | real p =>
    obtain ⟨y, rfl, -⟩ := ht ▸ hv
    exact True.intro
  | complex p =>
    obtain ⟨re, im, rfl, -⟩ := ht ▸ hv
    exact True.intro
  | text n =>
    obtain ⟨s, rfl⟩ := ht ▸ hv
    exact True.intro
  | bytes n =>
    obtain ⟨b, rfl⟩ := ht ▸ hv
    exact True.intro
  | object => simp [CellType.isObject, ht] at ho
  | date unit =>
    rcases ht ▸ hv with rfl | ⟨d, rfl⟩ <;> exact True.intro
  | duration unit =>
    rcases ht ▸ hv with rfl | ⟨s, rfl⟩ <;> exact True.intro
  | raw n =>
    obtain ⟨b, rfl⟩ := ht ▸ hv
    exact True.intro

theorem presentable_itemValue {t : CellType} (hs : t.content.IsScalar) {c : Value}
    (hc : t.content.Admits c) (w : World) : w.Presentable (t.itemValue c) := by
  have ho : t.isObject = false := isObject_of_isScalar hs
  have hprimitive : c.IsPrimitive := isPrimitive_of_admits ho hc
  refine ⟨0, .here ?_⟩
  simp only [World.onlyCell?]
  split
  · rename_i a ha
    rw [CellType.itemValue, if_neg (by simp [ho])] at ha
    change c.content = .array a at ha
    rw [hprimitive.content] at ha
    rw [ha] at hprimitive
    exact hprimitive.elim
  · rfl

/-- What was converted for a cell other than one for objects can be presented. -/
theorem presentable_of_converts {w : World} {r : Ref .view} {v c : Value}
    (h : w.Converts r v [c]) (hn : (w.views.get r).slot.isNested = false)
    (ho : (w.views.get r).slot.cell.isObject = false) (w' : World) :
    w'.Presentable ((w.views.get r).slot.cell.itemValue c) := by
  obtain ⟨x, u, hx, ⟨-, y, hy, hc⟩ | ⟨hn', -⟩⟩ := h
  · cases hcell : Conversion.toCell w (w.views.get r).truncates (w.views.get r).slot.cell v with
    | error f =>
      obtain ⟨g, l, hg⟩ : ∃ g l, (refuseWith f : Action Value) w = .error g { w with log := l } :=
        refuseWith_eq f w
      rw [convert_plain_refused (by simp [hn]) hcell, hg] at hx
      cases hx
    | ok z =>
      have hplain : ¬ (w.views.get r).slot.cell.isObject = true := by simp [ho]
      rw [convert_plain (by simp [hn]) hcell, if_neg hplain] at hx
      cases hx
      have hstored : (w.views.get r).slot.cell.stored y = (w.views.get r).slot.cell.stored z := by
        rw [stored_of_content ho hy, CellType.stored, if_neg hplain, item_sameText, CellType.stored,
          if_neg hplain]
      rw [(List.cons.inj hc).1, hstored]
      exact presentable_itemValue (Conversion.isScalar_of_toCell hcell ho)
        (Conversion.accepts_of_toCell hcell).1 w'
  · rw [hn] at hn'
    cases hn'

/-- What is read at an index at which some cells were written: their only content presented as
the host hands it out, or a view of the row. -/
structure World.Presents (w : World) (r : Ref .view) (i : Value) (row : Window)
    (cells : List Value) : Prop where
  plain : row.shape = [] → ∃ c, cells = [c] ∧
    View.getIndex r i w = Presenter.present (w.views.get r).presenter (row.type.itemValue c)
      (w.views.get r).scope w ∧
    (row.type.isObject = false ∨ w.Presentable (row.type.itemValue c) →
      Succeeds (View.getIndex r i) w)
  nested : row.shape ≠ [] → ∃ q w', View.getIndex r i w = .ok (.view q) w' ∧
    w'.buffers = w.buffers ∧ w'.shown q = row ∧ w'.cells (w'.shown q) = cells

theorem presents_of_writes {w w' : World} (h : w.Sound) (h' : w'.Sound) {r : Ref .view}
    (hr : w.views.Has r) {i : Value} {k : Nat} (hi : i.IsInteger k) (hk : k < (w.shown r).length)
    {v : Value} {cells : List Value} (hv : w.Converts r v cells)
    (hw : w.Writes w' ((w.shown r).row k) cells) : w'.Presents r i ((w.shown r).row k) cells := by
  have hr' : w'.views.Has r := hw.extends_.hasView r hr
  have hshown : w'.shown r = w.shown r := hw.extends_.shown h hr
  have hk' : k < (w'.shown r).length := by rwa [hshown]
  constructor
  · intro hrow
    have hrow' : (w'.shown r).rowShape = [] := by rwa [hshown]
    have hn : (w.views.get r).slot.isNested = false := by
      rw [h.isNested hr, ← Window.shape_row (w.shown r) k, hrow]
      rfl
    have hcell : cells = [w'.cell (w.shown r) k] := by
      have henc : w'.Encloses ((w.shown r).row k) := hshown ▸ (h'.encloses _ (h'.array r hr')).row hk'
      have hsize : ((w.shown r).row k).size = 1 := by
        rw [Window.size, hrow]
        rfl
      have hlen := length_cells henc
      have h0 := getElem?_cells henc (show 0 < ((w.shown r).row k).size by omega)
      rw [hw.written, hsize] at hlen
      rw [hw.written] at h0
      obtain ⟨c, rfl⟩ := List.length_eq_one_iff.mp hlen
      have hstart : ((w.shown r).row k).start + 0 = (w.shown r).start + k := by
        have hone : (w.shown r).rowSize = 1 := hsize
        simp [Window.row, hone]
      rw [hstart, List.getElem?_cons_zero] at h0
      rw [World.cell, ← Window.buffer_row (w.shown r) k, ← h0]
      rfl
    have hget := View.getIndex_plain h' hr' hi hk' hrow'
    rw [hshown] at hget
    refine ⟨_, hcell, hget, fun hc => ?_⟩
    rw [Succeeds, hget]
    apply Presenter.succeeds_present h'
    rcases hc with ho | hc
    · have htype : (w.views.get r).slot.cell = (w.shown r).type := h.cell_slot r
      have ho' : (w.views.get r).slot.cell.isObject = false := htype ▸ ho
      rw [hcell] at hv
      rw [← htype]
      exact presentable_of_converts hv hn ho' w'
    · exact hc
  · intro hrow
    have hrow' : (w'.shown r).rowShape ≠ [] := by rwa [hshown]
    obtain ⟨q, u, hget, -, -, hb, -, hq⟩ := View.getIndex_nested h' hr' hi hk' hrow'
    rw [hshown] at hq
    refine ⟨q, u, hget, hb, hq, ?_⟩
    rw [hq, ← hw.written, World.cells, hb]
    rfl

/-- Writes are atomic and local. In whatever state and whatever is written, an indexed write
fails and leaves all cells as they were, or it replaces the cells of the slot by those to which
the value is converted, changes no other cell, and is read back. -/
theorem View.setIndex_atomic {w : World} (hw : Reachable w) {r : Ref .view} (hr : w.views.Has r)
    {i : Value} {n : Int} (hi : i.IsInteger n) (v : Value) :
    (∃ f l, setIndex r i v w = .error f { w with log := l }) ∨
    ∃ k : Nat, n = k ∧ k < (w.shown r).length ∧ ∃ cells w', setIndex r i v w = .ok () w' ∧
      w.Converts r v cells ∧ w.Writes w' ((w.shown r).row k) cells ∧
      w'.Presents r i ((w.shown r).row k) cells := by
  rcases setIndex_cases hw.sound hr hi v with hfail | ⟨k, rfl, hk, cells, w', hset, hs, hc, hwrites⟩
  · exact .inl hfail
  · exact .inr ⟨k, rfl, hk, cells, w', hset, hc, hwrites,
      presents_of_writes hw.sound hs hr hi hk hc hwrites⟩

def square : World := World.empty.afterAll [
  .newPresenter .standard,
  .buildArray (.native (.int true 1)) [2, 2] [],
  .newView .null ⟨1⟩ ⟨0⟩ none false,
  .newList [.int 5, .int 6]]

theorem reachable_square : Reachable square := by
  apply Reachable.start.afterAll
  simp [Operation.IsProper, CellType.native, Content.IsProper]

theorem View.setIndex_list_fills_row : ∃ cells w',
    setIndex ⟨0⟩ (.int 1) (.list ⟨0⟩) square = .ok () w' ∧
    square.Converts ⟨0⟩ (.list ⟨0⟩) cells ∧ square.Writes w' ((square.shown ⟨0⟩).row 1) cells ∧
    w'.Presents ⟨0⟩ (.int 1) ((square.shown ⟨0⟩).row 1) cells := by
  rcases View.setIndex_atomic reachable_square (show square.views.Has ⟨0⟩ by decide)
    (.inl rfl : (Value.int 1).IsInteger 1) (.list ⟨0⟩) with ⟨f, l, hf⟩ | ⟨k, hk, -, h⟩
  · have hok : (match setIndex ⟨0⟩ (.int 1) (.list ⟨0⟩) square with
      | .ok _ _ => true
      | .error _ _ => false) = true := by rfl
    rw [hf] at hok
    cases hok
  · obtain rfl : k = 1 := by omega
    exact h

end ScriptedArrays
