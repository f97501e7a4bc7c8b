import ScriptedArrays.Proofs.RowCasts

/-! Whole numbers in integer cells. A number goes into an integer cell as its whole part, if that is
in the range of the cell, and is refused otherwise. Nothing is ever reduced to the width of the
cell, whether a number is written alone, in a nest of sequences or in an array. -/

namespace ScriptedArrays

open World

/-- The integer is what is left of the number without its fraction: its magnitude is the greatest
one that is no greater, and its sign the same. -/
def Double.TruncatesTo (x : Double) (k : Int) : Prop :=
  ∃ negative n h, x = .finite negative n h ∧
    k.natAbs * one ≤ n ∧ n < (k.natAbs + 1) * one ∧
    (k < 0 → negative = true) ∧ (0 < k → negative = false)

theorem Double.natAbs_signed (negative : Bool) (n : Nat) : (signed negative n).natAbs = n := by
  cases negative <;> simp [signed]

theorem Double.signed_mul (negative : Bool) (n k : Nat) :
    signed negative (n * k) = signed negative n * k := by
  cases negative with
  | false => exact Int.natCast_mul n k
  | true => exact (congrArg Neg.neg (Int.natCast_mul n k)).trans (Int.neg_mul _ _).symm

theorem Double.signed_natAbs {negative : Bool} {k : Int} (hneg : k < 0 → negative = true)
    (hpos : 0 < k → negative = false) : signed negative k.natAbs = k := by
  cases negative with
  | true =>
    have : ¬ 0 < k := fun h => Bool.noConfusion (hpos h)
    simp only [signed, if_true]
    omega
  | false =>
    have : ¬ k < 0 := fun h => Bool.noConfusion (hneg h)
    simp only [signed, Bool.false_eq_true, if_false]
    omega

theorem Double.negative_of_signed {negative : Bool} {n : Nat} :
    (signed negative n < 0 → negative = true) ∧ (0 < signed negative n → negative = false) := by
  cases negative with
  | true =>
    refine ⟨fun _ => rfl, fun h => ?_⟩
    simp only [signed, if_true] at h
    omega
  | false =>
    refine ⟨fun h => ?_, fun _ => rfl⟩
    simp only [signed, Bool.false_eq_true, if_false] at h
    omega

theorem Double.truncate?_eq_some_iff {x : Double} {k : Int} :
    x.truncate? = some k ↔ x.TruncatesTo k := by
  have hone : 0 < one := twoTo_pos 1074
  constructor
  · intro h
    cases x with
    | finite negative n hn =>
      obtain rfl : signed negative (n / one) = k := by simpa [truncate?] using h
      refine ⟨negative, n, hn, rfl, ?_, ?_, negative_of_signed⟩
      · rw [natAbs_signed]
        exact Nat.div_mul_le_self n one
      · rw [natAbs_signed]
        exact (Nat.div_lt_iff_lt_mul hone).mp (Nat.lt_succ_self _)
    | _ => simp [truncate?] at h
  · rintro ⟨negative, n, hn, rfl, hle, hlt, hneg, hpos⟩
    have hdiv : n / one = k.natAbs := Nat.div_eq_of_lt_le hle hlt
    rw [truncate?, hdiv, signed_natAbs hneg hpos]

namespace Value

def IsNumber : Value → Prop
  | .bool _ | .int _ | .number _ => True
  | _ => False

def TruncatesTo : Value → Int → Prop
  | .bool b, k => k = if b then 1 else 0
  | .int n, k => k = n
  | .number x, k => x.TruncatesTo k
  | _, _ => False

end Value

theorem Value.exists_truncatesTo {x : Value} (h : x.IsNumber) :
    (∃ k, x.TruncatesTo k) ∨ ∃ y, x = .number y ∧ y.truncate? = none := by
  cases x with
  | bool b => exact .inl ⟨_, rfl⟩
  | int n => exact .inl ⟨n, rfl⟩
  | number y =>
    cases hy : y.truncate? with
    | some k => exact .inl ⟨k, Double.truncate?_eq_some_iff.mp hy⟩
    | none => exact .inr ⟨y, rfl, hy⟩
  | _ => exact h.elim

namespace Conversion

variable {w : World} {truncates : Bool} {cell : CellType} {signed : Bool} {bytes : Nat} {v x : Value}
  {k : Int}

theorem wholeNumber_of_truncatesTo (h : x.TruncatesTo k) : wholeNumber w v x cell = .ok k := by
  cases x with
  | bool b =>
    obtain rfl : k = if b then 1 else 0 := h
    rfl
  | int n =>
    obtain rfl : k = n := h
    rfl
  | number y =>
    have hy : y.truncate? = some k := Double.truncate?_eq_some_iff.mpr h
    have hnumber : w.numberOf (.number y) = .ok y := rfl
    simp [wholeNumber, hnumber, lift, bind, Except.bind, hy]
  | _ => exact h.elim

theorem truncatesTo_of_wholeNumber (hx : x.IsNumber) (h : wholeNumber w v x cell = .ok k) :
    x.TruncatesTo k := by
  rcases Value.exists_truncatesTo hx with ⟨n, hn⟩ | ⟨y, rfl, hy⟩
  · rw [wholeNumber_of_truncatesTo hn] at h
    cases h
    exact hn
  · have hnumber : w.numberOf (.number y) = .ok y := rfl
    simp [wholeNumber, hnumber, lift, bind, Except.bind, hy, refuse] at h

theorem toInteger_refused (w : World) (v : Value) (cell : CellType) (hx : x.IsNumber)
    (hno : ∀ n, x.TruncatesTo n → ¬ (Content.least signed bytes ≤ n ∧ n ≤ Content.greatest signed bytes)) :
    ∃ reason, toInteger w v x cell signed bytes = refuse v cell reason := by
  rcases Value.exists_truncatesTo hx with ⟨n, hn⟩ | ⟨y, rfl, hy⟩
  · simp only [toInteger, wholeNumber_of_truncatesTo hn, bind, Except.bind]
    rw [if_neg (hno n hn)]
    exact ⟨_, rfl⟩
  · have hnumber : w.numberOf (.number y) = .ok y := rfl
    refine ⟨"not a finite number", ?_⟩
    simp [toInteger, wholeNumber, hnumber, lift, bind, Except.bind, hy, refuse]

theorem toInteger_of_truncatesTo (w : World) (v : Value) (cell : CellType) (h : x.TruncatesTo k)
    (hr : Content.least signed bytes ≤ k ∧ k ≤ Content.greatest signed bytes) :
    toInteger w v x cell signed bytes = .ok (.scalar (.native cell.content) (.int k)) := by
  simp only [toInteger, wholeNumber_of_truncatesTo h, bind, Except.bind, if_pos hr]

end Conversion

theorem forall₂_of_common {α β γ : Type} {r : α → β → Prop} {s : α → γ → Prop} {t : β → γ → Prop}
    {xs : List α} {ys : List β} {zs : List γ} (hy : List.Forall₂ r xs ys) (hz : List.Forall₂ s xs zs)
    (h : ∀ x ∈ xs, ∀ y z, r x y → s x z → t y z) : List.Forall₂ t ys zs := by
  induction hy generalizing zs with
  | nil =>
    cases hz
    exact .nil
  | cons hxy _ ih =>
    cases hz with
    | cons hxz hz =>
      refine .cons (h _ List.mem_cons_self _ _ hxy hxz) (ih hz ?_)
      exact fun x hx => h x (List.mem_cons_of_mem _ hx)

namespace World

def itemsOf? (w : World) (given : Operand) : Option (List Operand) :=
  match w.contentOf given with
  | .plain (.list r) => some ((w.lists.get r).map .plain)
  | .plain (.tuple r) => some ((w.tuples.get r).map .plain)
  | .plain (.record r) => do
    let length ← (w.records.get r).get? "length"
    let x ← (w.numberOf length).toOption
    let k ← x.truncate?
    return Conversion.numberedItems (w.records.get r) k.toNat
  | _ => none

/-- What is given is a nest of lists, tuples and script arrays of numbers, or of arrays of truth
values or integers, and these are its leaves in order. -/
inductive Nests (w : World) : Operand → List Value → Prop
  | number {v : Value} (h : (w.hostValue v).item.IsNumber) :
      Nests w (.plain v) [(w.hostValue v).item]
  | items {given : Operand} {items : List Operand} {leaves : List (List Value)}
      (hi : w.itemsOf? given = some items) (hl : List.Forall₂ (Nests w) items leaves) :
      Nests w given leaves.flatten
  | array {given : Operand} {win : Window} (hg : w.contentOf given = .window win)
      (ht : win.type.content = .bool ∨ ∃ signed bytes, win.type.content = .int signed bytes) :
      Nests w given (w.cells win)

end World

namespace Conversion

variable {w : World} {truncates : Bool} {cell : CellType} {signed : Bool} {bytes : Nat}
  {given : Operand} {items : List Operand} {win : Window} {n : Nat} {shape : List Nat}
  {leaves : List Value}

def HoldsLeaf (c leaf : Value) : Prop := ∃ k, c = .int k ∧ leaf.TruncatesTo k

theorem isNumber_of_admits {t : Content} {c : Value}
    (ht : t = .bool ∨ ∃ signed bytes, t = .int signed bytes) (hc : t.Admits c) : c.IsNumber := by
  rcases ht with rfl | ⟨signed, bytes, rfl⟩
  · obtain ⟨b, rfl⟩ := hc
    trivial
  · obtain ⟨k, rfl, -⟩ := hc
    trivial

theorem holdsLeaf_of_castCell {t : CellType} {c y : Value}
    (ht : t.content = .bool ∨ ∃ signed bytes, t.content = .int signed bytes)
    (hc : t.content.Admits c) (h : castCell t (.int signed bytes) c = .ok y) : HoldsLeaf y c := by
  rcases ht with ht | ⟨signed', bytes', ht⟩ <;> rw [ht] at hc
  · obtain ⟨b, rfl⟩ := hc
    cases h
    exact ⟨_, rfl, rfl⟩
  · obtain ⟨k, rfl, -⟩ := hc
    cases h
    exact ⟨k, rfl, rfl⟩

theorem itemsOf?_of_rows (h : Rows w cell n shape given items)
    (hno : ∀ win, w.contentOf given ≠ .window win) : w.itemsOf? given = some items := by
  cases h with
  | list hg => simp [itemsOf?, hg]
  | tuple hg => simp [itemsOf?, hg]
  | record hg hv hx hk hpos hn => simp [itemsOf?, hg, hv, hx, hk, hn, Except.toOption]
  | window hg => exact absurd hg (hno _)

/-- The slots of an array of truth values or integers are a nest each. -/
theorem nests_operands (h : w.Sound) (hshows : w.Shows win) (hs : win.shape ≠ [])
    (ht : win.type.content = .bool ∨ ∃ signed bytes, win.type.content = .int signed bytes) :
    List.Forall₂ w.Nests (w.operands win)
      ((List.range win.length).map fun i => w.cells (win.row i)) := by
  have ho : win.type.isObject = false := by
    rcases ht with ht | ⟨_, _, ht⟩ <;> simp [CellType.isObject, ht]
  rw [operands, List.forall₂_map_left_iff, List.forall₂_map_right_iff, List.forall₂_same]
  intro i hi
  by_cases hn : win.rowShape = []
  · have hrow : w.Encloses (win.row i) := (hshows.encloses hs).row (List.mem_range.mp hi)
    have hcells : w.cells (win.row i) = [w.cell win i] := by
      rw [cells_of_axisless hrow hn, w.cell_row hn]
    have hwithin : w.Within (win.row i) := hshows.within.of_eq rfl rfl
    have haccepts : win.type.Accepts (w.cell win i) :=
      hwithin.accepts_cells h _ (by simp [hcells])
    have hitem : (w.hostValue (win.type.itemValue (w.cell win i))).item = w.cell win i :=
      item_hostValue_itemValue ho
    have hnests := Nests.number (w := w) (v := win.type.itemValue (w.cell win i))
      (by rw [hitem]; exact isNumber_of_admits ht haccepts.1)
    simpa [hn, hcells, hitem] using hnests
  · rw [if_neg (by simpa using hn)]
    exact .array rfl ht

theorem contentOf_of_isNumber {v : Value} (h : (w.hostValue v).item.IsNumber) :
    w.contentOf (.plain v) = .plain (w.hostValue v).item := by
  rw [contentOf]
  cases hv : (w.hostValue v).item with
  | array r =>
    rw [hv] at h
    exact h.elim
  | _ => rfl

theorem not_rows_of_isNumber {v : Value} (h : (w.hostValue v).item.IsNumber) :
    ¬ Rows w cell n shape (.plain v) items := by
  intro hrows
  have hcontent := contentOf_of_isNumber h
  cases hrows with
  | list hg | tuple hg | record hg =>
    rw [hcontent, Operand.plain.injEq] at hg
    rw [hg] at h
    exact h.elim
  | window hg => simp [hcontent] at hg

theorem ne_window_of_itemsOf? (h : w.itemsOf? given = some items) :
    w.contentOf given ≠ .window win := by
  intro hwin
  simp [itemsOf?, hwin] at h

theorem nests_rows (h : w.Sound) (hg : w.ShowsOperand given) (hn : w.Nests given leaves)
    (hrows : Rows w cell n shape given items) :
    ∃ parts, leaves = parts.flatten ∧ List.Forall₂ w.Nests items parts := by
  cases hn with
  | number hv => exact absurd hrows (not_rows_of_isNumber hv)
  | @items _ items' parts hi hl =>
    have hsame := itemsOf?_of_rows hrows fun win => ne_window_of_itemsOf? hi
    obtain rfl : items' = items := Option.some.inj (hi.symm.trans hsame)
    exact ⟨parts, rfl, hl⟩
  | @array _ win hwin ht =>
    cases hrows with
    | window hwin' hs =>
      obtain rfl : win = _ := Operand.window.inj (hwin.symm.trans hwin')
      have hshows := shows_contentOf h hg
      rw [hwin] at hshows
      have hne : win.shape ≠ [] := by simp [hs]
      exact ⟨_, w.cells_eq_rows hne, nests_operands h hshows hne ht⟩
    | list hg' | tuple hg' | record hg' => simp [hwin] at hg'

theorem no_items_of_wholeNumber {v g : Value} {k : Int}
    (h : wholeNumber w g (w.hostValue v).item cell = .ok k) :
    w.contentOf (.plain v) = .plain (w.hostValue v).item ∧ w.itemsOf? (.plain v) = none := by
  have hcontent : w.contentOf (.plain v) = .plain (w.hostValue v).item := by
    rw [contentOf]
    cases hv : (w.hostValue v).item with
    | array r => simp [hv, wholeNumber, refuse] at h
    | _ => rfl
  refine ⟨hcontent, ?_⟩
  rw [itemsOf?, hcontent]
  cases hv : (w.hostValue v).item with
  | list r | tuple r | record r => simp [hv, wholeNumber, refuse] at h
  | _ => rfl

/-- Only numbers among nests are converted for a single cell. -/
theorem holdsLeaf_of_toCell (hc : cell.content = .int signed bytes) {v c : Value}
    (hn : w.Nests (.plain v) leaves) (h : toCell w truncates cell v = .ok c) :
    List.Forall₂ HoldsLeaf [cell.stored c] leaves := by
  have hinteger : toInteger w v (w.hostValue v).item cell signed bytes = .ok c := by
    simpa only [toCell, hc] using h
  cases hwhole : wholeNumber w v (w.hostValue v).item cell with
  | error e => simp [toInteger, hwhole, bind, Except.bind] at hinteger
  | ok k =>
    obtain ⟨hcontent, hitems⟩ := no_items_of_wholeNumber hwhole
    cases hn with
    | number hv =>
      obtain ⟨m, rfl, -⟩ := inRange_of_toInteger hinteger
      have hsame : m = k := by
        simp only [toInteger, hwhole, bind, Except.bind] at hinteger
        split at hinteger
        · simpa using hinteger.symm
        · simp [refuse] at hinteger
      have hstored : cell.stored (.scalar (.native cell.content) (.int m)) = .int m :=
        CellType.stored_of_not_text (by simp [CellType.isObject, hc]) (fun s => Value.noConfusion)
          (fun b => Value.noConfusion)
      rw [hstored]
      exact .cons ⟨m, rfl, hsame ▸ truncatesTo_of_wholeNumber hv hwhole⟩ .nil
    | items hi => simp [hitems] at hi
    | array hwin => simp [hcontent] at hwin

theorem holdsLeaf_of_safe (h : w.Sound) (hc : cell.content = .int signed bytes)
    {cells : List Value} (hg : w.ShowsOperand given) (hn : w.Nests given leaves)
    (hwin : w.contentOf given = .window win)
    (hok : lift ((w.cells win).mapM (castCell win.type cell.content)) = .ok cells) :
    List.Forall₂ HoldsLeaf cells leaves := by
  cases hn with
  | number hv => simp [contentOf_of_isNumber hv] at hwin
  | items hi => exact absurd hwin (ne_window_of_itemsOf? hi)
  | @array _ win' hwin' ht =>
    obtain rfl : win' = win := Operand.window.inj (hwin'.symm.trans hwin)
    have hshows := shows_contentOf h hg
    rw [hwin] at hshows
    cases hm : (w.cells win').mapM (castCell win'.type cell.content) with
    | error f => simp [hm, lift] at hok
    | ok ys =>
      obtain rfl : ys = cells := by simpa [hm, lift] using hok
      rw [hc] at hm
      refine forall₂_of_common (forall₂_of_mapM hm) (List.forall₂_same.mpr fun _ _ => rfl) ?_
      rintro c hmem y _ hy rfl
      exact holdsLeaf_of_castCell ht (hshows.within.accepts_cells h c hmem).1 hy

/-- Whatever is converted for integer cells, the cells hold the whole parts of the leaves. -/
theorem holdsLeaf_of_toCells (h : w.Sound) (hc : cell.content = .int signed bytes)
    {cells : List Value} (hg : w.ShowsOperand given) (hn : w.Nests given leaves)
    (hok : toCells w truncates cell shape given = .ok cells) :
    List.Forall₂ HoldsLeaf cells leaves := by
  induction shape generalizing given leaves cells with
  | nil =>
    cases given with
    | plain v =>
      obtain ⟨c, hcell, hok⟩ := ok_of_bind hok
      cases hok
      exact holdsLeaf_of_toCell hc hn hcell
    | window win => cases hok
  | cons n shape ih =>
    rcases toCells_cases w truncates cell n shape given with
      ⟨win, hwin, hs, hsafe⟩ | ⟨items, hrows⟩ | ⟨_, hunfit⟩ | ⟨_, _, _, _, _, _, hfault⟩
    · rw [toCells_of_safe hwin hs hsafe] at hok
      exact holdsLeaf_of_safe h hc hg hn hwin hok
    · obtain ⟨parts, rfl, hparts⟩ := nests_rows h hg hn hrows
      rw [toCells_of_rows hrows] at hok
      obtain ⟨all, hall, hok⟩ := ok_of_bind hok
      obtain ⟨rows, rfl, heach⟩ := ok_of_each hall
      cases hok
      have hrow : List.Forall₂ (List.Forall₂ HoldsLeaf) rows parts :=
        forall₂_of_common heach hparts fun x hx row part hrow hpart =>
          ih (shows_rows h hg hrows x hx) hpart hrow
      rw [List.forall₂_map_left_iff]
      refine (List.rel_flatten hrow).imp ?_
      rintro _ leaf ⟨k, rfl, hk⟩
      exact ⟨k, by simp [placed, hc], hk⟩
    · simp [hunfit] at hok
    · simp [hfault] at hok

end Conversion

section Convert

variable {w : World} {truncates : Bool} {slot : SlotType} {signed : Bool} {bytes : Nat} {v : Value}

theorem isRegular_of_int (hc : slot.cell.content = .int signed bytes) (hb : 0 < bytes) :
    slot.cell.IsRegular := by
  refine ⟨by simp [CellType.allocated, hc], ?_⟩
  rw [hc]
  exact hb

theorem convert_of_toInteger (hc : slot.cell.content = .int signed bytes) (hn : slot.isNested = false)
    {k : Int} (hk : Conversion.toInteger w v (w.hostValue v).item slot.cell signed bytes =
      .ok (.scalar (.native slot.cell.content) (.int k))) :
    convert truncates slot v w = .ok (.scalar (.native (.int signed bytes)) (.int k)) w := by
  have hcell : Conversion.toCell w truncates slot.cell v =
      .ok (.scalar (.native (.int signed bytes)) (.int k)) := by
    simpa only [Conversion.toCell, hc] using hk
  rw [convert_plain (by simp [hn]) hcell, if_neg (by simp [CellType.isObject, hc])]
  rfl

theorem convert_of_toInteger_refused (hc : slot.cell.content = .int signed bytes)
    (hn : slot.isNested = false) {reason : String}
    (hr : Conversion.toInteger w v (w.hostValue v).item slot.cell signed bytes =
      Conversion.refuse v slot.cell reason) :
    convert truncates slot v w = refuseWith (.unfit (.plain v) slot.cell.name reason) w := by
  have hcell : Conversion.toCell w truncates slot.cell v =
      .error (.unfit (.plain v) slot.cell.name reason) := by
    simpa only [Conversion.toCell, hc, Conversion.refuse] using hr
  exact convert_plain_refused (by simp [hn]) hcell

theorem convert_of_truncatesTo (hc : slot.cell.content = .int signed bytes)
    (hn : slot.isNested = false) {k : Int} (hk : (w.hostValue v).item.TruncatesTo k)
    (hr : Content.least signed bytes ≤ k ∧ k ≤ Content.greatest signed bytes) :
    convert truncates slot v w = .ok (.scalar (.native (.int signed bytes)) (.int k)) w :=
  convert_of_toInteger hc hn (Conversion.toInteger_of_truncatesTo w v slot.cell hk hr)

theorem convert_number_refused (hc : slot.cell.content = .int signed bytes)
    (hn : slot.isNested = false) (hx : (w.hostValue v).item.IsNumber)
    (hno : ∀ k, (w.hostValue v).item.TruncatesTo k →
      ¬ (Content.least signed bytes ≤ k ∧ k ≤ Content.greatest signed bytes)) :
    (w.quotable v = true → ∃ reason l, convert truncates slot v w =
      .error (.cannotConvert (w.quote v) slot.cell.name reason) { w with log := l }) ∧
    (w.quotable v = false → convert truncates slot v w = .error (.host .value) w) := by
  obtain ⟨reason, hreason⟩ :=
    Conversion.toInteger_refused w v slot.cell hx hno
  rw [convert_of_toInteger_refused hc hn hreason]
  exact ⟨fun hq => ⟨reason, refuseWith_plain hq _ _⟩, fun hq => refuseWith_plain_unwritten hq _ _⟩

/-- A row of integer cells holds the whole parts of the leaves of what was converted for it. -/
theorem convert_nests (h : w.Sound) (hc : slot.cell.content = .int signed bytes) (hb : 0 < bytes)
    (hn : slot.isNested = true) {leaves : List Value} (hv : w.Nests (.plain v) leaves) {x : Value}
    {u : World} (hx : convert truncates slot v w = .ok x u) :
    ∃ a, x = .array a ∧ (u.arrays.get a).type = slot.cell ∧ (u.arrays.get a).shape = slot.shape ∧
      List.Forall₂ Conversion.HoldsLeaf (u.cells (u.arrays.get a)) leaves := by
  have hr := isRegular_of_int hc hb
  cases hcells : Conversion.toCells w truncates slot.cell slot.shape (.plain v) with
  | error e =>
    obtain ⟨f, u', hf⟩ := convert_fails hn hcells
    rw [hf] at hx
    cases hx
  | ok cells =>
    obtain ⟨a, u', hu, htype, hshape, hsame⟩ := convert_of_cells h hn hr hcells
    rw [hu] at hx
    cases hx
    refine ⟨a, rfl, htype, hshape, ?_⟩
    have hplain : w.ShowsOperand (.plain v) := True.intro
    have hholds := Conversion.holdsLeaf_of_toCells h hc hplain hv hcells
    have hsound : u.Sound := (convert_ok h hr.2 hu).1
    have haccepts : ∀ c ∈ u.cells (u.arrays.get a), slot.cell.Accepts c :=
      htype ▸ (hsound.shows a).within.accepts_cells hsound
    rw [List.forall₂_map_right_iff] at hsame
    have hboth := (List.forall₂_and_left _ _).mpr ⟨haccepts, hsame⟩
    refine forall₂_of_common hboth.flip hholds ?_
    rintro c - y leaf ⟨hy, hyc⟩ ⟨k, rfl, hk⟩
    have hadmits : (Content.int signed bytes).Admits y := hc ▸ hy.1
    obtain ⟨m, rfl, -⟩ := hadmits
    rw [CellType.held_eq_self _ (by simp [hc]) (by simp [hc])] at hyc
    obtain rfl : m = k := Value.int.inj hyc
    exact ⟨m, rfl, hk⟩

end Convert

theorem quotable_number {w : World} {v : Value} (hv : v.content.IsNumber) :
    w.quotable v = true ↔ ∀ i, v.content = .int i → i.natAbs < 10 ^ digitLimit := by
  rw [← Display.isWritten_iff]
  cases v with
  | bool _ | int _ | number _ | kept _ _ | member _ _ _ => exact Iff.rfl
  | _ => exact hv.elim

/-- Integer cells take the whole part of a number exactly if it is in their range, and rows of them
the whole parts of the leaves of whatever is converted at all. Nothing is reduced. A number out of
range is refused by its text. Where that is not written, since the integer has too many digits, the
host fails to make the message and the world stays as it was. -/
theorem convert_integer {w : World} (hw : Reachable w) (truncates : Bool) {slot : SlotType}
    {signed : Bool} {bytes : Nat} (hc : slot.cell.content = .int signed bytes) (hb : 0 < bytes)
    (v : Value) :
    (slot.isNested = false → (w.hostValue v).item.IsNumber →
      (∀ k, (w.hostValue v).item.TruncatesTo k →
        Content.least signed bytes ≤ k ∧ k ≤ Content.greatest signed bytes →
        convert truncates slot v w = .ok (.scalar (.native (.int signed bytes)) (.int k)) w) ∧
      ((∀ k, (w.hostValue v).item.TruncatesTo k →
        ¬ (Content.least signed bytes ≤ k ∧ k ≤ Content.greatest signed bytes)) →
        (w.quotable v = true → ∃ reason l, convert truncates slot v w =
          .error (.cannotConvert (w.quote v) slot.cell.name reason) { w with log := l }) ∧
        (w.quotable v = false → convert truncates slot v w = .error (.host .value) w))) ∧
    (v.content.IsNumber →
      (w.quotable v = true ↔ ∀ i, v.content = .int i → i.natAbs < 10 ^ digitLimit)) ∧
    (slot.isNested = true → ∀ leaves, w.Nests (.plain v) leaves → ∀ x u,
      convert truncates slot v w = .ok x u →
      ∃ a, x = .array a ∧ (u.arrays.get a).type = slot.cell ∧ (u.arrays.get a).shape = slot.shape ∧
        List.Forall₂ Conversion.HoldsLeaf (u.cells (u.arrays.get a)) leaves) := by
  refine ⟨fun hn hx => ⟨fun k hk hr => ?_, fun hno => ?_⟩, quotable_number,
    fun hn leaves hv x u hu => ?_⟩
  · exact convert_of_truncatesTo hc hn hk hr
  · exact convert_number_refused hc hn hx hno
  · exact convert_nests hw.sound hc hb hn hv hu

def ledger : World := World.empty.afterAll [.newList [.bool true, .int 255]]

theorem reachable_ledger : Reachable ledger := by
  apply Reachable.start.afterAll
  simp [Operation.IsProper]

/-- A byte takes 255 and refuses 256, two bytes take the list, and an integer with too many digits
ends in a fault of the host. -/
theorem convert_integer_up_to_limit :
    convert false ⟨.native (.int false 1), []⟩ (.int 255) ledger =
      .ok (.scalar (.native (.int false 1)) (.int 255)) ledger ∧
    (∃ reason l, convert false ⟨.native (.int false 1), []⟩ (.int 256) ledger =
      .error (.cannotConvert (ledger.quote (.int 256)) (CellType.native (.int false 1)).name reason)
        { ledger with log := l }) ∧
    convert false ⟨.native (.int false 1), []⟩ (.int (10 ^ digitLimit : Nat)) ledger =
      .error (.host .value) ledger ∧
    ∃ a u, convert false ⟨.native (.int false 1), [2]⟩ (.list ⟨0⟩) ledger = .ok (.array a) u ∧
      List.Forall₂ Conversion.HoldsLeaf (u.cells (u.arrays.get a)) [.bool true, .int 255] := by
  have hbyte : 0 < 1 := Nat.one_pos
  have hlarge : 256 < 10 ^ digitLimit := calc
    256 < 10 ^ 3 := by decide
    _ ≤ 10 ^ digitLimit := Nat.pow_le_pow_right (by decide) (by decide)
  have hsingleton : (SlotType.mk (.native (.int false 1)) []).cell.content = .int false 1 := rfl
  have hpair : (SlotType.mk (.native (.int false 1)) [2]).cell.content = .int false 1 := rfl
  refine ⟨?_, ?_, ?_, ?_⟩
  · obtain ⟨hsingle, -⟩ := convert_integer reachable_ledger false hsingleton hbyte (.int 255)
    exact (hsingle rfl trivial).1 255 rfl (by decide)
  · obtain ⟨hsingle, hquotable, -⟩ := convert_integer reachable_ledger false hsingleton hbyte (.int 256)
    refine ((hsingle rfl trivial).2 ?_).1 ((hquotable trivial).mpr ?_)
    · rintro k rfl
      decide
    · rintro i ⟨⟩
      exact hlarge
  · obtain ⟨hsingle, hquotable, -⟩ :=
      convert_integer reachable_ledger false hsingleton hbyte (.int (10 ^ digitLimit : Nat))
    refine ((hsingle rfl trivial).2 ?_).2 (Bool.eq_false_iff.mpr fun hq => ?_)
    · have hgreatest : Content.greatest false 1 = (255 : Nat) := by decide
      rintro k rfl ⟨-, hle⟩
      rw [hgreatest, Int.ofNat_le] at hle
      exact Nat.not_le.mpr (Nat.lt_of_succ_lt hlarge) hle
    · have hlt := (hquotable trivial).mp hq _ rfl
      rw [Int.natAbs_natCast] at hlt
      exact Nat.lt_irrefl _ hlt
  · obtain ⟨-, -, hrows⟩ := convert_integer reachable_ledger false hpair hbyte (.list ⟨0⟩)
    have hnests : ledger.Nests (.plain (.list ⟨0⟩)) [[.bool true], [.int 255]].flatten :=
      .items rfl (.cons (.number trivial) (.cons (.number trivial) .nil))
    obtain ⟨x, u, hx⟩ : ∃ x u,
        convert false ⟨.native (.int false 1), [2]⟩ (.list ⟨0⟩) ledger = .ok x u := ⟨_, _, rfl⟩
    obtain ⟨a, rfl, -, -, hcells⟩ := hrows rfl _ hnests x u hx
    exact ⟨a, u, hx, hcells⟩

end ScriptedArrays
