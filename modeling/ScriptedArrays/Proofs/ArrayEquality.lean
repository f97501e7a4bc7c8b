import ScriptedArrays.Proofs.Searching
import ScriptedArrays.Proofs.NumberTexts
import ScriptedArrays.Proofs.WholeNumbers

/-! Equality of arrays. Two arrays of one shape are equal if their cells are, which are compared in
the type that takes those of both, while the elements of the arrays are compared by what they are. So
arrays of rows are equal exactly if their rows are. Arrays of single elements are not told apart from
such as look the same in a joint type, and texts are told apart from their bytes. -/

namespace ScriptedArrays

open World

theorem Format.Holds.mono {f g : Format} (hprecision : f.precision ≤ g.precision)
    (hfinest : f.finest ≤ g.finest) (htop : f.top ≤ g.top) {n : Nat} (h : f.Holds n) : g.Holds n := by
  refine ⟨?_, Nat.lt_of_lt_of_le h.2 (twoTo_le (Nat.add_le_add_right htop _))⟩
  have hdvd : g.spacing n ∣ f.spacing n := by
    rw [spacing_eq, spacing_eq]
    apply twoTo_dvd
    simp only [step]
    omega
  exact Nat.mod_eq_zero_of_dvd (Nat.dvd_trans hdvd (Nat.dvd_of_mod_eq_zero h.1))

theorem Double.Fits.mono {p q : Precision} (hpq : p.bytes ≤ q.bytes) {x : Double}
    (h : x.Fits p.format) : x.Fits q.format := by
  cases x with
  | finite negative n hn =>
    refine Format.Holds.mono ?_ ?_ ?_ h
    all_goals
      revert hpq
      cases p <;> cases q <;> decide
  | _ => exact True.intro

theorem Double.signed_natAbs_mul (i : Int) (n : Nat) :
    signed (decide (i < 0)) (i.natAbs * n) = i * n := by
  rw [signed_mul, signed_natAbs (fun hneg => decide_eq_true hneg) fun hpos =>
    decide_eq_false (Int.not_lt.mpr (Int.le_of_lt hpos))]

theorem Double.narrow_ofInt_equal {f : Format} {x : Double} {i : Int} (hx : x.Fits f)
    (h : x.equalInt i = true) : ((ofInt i).narrow f).equal x = true := by
  cases x with
  | finite negative n hn =>
    have hvalue : signed negative n = i * one := eq_of_beq h
    obtain rfl : i.natAbs * one = n := by
      rw [← natAbs_signed negative n, hvalue, Int.natAbs_mul, Int.natAbs_natCast]
    have hsame : ofInt i = .finite (decide (i < 0)) _ hn := ofUnits_one _ hn
    have hfits : (ofInt i).Fits f := by
      rw [hsame]
      exact hx
    rw [narrow_eq_self hfits, hsame]
    exact beq_iff_eq.mpr ((signed_natAbs_mul i one).trans hvalue.symm)
  | _ => cases h

theorem Double.narrow_ofInt_equal_self (f : Format) (i : Int) :
    ((ofInt i).narrow f).equal ((ofInt i).narrow f) = true := by
  have hunits : ∀ negative n, (ofUnits negative n 1).isNaN = false := by
    intro negative n
    rw [ofUnits]
    split <;> rfl
  apply equal_self
  cases hi : ofInt i with
  | nan => exact absurd (hunits _ _) (by rw [← ofInt, hi]; decide)
  | infinite negative => rfl
  | finite negative n hn =>
    rw [narrow]
    split
    · exact hunits _ _
    · rfl

namespace Quantity

def narrowPart (f : Format) : Sum Int Double → Double
  | .inl i => (Double.ofInt i).narrow f
  | .inr x => x.narrow f

structure FitsIn (p : Quantity) (f : Format) : Prop where
  real : ∀ x, p.parts.1 = .inr x → x.Fits f
  imaginary : p.parts.2.Fits f

theorem narrow_eq (p : Quantity) (width : Precision) : p.narrow width.format =
    (narrowPart width.format p.parts.1, p.parts.2.narrow width.format) := by
  cases p with
  | int i | real x => rw [narrow, parts, narrowPart, Double.narrow_zero]
  | complex re im => rfl

theorem narrowPart_equal {f : Format} {a b : Sum Int Double} (ha : ∀ x, a = .inr x → x.Fits f)
    (hb : ∀ x, b = .inr x → x.Fits f) (h : relateReal .equal a b = true) :
    (narrowPart f a).equal (narrowPart f b) = true := by
  cases a with
  | inl i =>
    cases b with
    | inl j =>
      obtain rfl : i = j := eq_of_beq h
      exact Double.narrow_ofInt_equal_self f i
    | inr y =>
      rw [narrowPart, narrowPart, Double.narrow_eq_self (hb y rfl)]
      exact Double.narrow_ofInt_equal (hb y rfl) h
  | inr x =>
    rw [narrowPart, Double.narrow_eq_self (ha x rfl)]
    cases b with
    | inl j =>
      rw [narrowPart, Double.equal_comm]
      exact Double.narrow_ofInt_equal (ha x rfl) h
    | inr y =>
      rw [narrowPart, Double.narrow_eq_self (hb y rfl)]
      exact h

theorem pairs_of_equal {width : Precision} {p q : Quantity} (hp : p.FitsIn width.format)
    (hq : q.FitsIn width.format) (h : p.equal q = true) :
    Relation.equal.pairs (p.narrow width.format) (q.narrow width.format) = true := by
  obtain ⟨hreal, himaginary⟩ :
      relateReal .equal p.parts.1 q.parts.1 = true ∧ p.parts.2.equal q.parts.2 = true := by
    simpa [equal, relate?] using h
  rw [narrow_eq, narrow_eq, Double.narrow_eq_self hp.imaginary, Double.narrow_eq_self hq.imaginary]
  exact Bool.and_eq_true_iff.mpr ⟨narrowPart_equal hp.real hq.real hreal, himaginary⟩

end Quantity

namespace Content

def IsComparable : Content → Prop
  | .int _ width => width = 1 ∨ width = 2 ∨ width = 4 ∨ width = 8
  | .object => False
  | _ => True

variable {t d : Content} {c e : Value}

theorem IsComparable.ne_object (ht : t.IsComparable) : t ≠ .object := by
  rintro rfl
  exact ht

/-- A number cell holds a number of its width, which is no integer beyond all doubles. -/
theorem exists_quantity (ht : t.IsComparable) (hn : t.isNumeric = true) (hc : t.Admits c) :
    ∃ p, c.quantity? = some p ∧ p.isBeyondDoubles = false ∧ p.FitsIn t.needed.format := by
  have hint : ∀ i f, (Quantity.int i).FitsIn f := by
    refine fun i f => ⟨fun x hx => ?_, ?_⟩
    · cases hx
    · rw [Quantity.parts]
      exact Double.fits_zero f
  cases t with
  | bool =>
    obtain ⟨b, rfl⟩ := hc
    refine ⟨_, rfl, ?_, hint _ _⟩
    cases b <;> decide +kernel
  | int signed width =>
    obtain ⟨n, rfl, hrange⟩ := hc
    refine ⟨_, rfl, ?_, hint _ _⟩
    have hnumber := ofInt?_of_inRange ht hrange
    rw [Double.ofInt?] at hnumber
    split at hnumber
    · next hfinite => simp [Quantity.isBeyondDoubles, hfinite]
    · cases hnumber
  | real p =>
    obtain ⟨x, rfl, hx⟩ := hc
    refine ⟨_, rfl, rfl, ?_, ?_⟩
    · rintro _ ⟨⟩
      exact hx
    · rw [Quantity.parts]
      exact Double.fits_zero _
  | complex p =>
    obtain ⟨x, y, rfl, hx, hy⟩ := hc
    refine ⟨_, rfl, rfl, ?_, hy⟩
    rintro _ ⟨⟩
    exact hx
  | _ => cases hn

theorem needed_le_commonPrecision (t d : Content) : t.needed.bytes ≤ (t.commonPrecision d).bytes := by
  rw [commonPrecision]
  cases t.needed <;> cases d.needed <;> decide

end Content

namespace Quantity

variable {p q : Quantity} {t d : Content}

theorem FitsIn.mono {f g : Precision} (hfg : f.bytes ≤ g.bytes) (h : p.FitsIn f.format) :
    p.FitsIn g.format :=
  ⟨fun x hx => (h.real x hx).mono hfg, h.imaginary.mono hfg⟩

theorem relateTyped_of_fitsIn (hp : p.FitsIn t.needed.format) (hq : q.FitsIn d.needed.format)
    (hpb : p.isBeyondDoubles = false) (hqb : q.isBeyondDoubles = false) :
    ∃ b, relateTyped .equal (some t) (some d) p q = .ok b ∧ (p.equal q = true → b = true) := by
  rw [relateTyped, jointPrecision?]
  by_cases hinteger : (t.isInteger && d.isInteger) = true
  · rw [if_pos hinteger]
    refine ⟨_, rfl, fun h => ?_⟩
    rw [show relate? .equal p q = some true by simpa [equal] using h]
    rfl
  · rw [if_neg hinteger]
    dsimp only
    rw [hpb, hqb, if_neg (by decide)]
    have hqwidth : d.needed.bytes ≤ (t.commonPrecision d).bytes := by
      rw [Content.commonPrecision_comm]
      exact Content.needed_le_commonPrecision d t
    exact ⟨_, rfl, pairs_of_equal (hp.mono (Content.needed_le_commonPrecision t d)) (hq.mono hqwidth)⟩

end Quantity

def Value.isTruth : Value → Bool
  | .bool _ => true
  | _ => false

namespace Content

variable {t d : Content} {c e : Value}

def meets (t d : Content) (c e : Value) : Bool :=
  decide (Grid.relateCells (fun _ _ => .ok false) .equal ⟨some t, [], []⟩ ⟨some d, [], []⟩ c e = .ok true)

theorem meets_of_relateCells {b : Bool} (h : Grid.relateCells (fun _ _ => .ok false) .equal
    ⟨some t, [], []⟩ ⟨some d, [], []⟩ c e = .ok b) : t.meets d c e = b := by
  rw [meets, h]
  cases b <;> rfl

theorem cellMode_ne_objects (ht : t.IsComparable) (hd : d.IsComparable) :
    cellMode (some t) (some d) ≠ .objects := by
  intro h
  unfold cellMode at h
  split at h
  · next heq => exact ht.ne_object (Option.some.inj heq)
  · next heq _ => exact hd.ne_object (Option.some.inj heq)
  all_goals first
    | cases h
    | split at h <;> cases h

theorem cellMode_of_isNumeric (hn : t.isNumeric = true) (hm : d.isNumeric = true) :
    cellMode (some t) (some d) = .numbers := by
  unfold cellMode
  split <;> simp_all [isNumeric, rank?]

theorem isNumeric_of_cellMode (h : cellMode (some t) (some d) = .numbers) :
    t.isNumeric = true ∧ d.isNumeric = true := by
  unfold cellMode at h
  split at h
  case h_8 =>
    split at h
    · next hboth => simpa using hboth
    · cases h
  all_goals cases h

theorem relateCells_eq (ht : t.IsComparable) (hd : d.IsComparable) (hc : t.Admits c)
    (he : d.Admits e) (objects : Value → Value → Except HostFault Bool) {g h : Grid}
    (hg : g.type = some t) (hh : h.type = some d) :
    Grid.relateCells objects .equal g h c e = .ok (t.meets d c e) := by
  have hmeets := fun b => meets_of_relateCells (t := t) (d := d) (c := c) (e := e) (b := b)
  rw [Grid.relateCells, hg, hh]
  simp only [Grid.relateCells] at hmeets
  cases hmode : cellMode (some t) (some d) with
  | objects => exact absurd hmode (cellMode_ne_objects ht hd)
  | numbers =>
    obtain ⟨hn, hm⟩ := isNumeric_of_cellMode hmode
    obtain ⟨p, hp, hpb, hpf⟩ := exists_quantity ht hn hc
    obtain ⟨q, hq, hqb, hqf⟩ := exists_quantity hd hm he
    obtain ⟨b, hb, -⟩ := Quantity.relateTyped_of_fitsIn hpf hqf hpb hqb
    rw [hmode, hp, hq] at hmeets
    simp only [hp, hq, hb, hmeets b hb]
  | texts | strangers =>
    rw [hmode] at hmeets
    exact congrArg Except.ok (hmeets _ rfl).symm

end Content

namespace World

variable {w : World} {a b : Window}

theorem cells_eq_map {win : Window} (h : w.Encloses win) :
    w.cells win = (List.range win.size).map (w.cell win) := by
  refine List.ext_getElem? fun i => ?_
  by_cases hi : i < win.size
  · have hget := getElem?_cells h hi
    have hlt : i < (w.cells win).length := by rwa [length_cells h]
    rw [List.getElem?_map, List.getElem?_range hi, hget, Option.map_some, cell, ← hget,
      List.getElem?_eq_getElem hlt, Option.getD_some]
  · rw [List.getElem?_eq_none (by rw [length_cells h]; omega), List.getElem?_eq_none (by simp; omega)]

theorem cell_row_eq (w : World) (win : Window) (i j : Nat) :
    w.cell (win.row i) j = w.cell win (i * win.rowSize + j) := by
  rw [cell, cell, Window.buffer_row, Window.row, Nat.add_assoc]

def meetsAt (w : World) (a b : Window) (k : Nat) : Bool :=
  a.type.content.meets b.type.content (w.cell a k) (w.cell b k)

/-- Two arrays of one shape are equal if their cells are, at every position. -/
theorem windowsEqual_eq (hac : a.type.content.IsComparable) (hbc : b.type.content.IsComparable)
    (hae : w.Encloses a) (hbe : w.Encloses b) (hat : ∀ c ∈ w.cells a, a.type.content.Admits c)
    (hbt : ∀ c ∈ w.cells b, b.type.content.Admits c) (hne : a.shape ≠ []) (hshape : b.shape = a.shape) :
    w.windowsEqual a b = .ok ((List.range a.size).all (w.meetsAt a b)) := by
  have hsize : b.size = a.size := by rw [Window.size, hshape, Window.size]
  have hsame : (a.shape != b.shape) = false := by
    rw [hshape]
    exact bne_self_eq_false _
  have hzip : (w.cells a).zip (w.cells b) =
      (List.range a.size).map fun k => (w.cell a k, w.cell b k) := by
    rw [cells_eq_map hae, cells_eq_map hbe, hsize, List.zip_map']
  have hcells : ((w.cells a).zip (w.cells b)).mapM (fun p => Grid.relateCells
      (fun x y => w.relate .equal x y >>= Verdict.truth) .equal (w.windowGrid a) (w.windowGrid b)
      p.1 p.2) = .ok ((List.range a.size).map (w.meetsAt a b)) := by
    rw [hzip]
    refine mapM_of_forall₂ ?_
    rw [List.forall₂_map_left_iff, List.forall₂_map_right_iff, List.forall₂_same]
    intro k hk
    refine Content.relateCells_eq hac hbc (hat _ ?_) (hbt _ ?_) _ rfl rfl
    · rw [cells_eq_map hae]
      exact List.mem_map_of_mem hk
    · rw [cells_eq_map hbe, hsize]
      exact List.mem_map_of_mem hk
  have hrelate : w.relateOperands .equal (.window a) (.window b) =
      .ok (.cells a.shape ((List.range a.size).map (w.meetsAt a b))) := by
    have hjoint : Shape.joint? (w.windowGrid a).shape (w.windowGrid b).shape = some a.shape := by
      rw [windowGrid, windowGrid, hshape]
      exact Shape.joint?_self _
    have hstretch : Shape.stretch (w.windowGrid a).shape a.shape (w.windowGrid a).cells = w.cells a :=
      Shape.stretch_self (length_cells hae)
    have hstretch' : Shape.stretch (w.windowGrid b).shape a.shape (w.windowGrid b).cells = w.cells b := by
      rw [← hshape]
      exact Shape.stretch_self (length_cells hbe)
    have haxes : (w.windowGrid a).shape.isEmpty = false := by simpa [windowGrid] using hne
    show Grid.relate _ .equal (w.windowGrid a) (w.windowGrid b) = _
    rw [Grid.relate, bne_self_eq_false, Bool.and_false, if_neg Bool.noConfusion, haxes,
      Bool.and_false, Bool.false_and, if_neg Bool.noConfusion, hjoint]
    dsimp only
    rw [hstretch, hstretch', hcells]
    rfl
  rw [windowsEqual, hsame, if_neg Bool.noConfusion, hrelate]
  show Except.ok (List.all _ id) = _
  rw [List.all_map]
  rfl

end World

/-- The contents of two cells are equal as values: numbers of one kind by what they are, and texts
and bytes by their characters. -/
def Value.equals (c e : Value) : Bool :=
  match c.quantity?, e.quantity? with
  | some p, some q => c.isTruth == e.isTruth && p.isComplex == q.isComplex && p.equal q
  | none, none => World.comparable c == World.comparable e
  | _, _ => false

namespace Content

variable {w : World} {t d : Content} {c e a b : Value}

theorem cases_of_isNumeric (hn : t.isNumeric = true) (hc : t.Admits c) : (∃ b, c = .bool b) ∨
    (∃ i, c = .int i) ∨ (∃ x, c = .number x) ∨ ∃ re im, c = .complex re im := by
  cases t with
  | bool => exact .inl hc
  | int => exact .inr (.inl ⟨_, hc.choose_spec.1⟩)
  | real => exact .inr (.inr (.inl ⟨_, hc.choose_spec.1⟩))
  | complex => exact .inr (.inr (.inr ⟨_, _, hc.choose_spec.choose_spec.1⟩))
  | _ => cases hn

theorem text_or_bytes (hs : t.IsScalar) (hn : t.isNumeric ≠ true) :
    (∃ m, t = .text m) ∨ ∃ m, t = .bytes m := by
  cases t with
  | text m => exact .inl ⟨m, rfl⟩
  | bytes m => exact .inr ⟨m, rfl⟩
  | int signed => cases signed <;> exact absurd rfl hn
  | bool | real | complex => exact absurd rfl hn
  | _ => exact hs.elim

theorem cases_of_isScalar (hs : t.IsScalar) (hn : t.isNumeric ≠ true) (hc : t.Admits c) :
    (∃ s, c = .text s) ∨ ∃ b, c = .bytes b := by
  rcases text_or_bytes hs hn with ⟨m, rfl⟩ | ⟨m, rfl⟩
  · exact .inl hc
  · exact .inr hc

theorem quantity_equal_eq (p q : Quantity) : p.equal q =
    (Quantity.relateReal .equal p.parts.1 q.parts.1 && p.parts.2.equal q.parts.2) := by
  simp [Quantity.equal, Quantity.relate?]

theorem equals_of_quantity {p q : Quantity} (hp : c.quantity? = some p) (hq : e.quantity? = some q)
    (htruth : c.isTruth = e.isTruth) (hcomplex : p.isComplex = q.isComplex) :
    c.equals e = (Quantity.relateReal .equal p.parts.1 q.parts.1 && p.parts.2.equal q.parts.2) := by
  rw [Value.equals, hp, hq, ← quantity_equal_eq]
  simp [htruth, hcomplex]

/-- Numbers are compared by what they are if they are of one kind. -/
theorem scalarsEqual_numbers (hc : (∃ b, c = .bool b) ∨ (∃ i, c = .int i) ∨ (∃ x, c = .number x) ∨
      ∃ re im, c = .complex re im)
    (he : (∃ b, e = .bool b) ∨ (∃ i, e = .int i) ∨ (∃ x, e = .number x) ∨
      ∃ re im, e = .complex re im)
    (ha : comparable a = comparable c) (hb : comparable b = comparable e) :
    w.scalarsEqual a b = .ok (c.equals e) := by
  -- the imaginary parts of real numbers are zero
  have hreal : ∀ holds, (holds && Double.zero.equal .zero) = holds := by
    intro holds
    rw [zero_equal_zero, Bool.and_true]
  have hequals {p q : Quantity} := equals_of_quantity (c := c) (e := e) (p := p) (q := q)
  rw [scalarsEqual, ha, hb]
  rcases hc with ⟨p, rfl⟩ | ⟨i, rfl⟩ | ⟨x, rfl⟩ | ⟨x, y, rfl⟩
  · rcases he with ⟨q, rfl⟩ | ⟨j, rfl⟩ | ⟨x', rfl⟩ | ⟨x', y', rfl⟩
    · cases p <;> cases q <;> rfl
    · rfl
    · rfl
    · rfl
  · rcases he with ⟨q, rfl⟩ | ⟨j, rfl⟩ | ⟨x', rfl⟩ | ⟨x', y', rfl⟩
    · rfl
    · exact congrArg Except.ok ((hequals rfl rfl rfl rfl).trans (hreal _)).symm
    · exact congrArg Except.ok ((hequals rfl rfl rfl rfl).trans (hreal _)).symm
    · rfl
  · rcases he with ⟨q, rfl⟩ | ⟨j, rfl⟩ | ⟨x', rfl⟩ | ⟨x', y', rfl⟩
    · rfl
    · exact congrArg Except.ok ((hequals rfl rfl rfl rfl).trans (hreal _)).symm
    · exact congrArg Except.ok ((hequals rfl rfl rfl rfl).trans (hreal _)).symm
    · rfl
  · rcases he with ⟨q, rfl⟩ | ⟨j, rfl⟩ | ⟨x', rfl⟩ | ⟨x', y', rfl⟩
    · rfl
    · rfl
    · rfl
    · exact congrArg Except.ok (hequals rfl rfl rfl rfl).symm

theorem scalarsEqual_eq (ht : t.IsScalar) (hd : d.IsScalar) (hc : t.Admits c) (he : d.Admits e)
    (ha : comparable a = comparable c) (hb : comparable b = comparable e) :
    w.scalarsEqual a b = .ok (c.equals e) := by
  by_cases hn : t.isNumeric = true
  · have hnumber := cases_of_isNumeric hn hc
    by_cases hm : d.isNumeric = true
    · exact scalarsEqual_numbers hnumber (cases_of_isNumeric hm he) ha hb
    · rw [scalarsEqual, ha, hb]
      rcases hnumber with ⟨p, rfl⟩ | ⟨i, rfl⟩ | ⟨x, rfl⟩ | ⟨x, y, rfl⟩ <;>
        rcases cases_of_isScalar hd hm he with ⟨s, rfl⟩ | ⟨s, rfl⟩ <;> rfl
  · have htext := cases_of_isScalar ht hn hc
    rw [scalarsEqual, ha, hb]
    by_cases hm : d.isNumeric = true
    · rcases cases_of_isNumeric hm he with ⟨p, rfl⟩ | ⟨i, rfl⟩ | ⟨x, rfl⟩ | ⟨x, y, rfl⟩ <;>
        rcases htext with ⟨s, rfl⟩ | ⟨s, rfl⟩ <;> rfl
    · have htexts : ∀ s s' : String, (s == s') = (Value.text s == .text s') := fun _ _ =>
        (Function.Injective.beq_eq fun _ _ => Value.text.inj).symm
      rcases htext with ⟨s, rfl⟩ | ⟨s, rfl⟩ <;>
        rcases cases_of_isScalar hd hm he with ⟨s', rfl⟩ | ⟨s', rfl⟩ <;>
        exact congrArg Except.ok (htexts _ _)

theorem decode_beq (x y : List UInt8) :
    (Value.text (Latin.decode x) == .text (Latin.decode y)) = (x == y) := by
  rw [Bool.eq_iff_iff, beq_iff_eq, beq_iff_eq]
  exact ⟨fun h => Latin.decode_injective (Value.text.inj h), fun h => h ▸ rfl⟩

theorem scalarsEqual_of_not_isScalar (ht : t.IsComparable) (hs : ¬ t.IsScalar) (hc : t.Admits c)
    (he : t.Admits e) (ha : comparable a = comparable c) (hb : comparable b = comparable e) :
    w.scalarsEqual a b = .ok (c.equals e) := by
  rw [scalarsEqual_of_admits ht.ne_object hc he ha hb]
  cases t with
  | raw n =>
    obtain ⟨x, rfl⟩ := hc
    obtain ⟨y, rfl⟩ := he
    refine congrArg Except.ok (Eq.trans ?_ (decode_beq x y).symm)
    exact (Function.Injective.beq_eq fun _ _ => Value.bytes.inj).trans rfl
  | date unit | duration unit =>
    rcases hc with rfl | ⟨i, rfl⟩ <;> rcases he with rfl | ⟨j, rfl⟩ <;> rfl
  | object => exact ht.elim
  | _ => exact absurd True.intro hs

/-- Elements of these types are compared as scalars: numbers, texts and bytes with one another, and
dates, durations and raw cells with such of their own type. -/
def Pairs (t d : Content) : Prop := t.IsScalar ∧ d.IsScalar ∨ t = d

theorem scalarsEqual_of_pairs (ht : t.IsComparable) (hp : t.Pairs d) (hc : t.Admits c)
    (he : d.Admits e) (ha : comparable a = comparable c) (hb : comparable b = comparable e) :
    w.scalarsEqual a b = .ok (c.equals e) := by
  rcases hp with ⟨hts, hds⟩ | rfl
  · exact scalarsEqual_eq hts hds hc he ha hb
  · by_cases hs : t.IsScalar
    · exact scalarsEqual_eq hs hs hc he ha hb
    · exact scalarsEqual_of_not_isScalar ht hs hc he ha hb

/-- Two cells are equal as elements and not as cells of arrays, or the other way round. Numbers may
be equal in a joint type that are not of one kind, or are not quite the same. Bytes are never cells
equal to a text, though they have the characters of one, and what is missing equals nothing in an
array. -/
inductive Strays (t d : Content) (c e : Value) : Prop
  | number {p q : Quantity} (hp : c.quantity? = some p) (hq : e.quantity? = some q)
      (hjoint : Quantity.relateTyped .equal (some t) (some d) p q = .ok true)
      (h : c.isTruth ≠ e.isTruth ∨ p.isComplex ≠ q.isComplex ∨ p.equal q = false)
  | spelled {b : List UInt8} (h : c = .text (Latin.decode b) ∧ e = .bytes b ∨
      c = .bytes b ∧ e = .text (Latin.decode b))
  | missing (hc : c = .null) (he : e = .null)

theorem meets_numbers (hn : t.isNumeric = true) (hm : d.isNumeric = true) {p q : Quantity} {b : Bool}
    (hp : c.quantity? = some p) (hq : e.quantity? = some q)
    (hb : Quantity.relateTyped .equal (some t) (some d) p q = .ok b) : t.meets d c e = b := by
  refine meets_of_relateCells ?_
  rw [Grid.relateCells, cellMode_of_isNumeric hn hm]
  simp only [hp, hq, hb]

/-- The two ways to compare the contents differ for those that stray, one way being always the one that
finds them equal, and for no others. -/
structure Differs (t d : Content) (favoured : Bool) (c e : Value) : Prop where
  of_strays : t.Strays d c e → t.meets d c e = favoured ∧ c.equals e = !favoured
  of_not_strays : ¬ t.Strays d c e → t.meets d c e = c.equals e

/-- Numbers that stray are equal as cells and not as elements. -/
theorem differs_of_isNumeric (ht : t.IsComparable) (hd : d.IsComparable) (hc : t.Admits c)
    (he : d.Admits e) (hn : t.isNumeric = true) (hm : d.isNumeric = true) : t.Differs d true c e := by
  obtain ⟨p, hp, hpb, hpf⟩ := exists_quantity ht hn hc
  obtain ⟨q, hq, hqb, hqf⟩ := exists_quantity hd hm he
  obtain ⟨b, hb, himplies⟩ := Quantity.relateTyped_of_fitsIn hpf hqf hpb hqb
  have hmeets := meets_numbers hn hm hp hq hb
  have hequals : c.equals e = (c.isTruth == e.isTruth && p.isComplex == q.isComplex && p.equal q) := by
    rw [Value.equals, hp, hq]
  rw [← hmeets] at hb himplies
  constructor
  · rintro (⟨hp', hq', hjoint, h⟩ | ⟨⟨rfl, rfl⟩ | ⟨rfl, rfl⟩⟩ | ⟨rfl, rfl⟩)
    · obtain rfl := Option.some.inj (hp.symm.trans hp')
      obtain rfl := Option.some.inj (hq.symm.trans hq')
      refine ⟨Except.ok.inj (hb.symm.trans hjoint), ?_⟩
      rw [hequals]
      rcases h with h | h | h <;> simp [h]
    · cases hp
    · cases hp
    · cases hp
  · intro hno
    cases hsame : t.meets d c e with
    | false =>
      rw [hsame] at himplies
      rw [hequals, Bool.eq_false_iff.mpr fun h => Bool.noConfusion (himplies h), Bool.and_false]
    | true =>
      rw [hsame] at hb
      rw [eq_comm, hequals]
      by_contra h
      refine hno (.number hp hq hb ?_)
      simpa [or_assoc, imp_iff_not_or] using h

theorem differs_of_alike {favoured : Bool} (hsame : t.meets d c e = c.equals e)
    (hno : ¬ t.Strays d c e) : t.Differs d favoured c e :=
  ⟨fun h => absurd h hno, fun _ => hsame⟩

theorem differs_of_unlike (hmeets : t.meets d c e = false)
    (hstrays : t.Strays d c e ↔ c.equals e = true) : t.Differs d false c e := by
  refine ⟨fun h => ⟨hmeets, hstrays.mp h⟩, fun hno => ?_⟩
  rw [hmeets, Bool.eq_false_iff.mpr fun h => hno (hstrays.mpr h)]

/-- A text and bytes that stray are equal as elements and not as cells. -/
theorem differs_of_isScalar (hts : t.IsScalar) (hds : d.IsScalar) (hc : t.Admits c)
    (he : d.Admits e) (hn : t.isNumeric ≠ true) (hm : d.isNumeric ≠ true) : t.Differs d false c e := by
  rcases text_or_bytes hts hn with ⟨m, rfl⟩ | ⟨m, rfl⟩ <;>
    rcases text_or_bytes hds hm with ⟨n, rfl⟩ | ⟨n, rfl⟩ <;>
    obtain ⟨x, rfl⟩ := hc <;> obtain ⟨y, rfl⟩ := he
  · refine differs_of_alike ?_ ?_
    · rw [meets_of_relateCells (b := x == y) rfl]
      exact (Function.Injective.beq_eq fun _ _ => Value.text.inj).symm
    · rintro (⟨hp, -⟩ | ⟨⟨-, h⟩ | ⟨h, -⟩⟩ | ⟨h, -⟩)
      · cases hp
      · cases h
      · cases h
      · cases h
  · refine differs_of_unlike (meets_of_relateCells rfl) ⟨?_, fun h => ?_⟩
    · rintro (⟨hp, -⟩ | ⟨⟨h, h'⟩ | ⟨h, -⟩⟩ | ⟨h, -⟩)
      · cases hp
      · cases h
        cases h'
        exact beq_self_eq_true _
      · cases h
      · cases h
    · obtain rfl : x = Latin.decode y := Value.text.inj (eq_of_beq h)
      exact .spelled (.inl ⟨rfl, rfl⟩)
  · refine differs_of_unlike (meets_of_relateCells rfl) ⟨?_, fun h => ?_⟩
    · rintro (⟨hp, -⟩ | ⟨⟨h, -⟩ | ⟨h, h'⟩⟩ | ⟨h, -⟩)
      · cases hp
      · cases h
      · cases h
        cases h'
        exact beq_self_eq_true _
      · cases h
    · obtain rfl : Latin.decode x = y := Value.text.inj (eq_of_beq h)
      exact .spelled (.inr ⟨rfl, rfl⟩)
  · refine differs_of_alike ?_ ?_
    · rw [meets_of_relateCells (b := x == y) rfl]
      exact (decode_beq x y).symm
    · rintro (⟨hp, -⟩ | ⟨⟨h, -⟩ | ⟨-, h⟩⟩ | ⟨h, -⟩)
      · cases hp
      · cases h
      · cases h
      · cases h

theorem cases_of_not_isScalar (ht : t.IsComparable) (hs : ¬ t.IsScalar) (hc : t.Admits c) :
    c.quantity? = none ∧ ∀ s, c ≠ .text s := by
  cases t with
  | raw n =>
    obtain ⟨b, rfl⟩ := hc
    exact ⟨rfl, fun _ => Value.noConfusion⟩
  | date unit | duration unit =>
    rcases hc with rfl | ⟨i, rfl⟩
    · exact ⟨rfl, fun _ => Value.noConfusion⟩
    · exact ⟨rfl, fun _ => Value.noConfusion⟩
  | object => exact ht.elim
  | _ => exact absurd True.intro hs

theorem not_strays (ht : t.IsComparable) (hs : ¬ t.IsScalar) (hc : t.Admits c) (he : t.Admits e)
    (hne : ¬ (c = .null ∧ e = .null)) : ¬ t.Strays t c e := by
  obtain ⟨hq, hct⟩ := cases_of_not_isScalar ht hs hc
  obtain ⟨-, het⟩ := cases_of_not_isScalar ht hs he
  rintro (⟨hp, -⟩ | ⟨⟨rfl, -⟩ | ⟨-, rfl⟩⟩ | ⟨h, h'⟩)
  · cases hq.symm.trans hp
  · exact hct _ rfl
  · exact het _ rfl
  · exact hne ⟨h, h'⟩

/-- Dates and durations stray if both are missing, and raw cells never do. -/
theorem differs_of_not_isScalar (ht : t.IsComparable) (hs : ¬ t.IsScalar) (hc : t.Admits c)
    (he : t.Admits e) :
    t.Differs t false c e := by
  have hno := not_strays ht hs hc he
  cases t with
  | raw n =>
    obtain ⟨x, rfl⟩ := hc
    obtain ⟨y, rfl⟩ := he
    refine differs_of_alike ?_ (hno nofun)
    rw [meets_of_relateCells (b := x == y) rfl]
    exact (decode_beq x y).symm
  | date unit =>
    rcases hc with rfl | ⟨i, rfl⟩ <;> rcases he with rfl | ⟨j, rfl⟩
    · exact differs_of_unlike (meets_of_relateCells rfl) (iff_of_true (.missing rfl rfl) rfl)
    · exact differs_of_alike (meets_of_relateCells rfl) (hno nofun)
    · exact differs_of_alike (meets_of_relateCells rfl) (hno nofun)
    · refine differs_of_alike ?_ (hno nofun)
      rw [meets_of_relateCells (b := i == j) rfl]
      exact (Function.Injective.beq_eq fun _ _ => Value.date.inj).symm
  | duration unit =>
    rcases hc with rfl | ⟨i, rfl⟩ <;> rcases he with rfl | ⟨j, rfl⟩
    · exact differs_of_unlike (meets_of_relateCells rfl) (iff_of_true (.missing rfl rfl) rfl)
    · exact differs_of_alike (meets_of_relateCells rfl) (hno nofun)
    · exact differs_of_alike (meets_of_relateCells rfl) (hno nofun)
    · refine differs_of_alike ?_ (hno nofun)
      rw [meets_of_relateCells (b := i == j) rfl]
      exact (Function.Injective.beq_eq fun _ _ => Value.duration.inj).symm
  | object => exact ht.elim
  | _ => exact absurd True.intro hs

theorem cellMode_of_mixed (ht : t.IsComparable) (hd : d.IsComparable)
    (h : ¬ (t.isNumeric = true ↔ d.isNumeric = true)) : cellMode (some t) (some d) = .strangers := by
  unfold cellMode
  split
  · next heq => exact absurd (Option.some.inj heq) ht.ne_object
  · next heq _ => exact absurd (Option.some.inj heq) hd.ne_object
  case h_8 =>
    rw [if_neg]
    simpa using fun hn hm => h (iff_of_true hn hm)
  all_goals
    rename_i ht' hd'
    cases ht'
    cases hd'
    exact absurd Iff.rfl h

theorem isSome_quantity (ht : t.IsComparable) (hs : t.IsScalar) (hc : t.Admits c) :
    c.quantity?.isSome = t.isNumeric := by
  by_cases hn : t.isNumeric = true
  · obtain ⟨p, hp, -⟩ := exists_quantity ht hn hc
    rw [hp, hn]
    rfl
  · rw [Bool.eq_false_iff.mpr hn]
    rcases cases_of_isScalar hs hn hc with ⟨s, rfl⟩ | ⟨b, rfl⟩ <;> rfl

/-- A number and a text are never equal, and do not stray. -/
theorem differs_of_mixed (ht : t.IsComparable) (hd : d.IsComparable) (hts : t.IsScalar)
    (hds : d.IsScalar) (hc : t.Admits c) (he : d.Admits e)
    (h : ¬ (t.isNumeric = true ↔ d.isNumeric = true)) (favoured : Bool) :
    t.Differs d favoured c e := by
  have hquantity : ¬ (c.quantity?.isSome = true ↔ e.quantity?.isSome = true) := by
    rwa [isSome_quantity ht hts hc, isSome_quantity hd hds he]
  have hmeets : t.meets d c e = false := by
    refine meets_of_relateCells ?_
    rw [Grid.relateCells, cellMode_of_mixed ht hd h]
  have hequals : c.equals e = false := by
    rw [Value.equals]
    split
    · next hp hq => simp [hp, hq] at hquantity
    · next hp hq => simp [hp, hq] at hquantity
    · rfl
  refine ⟨fun hstrays => absurd hquantity (not_not_intro ?_), fun _ => hmeets.trans hequals.symm⟩
  rcases hstrays with ⟨hp, hq, -⟩ | ⟨⟨rfl, rfl⟩ | ⟨rfl, rfl⟩⟩ | ⟨rfl, rfl⟩
  · simp [hp, hq]
  · rfl
  · rfl
  · rfl

theorem exists_differs (ht : t.IsComparable) (hd : d.IsComparable) (hp : t.Pairs d) :
    ∃ favoured, ∀ c e, t.Admits c → d.Admits e → t.Differs d favoured c e := by
  have hscalars : t.IsScalar → d.IsScalar →
      ∃ favoured, ∀ c e, t.Admits c → d.Admits e → t.Differs d favoured c e := by
    intro hts hds
    by_cases hn : t.isNumeric = true
    · by_cases hm : d.isNumeric = true
      · exact ⟨true, fun c e hc he => differs_of_isNumeric ht hd hc he hn hm⟩
      · exact ⟨true, fun c e hc he =>
          differs_of_mixed ht hd hts hds hc he (fun h => hm (h.mp hn)) true⟩
    · by_cases hm : d.isNumeric = true
      · exact ⟨false, fun c e hc he =>
          differs_of_mixed ht hd hts hds hc he (fun h => hn (h.mpr hm)) false⟩
      · exact ⟨false, fun c e hc he => differs_of_isScalar hts hds hc he hn hm⟩
  rcases hp with ⟨hts, hds⟩ | rfl
  · exact hscalars hts hds
  · by_cases hs : t.IsScalar
    · exact hscalars hs hs
    · exact ⟨false, fun c e hc he => differs_of_not_isScalar ht hs hc he⟩

end Content

namespace World

variable {w : World} {a b : Window}

def elementsEqual (w : World) (a b : Window) (i : Nat) : Except HostFault Bool :=
  w.deepEqual (w.slotOperand a i) (w.slotOperand b i)

def StraysAt (w : World) (a b : Window) (i : Nat) : Prop :=
  a.type.content.Strays b.type.content (w.cell a i) (w.cell b i)

theorem forall_lt_mul_iff {m n : Nat} {p : Nat → Prop} :
    (∀ k < m * n, p k) ↔ ∀ i < m, ∀ j < n, p (i * n + j) := by
  constructor
  · intro h i hi j hj
    refine h _ (Nat.lt_of_lt_of_le ?_ (Nat.mul_le_mul_right n hi))
    rw [Nat.succ_mul]
    omega
  · intro h k hk
    have hn : 0 < n := Nat.pos_of_mul_pos_left (Nat.zero_lt_of_lt hk)
    have hdiv := h (k / n) ((Nat.div_lt_iff_lt_mul hn).mpr hk) (k % n) (Nat.mod_lt k hn)
    rwa [Nat.div_add_mod'] at hdiv

theorem admits_of_shows (h : w.Sound) (ha : w.Shows a) : ∀ c ∈ w.cells a, a.type.content.Admits c :=
  fun c hc => (ha.within.accepts_cells h c hc).1

theorem windowsEqual_of_shows (h : w.Sound) (ha : w.Shows a) (hb : w.Shows b)
    (hac : a.type.content.IsComparable) (hbc : b.type.content.IsComparable) (hne : a.shape ≠ [])
    (hshape : b.shape = a.shape) : ∃ holds, w.deepEqual (.window a) (.window b) = .ok holds ∧
      (holds = true ↔ ∀ k < a.size, w.meetsAt a b k = true) := by
  have hequal := windowsEqual_eq hac hbc (ha.encloses hne) (hb.encloses (by rwa [hshape]))
    (admits_of_shows h ha) (admits_of_shows h hb) hne hshape
  refine ⟨_, hequal, ?_⟩
  simp

theorem elementsEqual_rows (h : w.Sound) (ha : w.Shows a) (hb : w.Shows b)
    (hac : a.type.content.IsComparable) (hbc : b.type.content.IsComparable)
    (hrows : a.rowShape ≠ []) (hshape : b.shape = a.shape) {i : Nat} (hi : i < a.length) :
    ∃ holds, w.elementsEqual a b i = .ok holds ∧
      (holds = true ↔ ∀ j < a.rowSize, w.meetsAt a b (i * a.rowSize + j) = true) := by
  have hrow : b.rowShape = a.rowShape := by rw [Window.rowShape, hshape, Window.rowShape]
  have hsize : b.rowSize = a.rowSize := by rw [Window.rowSize, hrow, Window.rowSize]
  have hlength : b.length = a.length := by rw [Window.length, hshape, Window.length]
  have hslots : w.elementsEqual a b i = w.deepEqual (.window (a.row i)) (.window (b.row i)) := by
    have hnot : ¬ a.rowShape.isEmpty = true := by simpa using hrows
    rw [elementsEqual, slotOperand, slotOperand, hrow, if_neg hnot, if_neg hnot]
  obtain ⟨holds, hholds, hiff⟩ := windowsEqual_of_shows h (ha.row hi) (hb.row (hlength ▸ hi)) hac hbc
    hrows hrow
  refine ⟨holds, hslots.trans hholds, hiff.trans ?_⟩
  simp only [meetsAt, cell_row_eq, hsize]
  exact Iff.rfl

theorem size_of_single {win : Window} (hne : win.shape ≠ []) (hrow : win.rowShape = []) :
    win.size = win.length := by
  rw [Window.size_eq_length_mul_rowSize hne, Window.rowSize, hrow]
  exact Nat.mul_one _

theorem admits_cell (h : w.Sound) (ha : w.Shows a) (hne : a.shape ≠ []) {k : Nat} (hk : k < a.size) :
    a.type.content.Admits (w.cell a k) := by
  refine admits_of_shows h ha _ ?_
  rw [cells_eq_map (ha.encloses hne)]
  exact List.mem_map_of_mem (List.mem_range.mpr hk)

theorem isObject_of_isComparable {t : CellType} (h : t.content.IsComparable) : t.isObject = false := by
  by_contra ho
  exact h.ne_object (by simpa [CellType.isObject] using ho)

theorem elementsEqual_cells (hac : a.type.content.IsComparable) (hbc : b.type.content.IsComparable)
    (hp : a.type.content.Pairs b.type.content) (harow : a.rowShape = []) (hbrow : b.rowShape = [])
    {i : Nat}
    (hat : a.type.content.Admits (w.cell a i)) (hbt : b.type.content.Admits (w.cell b i)) :
    w.elementsEqual a b i = .ok ((w.cell a i).equals (w.cell b i)) := by
  rw [elementsEqual, slotOperand, slotOperand, harow, hbrow]
  exact Content.scalarsEqual_of_pairs hac hp hat hbt
    (comparable_itemValue (isObject_of_isComparable hac) hat)
    (comparable_itemValue (isObject_of_isComparable hbc) hbt)

/-- If two properties differ at some places only, and always in the same way, then they hold
everywhere together unless there is such a place and one of them holds at all others. -/
theorem forall_iff_forall_iff {n : Nat} {p q : Nat → Bool} {s : Nat → Prop} {favoured : Bool}
    (hstrays : ∀ i < n, s i → p i = favoured ∧ q i = !favoured)
    (hsame : ∀ i < n, ¬ s i → p i = q i) :
    ((∀ i < n, p i = true) ↔ ∀ i < n, q i = true) ↔
      ¬ ((∃ i < n, s i) ∧ ∀ i < n, s i ∨ q i = true) := by
  constructor
  · rintro hiff ⟨⟨i, hi, hs⟩, hrest⟩
    obtain ⟨hp, hq⟩ := hstrays i hi hs
    cases favoured with
    | true =>
      have hall : ∀ j < n, p j = true := by
        intro j hj
        by_cases hsj : s j
        · exact (hstrays j hj hsj).1
        · rw [hsame j hj hsj]
          exact (hrest j hj).resolve_left hsj
      exact Bool.noConfusion (hq.symm.trans (hiff.mp hall i hi))
    | false =>
      have hall : ∀ j < n, q j = true := fun j hj =>
        (hrest j hj).elim (fun hsj => (hstrays j hj hsj).2) id
      exact Bool.noConfusion (hp.symm.trans (hiff.mpr hall i hi))
  · intro hno
    by_cases hs : ∃ i < n, s i
    · obtain ⟨j, hj, hsj, hqj⟩ : ∃ j < n, ¬ s j ∧ q j ≠ true := by
        by_contra hnone
        refine hno ⟨hs, fun j hj => or_iff_not_imp_left.mpr fun hsj => ?_⟩
        by_contra hqj
        exact hnone ⟨j, hj, hsj, hqj⟩
      refine iff_of_false (fun hall => hqj ?_) fun hall => hqj (hall j hj)
      rw [← hsame j hj hsj]
      exact hall j hj
    · refine forall₂_congr fun i hi => ?_
      rw [hsame i hi fun hsi => hs ⟨i, hi, hsi⟩]

/-- Arrays of one shape are compared like their elements: those of rows always, and those of single
elements unless some cells stray and the elements are equal wherever they do not. -/
theorem deepEqual_iff_elements (h : w.Sound) (ha : w.Shows a) (hb : w.Shows b)
    (hac : a.type.content.IsComparable) (hbc : b.type.content.IsComparable) (hne : a.shape ≠ [])
    (hshape : b.shape = a.shape) : ∃ holds, w.deepEqual (.window a) (.window b) = .ok holds ∧
      (a.rowShape ≠ [] → (∀ i < a.length, ∃ e, w.elementsEqual a b i = .ok e) ∧
        (holds = true ↔ ∀ i < a.length, w.elementsEqual a b i = .ok true)) ∧
      (a.rowShape = [] → a.type.content.Pairs b.type.content →
        (∀ i < a.length, ∃ e, w.elementsEqual a b i = .ok e) ∧
        ((holds = true ↔ ∀ i < a.length, w.elementsEqual a b i = .ok true) ↔
          ¬ ((∃ i < a.length, w.StraysAt a b i) ∧
            ∀ i < a.length, w.StraysAt a b i ∨ w.elementsEqual a b i = .ok true))) := by
  obtain ⟨holds, hholds, hpositions⟩ := windowsEqual_of_shows h ha hb hac hbc hne hshape
  refine ⟨holds, hholds, fun hrows => ?_, fun hrows hp => ?_⟩
  · have helements := fun i => elementsEqual_rows h ha hb hac hbc hrows hshape (i := i)
    refine ⟨fun i hi => ?_, ?_⟩
    · obtain ⟨e, he, -⟩ := helements i hi
      exact ⟨e, he⟩
    · rw [hpositions, Window.size_eq_length_mul_rowSize hne, forall_lt_mul_iff]
      refine forall₂_congr fun i hi => ?_
      obtain ⟨e, he, hiff⟩ := helements i hi
      rw [he, ← hiff, Except.ok.injEq]
  · have hbrow : b.rowShape = [] := by rw [Window.rowShape, hshape, ← Window.rowShape, hrows]
    have hbne : b.shape ≠ [] := by rwa [hshape]
    have hsize : b.size = a.size := by rw [Window.size, hshape, Window.size]
    have hlength := size_of_single hne hrows
    have hat : ∀ i < a.length, a.type.content.Admits (w.cell a i) :=
      fun i hi => admits_cell h ha hne (hlength ▸ hi)
    have hbt : ∀ i < a.length, b.type.content.Admits (w.cell b i) :=
      fun i hi => admits_cell h hb hbne (hsize ▸ hlength ▸ hi)
    have helements : ∀ i < a.length, w.elementsEqual a b i =
        .ok ((w.cell a i).equals (w.cell b i)) :=
      fun i hi => elementsEqual_cells hac hbc hp hrows hbrow (hat i hi) (hbt i hi)
    obtain ⟨favoured, hdiffers⟩ := Content.exists_differs hac hbc hp
    have hiff := forall_iff_forall_iff (n := a.length) (p := w.meetsAt a b)
      (q := fun i => (w.cell a i).equals (w.cell b i)) (s := w.StraysAt a b)
      (fun i hi => (hdiffers _ _ (hat i hi) (hbt i hi)).of_strays)
      fun i hi => (hdiffers _ _ (hat i hi) (hbt i hi)).of_not_strays
    have hone : ∀ i < a.length, (w.elementsEqual a b i = .ok true ↔
        (w.cell a i).equals (w.cell b i) = true) := by
      intro i hi
      rw [helements i hi, Except.ok.injEq]
    refine ⟨fun i hi => ⟨_, helements i hi⟩, ?_⟩
    rw [hpositions, hlength, forall₂_congr hone,
      forall₂_congr fun i hi => or_congr_right (a := w.StraysAt a b i) (hone i hi)]
    exact hiff

def lookalikes : World := World.empty.afterAll [
  .buildArray (.native .bool) [2] [.bool true, .bool false],
  .buildArray (.native (.int true 1)) [2] [.int 1, .int 0],
  .buildArray (.native .bool) [2, 1] [.bool true, .bool false],
  .buildArray (.native (.int true 1)) [2, 1] [.int 1, .int 0]]

theorem reachable_lookalikes : Reachable lookalikes := by
  apply Reachable.start.afterAll
  simp [Operation.IsProper, CellType.native, Content.IsProper]

/-- All cells stray, so the arrays are equal and their elements are not. The rows are arrays again. -/
theorem deepEqual_bools_ints :
    (lookalikes.deepEqual (.window (lookalikes.arrays.get ⟨1⟩)) (.window (lookalikes.arrays.get ⟨2⟩)) =
        .ok true ∧
      ¬ ∀ i < 2, lookalikes.elementsEqual (lookalikes.arrays.get ⟨1⟩) (lookalikes.arrays.get ⟨2⟩) i =
        .ok true) ∧
    ∀ i < 2, lookalikes.elementsEqual (lookalikes.arrays.get ⟨3⟩) (lookalikes.arrays.get ⟨4⟩) i =
      .ok true := by
  have hsound := reachable_lookalikes.sound
  constructor
  · obtain ⟨holds, hholds, -, hsingle⟩ := deepEqual_iff_elements hsound (hsound.shows ⟨1⟩)
      (hsound.shows ⟨2⟩) True.intro (.inl rfl) (by decide) rfl
    have htrue : lookalikes.deepEqual (.window (lookalikes.arrays.get ⟨1⟩))
        (.window (lookalikes.arrays.get ⟨2⟩)) = .ok true := by decide +kernel
    obtain rfl : true = holds := Except.ok.inj (htrue.symm.trans hholds)
    have hstrays : ∀ i < 2, lookalikes.StraysAt (lookalikes.arrays.get ⟨1⟩)
        (lookalikes.arrays.get ⟨2⟩) i := by
      intro i hi
      interval_cases i
      · exact .number rfl rfl rfl (.inl nofun)
      · exact .number rfl rfl rfl (.inl nofun)
    obtain ⟨-, hiff⟩ := hsingle rfl (.inl ⟨True.intro, True.intro⟩)
    refine ⟨htrue, fun hall => hiff.mp (iff_of_true rfl hall) ?_⟩
    exact ⟨⟨0, by decide, hstrays 0 (by decide)⟩, fun i hi => .inl (hstrays i hi)⟩
  · obtain ⟨holds, hholds, hrows, -⟩ := deepEqual_iff_elements hsound (hsound.shows ⟨3⟩)
      (hsound.shows ⟨4⟩) True.intro (.inl rfl) (by decide) rfl
    have htrue : lookalikes.deepEqual (.window (lookalikes.arrays.get ⟨3⟩))
        (.window (lookalikes.arrays.get ⟨4⟩)) = .ok true := by decide +kernel
    obtain rfl : true = holds := Except.ok.inj (htrue.symm.trans hholds)
    exact (hrows (by decide)).2.mp rfl

end World
end ScriptedArrays
