import ScriptedArrays.Proofs.ArrayEquality

/-! Equality of scalars. What a scalar stands for is told by its kind alone: an exact number, two of
them, a truth value, a text, or nothing at all. Scalars are equal exactly if both stand for
something and it is the same, whichever types they carry and whether a text is given by its bytes. So
equality is symmetric and transitive, and what is no number is all that is not equal to itself. -/

namespace ScriptedArrays

open World

def Agree {α : Type} (x y : Option α) : Prop := ∃ a, x = some a ∧ y = some a

section Agree

variable {α β : Type} {x y z : Option α} {a b : α}

@[simp] theorem agree_some_left_iff : Agree (some a) y ↔ y = some a := by
  simp [Agree]

@[simp] theorem agree_some_right_iff : Agree x (some b) ↔ x = some b := by
  simp [Agree]

@[simp] theorem not_agree_none_left : ¬ Agree none y := nofun

@[simp] theorem not_agree_none_right : ¬ Agree x none := nofun

theorem Agree.symm (h : Agree x y) : Agree y x := by
  obtain ⟨a, hx, hy⟩ := h
  exact ⟨a, hy, hx⟩

theorem Agree.trans (h : Agree x y) (h' : Agree y z) : Agree x z := by
  obtain ⟨a, hx, hy⟩ := h
  rw [hy, agree_some_left_iff] at h'
  exact ⟨a, hx, h'⟩

theorem agree_self_iff : Agree x x ↔ x ≠ none := by
  cases x with
  | none => simp
  | some a => simp

theorem agree_map_iff {f : α → β} (hf : Function.Injective f) :
    Agree (x.map f) (y.map f) ↔ Agree x y := by
  cases x <;> cases y <;> simp [hf.eq_iff]

end Agree

inductive Magnitude
  | finite (units : Int)
  | infinite (negative : Bool)

namespace Magnitude

def ofInt (i : Int) : Magnitude := .finite (i * Double.one)

theorem ofInt_injective : Function.Injective ofInt := by
  intro i j h
  have hone : (Double.one : Int) ≠ 0 := Int.natCast_ne_zero.mpr (twoTo_pos 1074).ne'
  exact mul_right_cancel₀ hone (Magnitude.finite.inj h)

end Magnitude

namespace Double

variable {x y : Double} {i : Int}

def magnitude? : Double → Option Magnitude
  | .finite negative n _ => some (.finite (signed negative n))
  | .infinite negative => some (.infinite negative)
  | .nan => none

theorem magnitude?_eq_none_iff : x.magnitude? = none ↔ x.isNaN = true := by
  cases x <;> simp [magnitude?, isNaN]

theorem equal_iff_agree : x.equal y = true ↔ Agree x.magnitude? y.magnitude? := by
  cases x <;> cases y <;> simp only [equal, magnitude?, agree_some_left_iff, Option.some.injEq,
    Magnitude.finite.injEq, Magnitude.infinite.injEq, beq_iff_eq, reduceCtorEq,
    not_agree_none_left, not_agree_none_right]
  · exact eq_comm
  · exact eq_comm

theorem equalInt_iff : x.equalInt i = true ↔ x.magnitude? = some (.ofInt i) := by
  cases x with
  | finite negative n hn =>
    rw [equalInt, magnitude?, Magnitude.ofInt, beq_iff_eq, Option.some.injEq,
      Magnitude.finite.injEq]
  | infinite negative =>
    refine iff_of_false Bool.false_ne_true fun h => ?_
    cases h
  | nan =>
    refine iff_of_false Bool.false_ne_true fun h => ?_
    cases h

end Double

/-- What a scalar can stand for. -/
inductive Meaning
  | undefined
  | null
  | truth (b : Bool)
  | amount (m : Magnitude)
  | pair (re im : Magnitude)
  | text (s : String)

namespace Meaning

def pair? (re im : Option Magnitude) : Option Meaning := re.bind fun p => im.map (.pair p)

variable {p q r s : Option Magnitude}

theorem pair?_eq_none_iff : pair? p q = none ↔ p = none ∨ q = none := by
  cases p <;> cases q <;> simp [pair?]

theorem agree_amount_iff : Agree (p.map amount) (q.map amount) ↔ Agree p q :=
  agree_map_iff fun _ _ => amount.inj

theorem agree_pair_iff : Agree (pair? p q) (pair? r s) ↔ Agree p r ∧ Agree q s := by
  cases p <;> cases q <;> cases r <;> cases s <;> simp [pair?]

theorem pair?_ne {m : Meaning} (hm : ∀ x y, m ≠ .pair x y) : pair? p q ≠ some m := by
  intro h
  obtain ⟨x, -, h⟩ := Option.bind_eq_some_iff.mp h
  obtain ⟨y, -, h⟩ := Option.map_eq_some_iff.mp h
  exact hm x y h.symm

theorem not_agree_amount_pair : ¬ Agree (p.map amount) (pair? q r) := by
  rintro ⟨m, hm, h⟩
  obtain ⟨x, -, rfl⟩ := Option.map_eq_some_iff.mp hm
  exact pair?_ne (fun _ _ => Meaning.noConfusion) h

end Meaning

namespace Value

inductive IsBare : Value → Prop
  | undefined : IsBare .undefined
  | null : IsBare .null
  | bool (b : Bool) : IsBare (.bool b)
  | int (i : Int) : IsBare (.int i)
  | number (x : Double) : IsBare (.number x)
  | complex (re im : Double) : IsBare (.complex re im)
  | text (s : String) : IsBare (.text s)

inductive IsScalar (v : Value) : Prop
  | bare (h : v.item.IsBare)
  | bytes {b : List UInt8} (h : v.item = .bytes b)

def meaning? (v : Value) : Option Meaning :=
  match v.item with
  | undefined => some .undefined
  | null => some .null
  | bool b => some (.truth b)
  | int i => some (.amount (.ofInt i))
  | number x => x.magnitude?.map .amount
  | complex re im => Meaning.pair? re.magnitude? im.magnitude?
  | text s => some (.text s)
  | bytes b => some (.text (Latin.decode b))
  | _ => none

/-- The value may be put in the place of a scalar: it is the same object or one like it, its content
without the cell type, or the text that its bytes spell. -/
inductive IsFormOf (x v : Value) : Prop
  | object (h : x.content = v.content)
  | item (h : x.content = v.item)
  | text {b : List UInt8} (h : v.item = .bytes b) (hx : x.content = .text (Latin.decode b))

variable {v x y : Value}

theorem IsBare.item_eq (h : v.IsBare) : v.item = v := by
  cases h <;> rfl

theorem IsScalar.item_of_content (hv : v.IsScalar) (h : x.content = v.item) : x.item = v.item := by
  rw [item, h]
  cases hv with
  | bare hv =>
    generalize v.item = u at hv ⊢
    cases hv <;> rfl
  | bytes hv => rw [hv]

theorem IsScalar.of_item (hv : v.IsScalar) (h : x.item = v.item) : x.IsScalar := by
  cases hv with
  | bare hv => exact .bare (by rwa [h])
  | bytes hv => exact .bytes (h.trans hv)

theorem isScalar_itemValue {t : CellType} {c : Value} (hs : t.content.IsScalar)
    (hc : t.content.Admits c) : (t.itemValue c).IsScalar := by
  have hitem : (t.itemValue c).item = c := item_itemValue (isObject_of_isScalar hs)
  have hbare : c.IsBare → (t.itemValue c).IsScalar := fun h => .bare (by rwa [hitem])
  by_cases hn : t.content.isNumeric = true
  · rcases Content.cases_of_isNumeric hn hc with ⟨b, rfl⟩ | ⟨i, rfl⟩ | ⟨x, rfl⟩ | ⟨re, im, rfl⟩
    · exact hbare (.bool b)
    · exact hbare (.int i)
    · exact hbare (.number x)
    · exact hbare (.complex re im)
  · rcases Content.cases_of_isScalar hs hn hc with ⟨s, rfl⟩ | ⟨b, rfl⟩
    · exact hbare (.text s)
    · exact .bytes hitem

theorem IsScalar.operand_eq (h : v.IsScalar) (w : World) : w.operand v = .plain v := by
  cases v with
  | array r =>
    rcases h with h | h
    · cases h
    · cases h
  | _ => rfl

theorem comparable_of_bytes {b : List UInt8} (h : v.item = .bytes b) :
    comparable v = .text (Latin.decode b) := by
  rw [comparable, h]

theorem comparable_of_bare (h : v.item.IsBare) : comparable v = v.item := by
  rw [comparable]
  generalize v.item = u at h ⊢
  cases h <;> rfl

theorem IsScalar.isBare_comparable (h : v.IsScalar) : (comparable v).IsBare := by
  cases h with
  | bare h => rwa [comparable_of_bare h]
  | bytes h =>
    rw [comparable_of_bytes h]
    exact .text _

theorem IsScalar.meaning?_comparable (h : v.IsScalar) : (comparable v).meaning? = v.meaning? := by
  cases h with
  | bare h => rw [comparable_of_bare h, meaning?, h.item_eq, ← meaning?]
  | bytes h =>
    rw [comparable_of_bytes h]
    simp only [meaning?, h]
    rfl

theorem IsFormOf.comparable_eq (h : x.IsFormOf v) (hv : v.IsScalar) : comparable x = comparable v := by
  cases h with
  | object h => exact comparable_congr h
  | item h => rw [comparable, hv.item_of_content h, ← comparable]
  | text h hx => rw [comparable_of_bytes h, comparable, Value.item, hx]

theorem IsFormOf.isScalar (h : x.IsFormOf v) (hv : v.IsScalar) : x.IsScalar := by
  cases h with
  | object h => exact hv.of_item (by rw [Value.item, h, ← Value.item])
  | item h => exact hv.of_item (hv.item_of_content h)
  | text h hx =>
    refine .bare ?_
    rw [Value.item, hx]
    exact .text _

theorem IsScalar.meaning?_eq_none_iff (h : v.IsScalar) :
    v.meaning? = none ↔ v.item.holdsNaN = true := by
  rw [meaning?]
  cases h with
  | bytes h =>
    rw [h]
    exact iff_of_false nofun nofun
  | bare h =>
    generalize v.item = u at h ⊢
    cases h with
    | number x => simp [holdsNaN, Double.magnitude?_eq_none_iff]
    | complex re im =>
      simp [holdsNaN, Meaning.pair?_eq_none_iff, Double.magnitude?_eq_none_iff]
    | _ => exact iff_of_false nofun nofun

theorem isTruth_iff : x.item.isTruth = true ↔ ∃ b, x.meaning? = some (.truth b) := by
  rw [meaning?]
  cases x.item <;> simp [isTruth, Meaning.pair?_ne]

theorem isTruth_eq_of_agree (h : Agree x.meaning? y.meaning?) : x.item.isTruth = y.item.isTruth := by
  obtain ⟨m, hx, hy⟩ := h
  rw [Bool.eq_iff_iff, isTruth_iff, isTruth_iff, hx, hy]

end Value

abbrev Scalar := { v : Value // v.IsScalar }

namespace World

def equates (w : World) (a b : Scalar) : Except HostFault Bool :=
  w.deepEqual (w.operand a) (w.operand b)

def EqualScalars (w : World) (a b : Scalar) : Prop := w.equates a b = .ok true

theorem scalarsEqual_of_isBare {a b x y : Value} (w : World) (ha : comparable a = x)
    (hb : comparable b = y) (hx : x.IsBare) (hy : y.IsBare) :
    ∃ holds, w.scalarsEqual a b = .ok holds ∧ (holds = true ↔ Agree x.meaning? y.meaning?) := by
  rw [scalarsEqual, ha, hb]
  -- one case for each pair of kinds; those of unlike kinds stand for unlike things
  cases hx <;> cases hy <;> refine ⟨_, rfl, ?_⟩ <;>
    simp [Value.meaning?, Value.item, Value.content, isOne, Value.rename, Double.equal_iff_agree,
      Double.equalInt_iff, Magnitude.ofInt_injective.eq_iff, Meaning.agree_amount_iff,
      Meaning.agree_pair_iff, Meaning.pair?_ne, Meaning.not_agree_amount_pair,
      mt Agree.symm Meaning.not_agree_amount_pair]

section Answers

variable {w : World} {a b : Scalar}

theorem exists_equates (w : World) (a b : Scalar) : ∃ holds, w.equates a b = .ok holds ∧
    (holds = true ↔ Agree a.1.meaning? b.1.meaning?) := by
  rw [equates, a.2.operand_eq, b.2.operand_eq, deepEqual, ← a.2.meaning?_comparable,
    ← b.2.meaning?_comparable]
  exact w.scalarsEqual_of_isBare rfl rfl a.2.isBare_comparable b.2.isBare_comparable

theorem equalScalars_iff : w.EqualScalars a b ↔ Agree a.1.meaning? b.1.meaning? := by
  obtain ⟨holds, hholds, hiff⟩ := w.exists_equates a b
  rw [EqualScalars, hholds, Except.ok.injEq, hiff]

theorem equates_eq_false_iff : w.equates a b = .ok false ↔ ¬ Agree a.1.meaning? b.1.meaning? := by
  obtain ⟨holds, hholds, hiff⟩ := w.exists_equates a b
  rw [hholds, Except.ok.injEq, ← hiff, Bool.not_eq_true]

theorem equates_comm (w : World) (a b : Scalar) : w.equates a b = w.equates b a := by
  obtain ⟨holds, hab, hiff⟩ := w.exists_equates a b
  obtain ⟨holds', hba, hiff'⟩ := w.exists_equates b a
  have hsame : holds = holds' :=
    Bool.eq_iff_iff.mpr (hiff.trans ((Iff.intro Agree.symm Agree.symm).trans hiff'.symm))
  rw [hab, hba, hsame]

theorem deepEqual_of_isFormOf {x y : Value} (hx : x.IsFormOf a) (hy : y.IsFormOf b) :
    w.deepEqual (w.operand x) (w.operand y) = w.equates a b := by
  rw [equates, (hx.isScalar a.2).operand_eq, (hy.isScalar b.2).operand_eq, a.2.operand_eq,
    b.2.operand_eq]
  simp only [deepEqual, scalarsEqual, hx.comparable_eq a.2, hy.comparable_eq b.2]

end Answers

structure ComparesScalars (w : World) : Prop where
  answers : ∀ a b, ∃ holds, w.equates a b = .ok holds
  symm : ∀ a b, w.equates a b = w.equates b a
  trans : ∀ a b c, w.EqualScalars a b → w.EqualScalars b c → w.EqualScalars a c
  refl_iff : ∀ a, w.EqualScalars a a ↔ a.1.item.holdsNaN = false
  /-- What is no number equals nothing. -/
  nan : ∀ a b, a.1.item.holdsNaN = true → w.equates a b = .ok false
  /-- Truth values equal truth values only. -/
  truth : ∀ a b, a.1.item.isTruth ≠ b.1.item.isTruth → w.equates a b = .ok false
  /-- It does not matter as which object, with which type or in which spelling a scalar is given. -/
  form : ∀ (a b : Scalar) x y, x.IsFormOf a → y.IsFormOf b →
    w.deepEqual (w.operand x) (w.operand y) = w.equates a b
  /-- Scalars are equal if they stand for the same number, pair, truth value or text. -/
  equal_iff : ∀ a b, w.EqualScalars a b ↔ Agree a.1.meaning? b.1.meaning?

/-- Equality of scalars is a partial equivalence that only what holds no number is left out of. -/
theorem comparesScalars (w : World) : w.ComparesScalars where
  answers a b := by
    obtain ⟨holds, hholds, -⟩ := w.exists_equates a b
    exact ⟨holds, hholds⟩
  symm := w.equates_comm
  trans a b c hab hbc :=
    equalScalars_iff.mpr ((equalScalars_iff.mp hab).trans (equalScalars_iff.mp hbc))
  refl_iff a := by
    rw [equalScalars_iff, agree_self_iff, ne_eq, a.2.meaning?_eq_none_iff, Bool.not_eq_true]
  nan a b ha := by
    rw [equates_eq_false_iff, a.2.meaning?_eq_none_iff.mpr ha]
    exact not_agree_none_left
  truth a b h := equates_eq_false_iff.mpr (mt Value.isTruth_eq_of_agree h)
  form a b x y := deepEqual_of_isFormOf
  equal_iff a b := equalScalars_iff

def halved (x : Double) : Scalar :=
  ⟨CellType.itemValue ⟨.real .half, true⟩ (.number (x.narrow Precision.half.format)),
    Value.isScalar_itemValue True.intro ⟨_, rfl, Double.fits_narrow .half x⟩⟩

def twos : Scalar × Scalar × Scalar :=
  (⟨.kept 1 (.int 2), .bare (.int 2)⟩, ⟨.number (.ofInt 2), .bare (.number _)⟩, halved (.ofInt 2))

def oddments : Scalar × Scalar :=
  (⟨.complex .zero .nan, .bare (.complex _ _)⟩,
    ⟨.scalar (.native (.bytes 1)) (.bytes [0xe9]), .bytes rfl⟩)

/-- All twos are equal and none is a truth value, a number that holds none differs from itself, and a
letter is compared like the byte. -/
theorem equalScalars_of_twos : empty.EqualScalars twos.1 twos.2.2 ∧
    empty.equates twos.1 ⟨.bool true, .bare (.bool true)⟩ = .ok false ∧
    empty.equates oddments.1 oddments.1 = .ok false ∧
    empty.deepEqual (.plain (.text "é")) (.plain (.bytes [0xe9])) = .ok true := by
  have hlaws := comparesScalars empty
  have hdouble : empty.EqualScalars twos.1 twos.2.1 := by
    show _ = _
    decide +kernel
  have hhalf : empty.EqualScalars twos.2.1 twos.2.2 := by
    show _ = _
    decide +kernel
  refine ⟨hlaws.trans _ _ _ hdouble hhalf, hlaws.truth _ _ Bool.false_ne_true, hlaws.nan _ _ rfl, ?_⟩
  have hforms := hlaws.form oddments.2 oddments.2 (.text "é") (.bytes [0xe9]) (.text rfl rfl)
    (.item rfl)
  refine hforms.trans ?_
  exact (hlaws.refl_iff oddments.2).mpr rfl

end World
end ScriptedArrays
