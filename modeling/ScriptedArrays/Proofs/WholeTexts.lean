import ScriptedArrays.Proofs.ArrayEquality
import ScriptedArrays.Proofs.ScriptNumerals

/-! Texts of whole numbers. An integer is written with all its digits, and so is a whole double, of
whatever size. Read again they give the number of the integer, or the double itself. -/

namespace ScriptedArrays

namespace Double

variable {x : Double}

theorem ofInt_equal_of_isWhole {negative : Bool} {n : Nat} {hn : Format.double.Holds n}
    (h : (finite negative n hn).isWhole = true) :
    (ofInt (signed negative (n / one))).equal (finite negative n hn) = true := by
  have hmod : n % one = 0 := by simpa only [isWhole, beq_iff_eq] using h
  have hunits : n / one * one = n := Nat.div_mul_cancel (Nat.dvd_of_mod_eq_zero hmod)
  have hvalue : signed negative n = signed negative (n / one) * one := by
    rw [← signed_mul, hunits]
  have hholds : Format.double.Holds ((signed negative (n / one)).natAbs * one) := by
    rw [natAbs_signed, hunits]
    exact hn
  rw [ofInt, ofUnits_one _ hholds, equal, beq_iff_eq, signed_natAbs_mul]
  exact hvalue.symm

/-- The number is whole, of any size, or an infinity. -/
def IsUnbroken (x : Double) : Prop := x.isWhole = true ∨ ∃ negative, x = .infinite negative

theorem read_infinity (negative : Bool) :
    Numeral.read (if negative then "-Infinity" else "Infinity") = .number (.infinite negative) := by
  have hhead : ∀ sgn ∈ Numeral.signs, (sgn ++ "Infinity".toList).head? ≠ some '0' := by decide
  have hword : ∀ sgn ∈ Numeral.signs, Numeral.readStripped (sgn ++ "Infinity".toList) =
      .number (.infinite (decide (sgn = ['-']))) := by
    intro sgn hs
    have hliteral := Numeral.IsLiteral.infinity hs
    rw [Numeral.readStripped_of_ne hliteral.ne_nil, Numeral.float?_of_isWord hs Numeral.isWord_infinity]
    · rfl
    · intro x h hx ht
      exact hhead sgn hs (ht ▸ rfl)
  cases negative with
  | false => exact hword [] (by decide)
  | true => exact hword ['-'] (by decide)

theorem read_scriptText (h : x.IsUnbroken) (other : String) :
    ∃ y, Numeral.read (x.scriptText other) = .number y ∧ y.equal x = true := by
  rcases h with hwhole | ⟨negative, rfl⟩
  · cases x with
    | finite negative n hn =>
      refine ⟨_, ?_, ofInt_equal_of_isWhole hwhole⟩
      rw [scriptText, if_pos hwhole, Numeral.read_toString]
    | _ => cases hwhole
  · refine ⟨.infinite negative, read_infinity negative, ?_⟩
    rw [equal, beq_self_eq_true]

end Double

def Value.IsDouble (v : Value) (x : Double) : Prop :=
  v.content = .number x ∨ ∃ order, v.content = .scalar ⟨.real .double, order⟩ (.number x)

namespace World

variable {w : World} {v : Value} {x : Double}

theorem numberOf_text_of_read {s : String} (h : Numeral.read s = .number x) :
    w.numberOf (.text s) = .ok x := by
  show textNumber s = _
  rw [textNumber, h]

theorem numberOf_double (hv : v.IsDouble x) : w.numberOf v = .ok x := by
  rcases hv with hv | ⟨order, hv⟩
  · rw [numberOf, Value.plain, hv]
  · rw [numberOf, Value.plain, hv]

theorem textOf_double (hv : v.IsDouble x) : ∃ other, w.textOf v = x.scriptText other := by
  rcases hv with hv | ⟨order, hv⟩
  · exact ⟨_, by rw [textOf, hv]⟩
  · exact ⟨_, by rw [textOf, hv]⟩

/-- The text of a whole number is read as that number: that of an integer gives what the integer
gives, rounded alike if it has more than 53 bits, and that of a whole or infinite double gives the
double, but for the sign of a zero. -/
theorem numberOf_textOf (w : World) (v : Value) :
    (∀ n : Int, v.content = .int n → n.natAbs < Double.bound →
      w.numberOf (.text (w.textOf v)) = w.numberOf v ∧ w.numberOf v = .ok (.ofInt n)) ∧
    ∀ x, v.IsDouble x → x.IsUnbroken → w.numberOf v = .ok x ∧
      ∃ y, w.numberOf (.text (w.textOf v)) = .ok y ∧ y.equal x = true := by
  constructor
  · intro n hv hn
    have hnumber : w.numberOf v = .ok (.ofInt n) := by
      rw [numberOf, Value.plain, hv]
      exact Double.ofInt?_of_lt hn
    have htext : w.textOf v = toString n := by rw [textOf, hv]
    refine ⟨?_, hnumber⟩
    rw [hnumber, htext]
    exact numberOf_text_of_read (Numeral.read_toString n)
  · intro x hv hx
    obtain ⟨other, htext⟩ := textOf_double (w := w) hv
    obtain ⟨y, hy, hequal⟩ := Double.read_scriptText hx other
    refine ⟨numberOf_double hv, y, ?_, hequal⟩
    rw [htext]
    exact numberOf_text_of_read hy

/-- An integer of 71 bits, an infinity and a negative zero, which is written without its sign. -/
theorem numberOf_signed_texts :
    World.empty.numberOf (.text "-1180591620717411303424") =
      World.empty.numberOf (.int (-1180591620717411303424)) ∧
    (∃ y, World.empty.numberOf (.text "-Infinity") = .ok y ∧ y.equal (.infinite true) = true) ∧
    ∃ y, World.empty.numberOf (.text "0") = .ok y ∧
      y.equal (.finite true 0 (Format.holds_zero _)) = true := by
  have hinteger := (numberOf_textOf .empty (.int (-1180591620717411303424))).1 _ rfl (by decide +kernel)
  have hinfinite := (numberOf_textOf .empty (.number (.infinite true))).2 _ (.inl rfl) (.inr ⟨true, rfl⟩)
  have hzero := (numberOf_textOf .empty (.number (.finite true 0 (Format.holds_zero _)))).2 _ (.inl rfl)
    (.inl (by decide +kernel))
  have hdigits : World.empty.textOf (.int (-1180591620717411303424)) = "-1180591620717411303424" := by
    decide +kernel
  have hplain : World.empty.textOf (.number (.finite true 0 (Format.holds_zero _))) = "0" := by
    decide +kernel
  rw [hdigits] at hinteger
  rw [hplain] at hzero
  exact ⟨hinteger.1, hinfinite.2, hzero.2⟩

end World

end ScriptedArrays
