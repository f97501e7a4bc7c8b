import ScriptedArrays.Primitive
import ScriptedArrays.Proofs.CellContents

/-! Texts of numbers. They consist of ASCII characters, and those of the integers of a type are no
longer than its cells need as text. -/

namespace ScriptedArrays

def IsAscii (s : String) : Prop := s.toList.all (·.toNat < 128) = true

instance (s : String) : Decidable (IsAscii s) := inferInstanceAs (Decidable (_ = _))

theorem isAscii_append {s t : String} (hs : IsAscii s) (ht : IsAscii t) : IsAscii (s ++ t) := by
  rw [IsAscii, String.toList_append, List.all_append, hs, ht]
  rfl

theorem isAscii_ofList {cs : List Char} (h : cs.all (·.toNat < 128) = true) :
    IsAscii (String.ofList cs) := by
  rw [IsAscii, String.toList_ofList]
  exact h

theorem isAscii_take {s : String} (h : IsAscii s) (n : Nat) :
    IsAscii (String.ofList (s.toList.take n)) := by
  refine isAscii_ofList (List.all_eq_true.mpr fun c hc => ?_)
  exact List.all_eq_true.mp h c (List.mem_of_mem_take hc)

theorem isAscii_drop {s : String} (h : IsAscii s) (n : Nat) :
    IsAscii (String.ofList (s.toList.drop n)) := by
  refine isAscii_ofList (List.all_eq_true.mpr fun c hc => ?_)
  exact List.all_eq_true.mp h c (List.mem_of_mem_drop hc)

theorem isAscii_ite {p : Prop} [Decidable p] {s t : String} (hs : IsAscii s) (ht : IsAscii t) :
    IsAscii (if p then s else t) := by
  split
  · exact hs
  · exact ht

theorem isAscii_repr (n : Nat) : IsAscii n.repr := by
  rw [Nat.repr_eq_ofList_toDigits]
  refine isAscii_ofList (List.all_eq_true.mpr fun c hc => ?_)
  have hdigit := Nat.isDigit_of_mem_toDigits (by decide) (by decide) hc
  simp only [Char.isDigit, Bool.and_eq_true, decide_eq_true_eq] at hdigit
  have hle : c.toNat ≤ 57 := hdigit.2
  simp only [decide_eq_true_eq]
  omega

theorem isAscii_toString (i : Int) : IsAscii (toString i) := by
  rw [Int.toString_eq_repr]
  cases i with
  | ofNat n => exact isAscii_repr n
  | negSucc n => exact isAscii_append (by decide) (isAscii_repr _)

namespace NumberText

theorem isAscii_zeros (n : Nat) : IsAscii (zeros n) := by
  refine isAscii_ofList (List.all_eq_true.mpr fun c hc => ?_)
  rw [List.eq_of_mem_replicate hc]
  rfl

theorem isAscii_exponent (width : Nat) (e : Int) : IsAscii (exponent width e) :=
  isAscii_append (isAscii_append (isAscii_ite (by decide) (by decide)) (isAscii_zeros _))
    (isAscii_repr _)

theorem isAscii_plain (keepPoint : Bool) (d : Decimal) : IsAscii (plain keepPoint d) := by
  have htext : IsAscii d.text := isAscii_repr _
  have hpadded := isAscii_append (isAscii_zeros ((-d.exponent).toNat + 1 - d.text.length)) htext
  simp only [plain]
  refine isAscii_ite ?_ ?_
  · exact isAscii_append (isAscii_append htext (isAscii_zeros _)) (isAscii_ite (by decide) (by decide))
  · exact isAscii_append (isAscii_append (isAscii_take hpadded _) (by decide)) (isAscii_drop hpadded _)

theorem isAscii_scientific (d : Decimal) : IsAscii (scientific d) := by
  have htext : IsAscii d.text := isAscii_repr _
  simp only [scientific]
  refine isAscii_append (isAscii_append (isAscii_take htext 1) ?_) (isAscii_exponent 2 _)
  exact isAscii_ite (by decide) (isAscii_append (by decide) (isAscii_drop htext 1))

theorem isAscii_signText (negative : Bool) : IsAscii (signText negative) := by
  cases negative <;> decide

theorem isAscii_render (layout : Layout) (f : Format) (x : Double) : IsAscii (render layout f x) := by
  cases x with
  | nan => exact (by decide : IsAscii "nan")
  | infinite s => exact isAscii_append (isAscii_signText s) (by decide)
  | finite s n hn =>
    apply isAscii_append (isAscii_signText s)
    simp only [magnitude]
    apply isAscii_ite (isAscii_ite (by decide) (by decide))
    exact isAscii_ite (isAscii_plain _ _) (isAscii_scientific _)

theorem isAscii_ofComplex (f : Format) (re im : Double) : IsAscii (ofComplex f re im) := by
  simp only [ofComplex]
  apply isAscii_ite (isAscii_append (isAscii_render _ _ _) (by decide))
  have hopen := isAscii_append (by decide : IsAscii "(") (isAscii_render partLayout f re)
  have hsign := isAscii_append hopen
    (isAscii_ite (by decide : IsAscii "") (by decide : IsAscii "+") (p := im.isNegative))
  exact isAscii_append (isAscii_append hsign (isAscii_render _ _ _)) (by decide)

end NumberText

namespace Latin

theorem encodeChars?_of_lt {cs : List Char} (h : ∀ c ∈ cs, c.toNat < 256) :
    ∃ b, encodeChars? cs = some b := by
  induction cs with
  | nil => exact ⟨[], rfl⟩
  | cons c cs ih =>
    obtain ⟨b, hb⟩ := ih fun d hd => h d (List.mem_cons_of_mem c hd)
    refine ⟨UInt8.ofNat c.toNat :: b, ?_⟩
    rw [encodeChars?, encodeChar?, if_pos (h c List.mem_cons_self), hb]

theorem encode?_of_isAscii {s : String} (h : IsAscii s) : ∃ b, encode? s = some b := by
  refine encodeChars?_of_lt fun c hc => ?_
  have hlt := List.all_eq_true.mp h c hc
  simp only [decide_eq_true_eq] at hlt
  omega

theorem encodeAscii?_of_isAscii {s : String} (h : IsAscii s) : encodeAscii? s = encode? s :=
  if_pos h

theorem decode_injective {a b : List UInt8} (h : decode a = decode b) : a = b := by
  have henc := congrArg encode? h
  rw [encode?_decode, encode?_decode] at henc
  exact Option.some.inj henc

end Latin

theorem CellType.cutText_decode (n : Nat) (b : List UInt8) :
    cutText n (Latin.decode b) = .text (Latin.decode (dropNulBytes (b.take n))) := by
  have hnul : ((·.toNat == 0) ∘ Latin.decodeByte : UInt8 → Bool) = (· == 0) := by
    funext x
    rw [Function.comp_apply, Latin.toNat_decodeByte, Bool.eq_iff_iff, beq_iff_eq, beq_iff_eq,
      ← UInt8.toNat_inj]
    rfl
  refine congrArg Value.text (String.toList_injective ?_)
  rw [toList_dropNuls, String.toList_ofList, Latin.decode, String.toList_ofList, Latin.decode,
    String.toList_ofList, dropNulBytes_eq, ← List.map_take, List.rdropWhile, List.rdropWhile,
    ← List.map_reverse, List.dropWhile_map, hnul, List.map_reverse]

/-- Truth values, numbers of the usual widths, texts, bytes and objects. -/
def Content.IsUsual : Content → Prop
  | .int _ width => width = 1 ∨ width = 2 ∨ width = 4 ∨ width = 8
  | .date _ | .duration _ | .raw _ => False
  | _ => True

theorem length_toString_le {n : Int} {k : Nat} (hk : 0 < k) (h : n.natAbs < 10 ^ k) :
    (toString n).length ≤ k + 1 ∧ (0 ≤ n → (toString n).length ≤ k) := by
  rw [Int.toString_eq_repr]
  have hrepr : n.natAbs.repr.length ≤ k := (Nat.length_repr_le_iff hk).mpr h
  cases n with
  | ofNat m => exact ⟨Nat.le_succ_of_le hrepr, fun _ => hrepr⟩
  | negSucc m =>
    refine ⟨?_, fun h0 => absurd h0 (Int.negSucc_not_nonneg m).mp⟩
    show ("-" ++ (m + 1).repr).length ≤ k + 1
    rw [String.length_append]
    have hone : ("-" : String).length = 1 := by decide
    have hrepr' : (m + 1).repr.length ≤ k := hrepr
    omega

theorem bounds_of_inRange {signed : Bool} {width : Nat} {n : Int}
    (h : Content.inRange signed width n = true) :
    (signed = true → -(2 ^ (8 * width - 1) : Int) ≤ n ∧ n < 2 ^ (8 * width - 1)) ∧
      (signed = false → 0 ≤ n ∧ n < 2 ^ (8 * width)) := by
  have hpow : ∀ k, ((twoTo k : Nat) : Int) = 2 ^ k := fun k => by
    rw [twoTo]
    exact Int.natCast_pow 2 k
  rw [Content.inRange, decide_eq_true_eq] at h
  constructor
  · rintro rfl
    simp only [Content.least, Content.greatest, if_true, hpow] at h
    omega
  · rintro rfl
    simp only [Content.least, Content.greatest, Bool.false_eq_true, if_false, hpow] at h
    omega

theorem length_toString_le_textWidth {signed : Bool} {width : Nat} {n : Int} {k : Nat}
    (hu : (Content.int signed width).IsUsual) (h : Content.inRange signed width n = true)
    (hk : (Content.int signed width).textWidth? = some k) : (toString n).length ≤ k := by
  obtain ⟨hs, hns⟩ := bounds_of_inRange h
  cases signed with
  | true =>
    obtain ⟨hlo, hhi⟩ := hs rfl
    rcases hu with rfl | rfl | rfl | rfl <;> cases hk
    · exact (length_toString_le (k := 3) (by decide) (by omega)).1
    · exact (length_toString_le (k := 5) (by decide) (by omega)).1
    · exact (length_toString_le (k := 10) (by decide) (by omega)).1
    · exact (length_toString_le (k := 20) (by decide) (by omega)).1
  | false =>
    obtain ⟨hlo, hhi⟩ := hns rfl
    rcases hu with rfl | rfl | rfl | rfl <;> cases hk
    · exact (length_toString_le (k := 3) (by decide) (by omega)).2 hlo
    · exact (length_toString_le (k := 5) (by decide) (by omega)).2 hlo
    · exact (length_toString_le (k := 10) (by decide) (by omega)).2 hlo
    · exact (length_toString_le (k := 20) (by decide) (by omega)).2 hlo

theorem natAbs_lt_of_inRange {signed : Bool} {width : Nat} {n : Int}
    (hu : (Content.int signed width).IsUsual) (h : Content.inRange signed width n = true) :
    n.natAbs < Double.bound := by
  have hn : n.natAbs < twoTo 65 := by
    obtain ⟨hs, hns⟩ := bounds_of_inRange h
    have htwo : twoTo 65 = 36893488147419103232 := by decide
    rw [htwo]
    cases signed with
    | true =>
      obtain ⟨hlo, hhi⟩ := hs rfl
      rcases hu with rfl | rfl | rfl | rfl <;> omega
    | false =>
      obtain ⟨hlo, hhi⟩ := hns rfl
      rcases hu with rfl | rfl | rfl | rfl <;> omega
  exact Nat.lt_of_lt_of_le hn (Double.twoTo_le_bound (by decide))

theorem ofInt?_of_inRange {signed : Bool} {width : Nat} {n : Int}
    (hu : (Content.int signed width).IsUsual) (h : Content.inRange signed width n = true) :
    Double.ofInt? n = .ok (Double.ofInt n) :=
  if_pos ((Double.isFinite_ofInt_iff n).mpr (natAbs_lt_of_inRange hu h))

end ScriptedArrays
