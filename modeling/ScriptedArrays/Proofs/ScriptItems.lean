import ScriptedArrays.Proofs.Slices
import ScriptedArrays.Proofs.Converting

/-! Items of script arrays. Methods read the items of a record one by one up to its length, and make
a length that is out of range the nearest one in it. Conversions take all items at once, as many as a
length says, and refuse a length that says none. So both read the same from a record exactly if its
length is in range, and both find in a new script array what it was made of. -/

namespace ScriptedArrays

open World

namespace Double

variable {x : Double}

/-- The number tells how many items there are: it is finite, and between zero and the greatest
length. It may have a fraction. -/
structure IsCount (x : Double) : Prop where
  finite : x.isFinite = true
  nonnegative : x.lessInt 0 = false
  bounded : intLess greatestLength x = false

theorem one_dvd_of_holds {n : Nat} (h : Format.double.Holds n) (hn : twoTo 52 * one ≤ n) : one ∣ n := by
  have hlog : 52 + 1074 ≤ n.log2 := by
    by_contra hlt
    have hle : twoTo (n.log2 + 1) ≤ twoTo 52 * one := by
      rw [one, ← twoTo_add]
      exact Format.twoTo_le (by omega)
    exact Nat.lt_irrefl n (Nat.lt_of_lt_of_le (Format.lt_twoTo_log2 n) (hle.trans hn))
  refine Nat.dvd_trans ?_ (Nat.dvd_of_mod_eq_zero h.1)
  rw [Format.spacing_eq]
  apply twoTo_dvd
  simp only [Format.step, Format.double]
  omega

theorem div_one_le_iff {n : Nat} (h : Format.double.Holds n) :
    n / one ≤ greatestLength ↔ n ≤ greatestLength * one := by
  have hone : 0 < one := twoTo_pos 1074
  constructor
  · intro hle
    rcases Nat.lt_or_ge n (twoTo 52 * one) with hlt | hge
    · exact Nat.le_of_lt (Nat.lt_of_lt_of_le hlt (Nat.mul_le_mul_right one (by decide)))
    · rw [← Nat.div_mul_cancel (one_dvd_of_holds h hge)]
      exact Nat.mul_le_mul_right one hle
  · intro hle
    exact Nat.div_le_of_le_mul (by rwa [Nat.mul_comm])

theorem isCount_finite_iff {negative : Bool} {n : Nat} {hn : Format.double.Holds n} :
    (finite negative n hn).IsCount ↔
      ¬ signed negative n < 0 ∧ ¬ (greatestLength : Int) * one < signed negative n := by
  have hzero : (finite negative n hn).lessInt 0 = false ↔ ¬ signed negative n < 0 := by
    rw [lessInt, decide_eq_false_iff_not, Int.zero_mul]
  have hgreatest : intLess greatestLength (finite negative n hn) = false ↔
      ¬ (greatestLength : Int) * one < signed negative n := decide_eq_false_iff_not
  rw [← hzero, ← hgreatest]
  exact ⟨fun h => ⟨h.nonnegative, h.bounded⟩, fun h => ⟨rfl, h.1, h.2⟩⟩

/-- A number counts items exactly if it has a whole part that is the length that it tells. -/
theorem isCount_iff : x.IsCount ↔
    ∃ k, x.truncate? = some k ∧ x.less .zero = false ∧ k.toNat = x.asLength := by
  cases x with
  | nan => exact iff_of_false (fun h => Bool.false_ne_true h.finite) nofun
  | infinite negative => exact iff_of_false (fun h => Bool.false_ne_true h.finite) nofun
  | finite negative n hn =>
    have hless : (finite negative n hn).less .zero = false ↔ ¬ signed negative n < 0 :=
      decide_eq_false_iff_not
    simp only [truncate?, Option.some.injEq, exists_eq_left', isCount_finite_iff, hless,
      and_congr_right_iff]
    intro hsign
    cases negative with
    | false =>
      have hwhole : (signed false (n / one)).toNat = n / one := Int.toNat_natCast _
      have hunits : ¬ (greatestLength : Int) * one < signed false n ↔ n ≤ greatestLength * one := by
        rw [← Int.natCast_mul, Int.not_lt]
        exact Int.ofNat_le
      rw [hunits, ← div_one_le_iff hn, hwhole, asLength, eq_comm, min_eq_left_iff]
    | true =>
      -- negative zero is all that is left
      have hunits : signed true n = -(n : Int) := rfl
      obtain rfl : n = 0 := by omega
      refine iff_of_true ?_ ?_
      · exact Int.not_lt.mpr (Int.mul_nonneg (Int.natCast_nonneg _) (Int.natCast_nonneg _))
      · rw [Nat.zero_div]
        rfl

theorem isCount_ofInt {n : Nat} (hn : n ≤ greatestLength) : (ofInt n).IsCount := by
  obtain ⟨htruncate, hless⟩ := truncate?_ofInt hn
  exact isCount_iff.mpr ⟨n, htruncate, hless, (Int.toNat_natCast n).trans (asLength_ofInt hn).symm⟩

end Double

namespace Entries

def upTo (e : Entries) (n : Nat) : List Value :=
  (List.range n).map fun i => e.getD (toString i) .undefined

variable {e : Entries} {n : Nat}

@[simp] theorem length_upTo (e : Entries) (n : Nat) : (e.upTo n).length = n := by
  rw [upTo, List.length_map, List.length_range]

@[simp] theorem getElem_upTo {i : Nat} (hi : i < (e.upTo n).length) :
    (e.upTo n)[i] = e.getD (toString i) .undefined := by
  simp only [upTo, List.getElem_map, List.getElem_range]

def counted? (e : Entries) (x : Double) : Option (List Value) :=
  match x.truncate? with
  | none => none
  | some k => if x.less .zero then none else some (e.upTo k.toNat)

theorem counted?_eq_iff {x : Double} : e.counted? x = some (e.upTo x.asLength) ↔ x.IsCount := by
  rw [Double.isCount_iff, counted?]
  cases x.truncate? with
  | none => simp
  | some k =>
    simp only [Option.some.injEq, exists_eq_left']
    cases x.less .zero with
    | true => simp
    | false =>
      simp only [Bool.false_eq_true, if_false, Option.some.injEq, true_and]
      exact ⟨fun h => by simpa using congrArg List.length h, fun h => by rw [h]⟩

theorem numberedItems_eq (e : Entries) (n : Nat) :
    Conversion.numberedItems e n = (e.upTo n).map .plain := by
  rw [Conversion.numberedItems, upTo, List.map_map]
  rfl

end Entries

namespace Conversion

def recordItems (w : World) (e : Entries) : Except HostFault (Option (List Value)) :=
  (w.numberOf (e.getD "length" (.int 0))).map e.counted?

def toRows (w : World) (truncates : Bool) (cell : CellType) (n : Nat) (shape : List Nat)
    (given : Operand) (items : List Value) : Except Refusal (List Value) :=
  if items.length = n then do
    .ok ((← each (toCells w truncates cell shape) (items.map .plain)).map (placed cell))
  else refuseRow given ⟨cell, n :: shape⟩ ("length " ++ toString items.length ++ " != " ++ toString n)

variable {w : World} {r : Ref .record} {v : Value} {x : Double} {given : Operand}

/-- A record with a length is converted as the items that are taken from it. -/
theorem toCells_record (hg : w.contentOf given = .plain (.record r))
    (hv : (w.records.get r).get? "length" = some v) (truncates : Bool) (cell : CellType) (n : Nat)
    (shape : List Nat) : toCells w truncates cell (n :: shape) given = (do
      match ← lift (recordItems w (w.records.get r)) with
      | none => refuseRow given ⟨cell, n :: shape⟩ "array expected"
      | some items => toRows w truncates cell n shape given items) := by
  rw [toCells, hg]
  dsimp only
  rw [recordItems, Entries.getD, hv, Option.getD_some]
  dsimp only
  cases w.numberOf v with
  | error f => rfl
  | ok x =>
    dsimp only [lift, bind, Except.bind, Except.map, Entries.counted?]
    cases x.truncate? with
    | none => rfl
    | some k =>
      dsimp only
      cases x.less .zero with
      | true => rfl
      | false =>
        -- a length that is not that of the slot is refused before any item is taken
        simp only [Bool.false_eq_true, if_false, toRows, Entries.length_upTo]
        by_cases hk : k.toNat = n
        · subst hk
          rw [if_pos rfl, if_pos rfl, if_pos (length_numberedItems _ _), Entries.numberedItems_eq]
          rfl
        · rw [if_neg hk, if_neg hk]

theorem recordItems_eq_ok_iff (hv : (w.records.get r).get? "length" = some v)
    (hx : w.numberOf v = .ok x) {items : Option (List Value)} :
    recordItems w (w.records.get r) = .ok items ↔ (w.records.get r).counted? x = items := by
  rw [recordItems, Entries.getD, hv, Option.getD_some, hx, Except.map, Except.ok.injEq]

end Conversion

theorem Receiver.length_record {w : World} {r : Ref .record} {v : Value} {x : Double}
    (hv : (w.records.get r).get? "length" = some v) (hx : w.numberOf v = .ok x) :
    length (.record r) w = .ok x.asLength w := by
  have hnumber : numberOf ((w.records.get r).getD "length" (.int 0)) w = .ok x w := by
    rw [Entries.getD, hv, Option.getD_some, numberOf, hx]
  rw [length, get_bind_apply, bind_apply_of_ok _ hnumber]
  rfl

namespace World

/-- Methods and conversions both read these items from a record. -/
structure BothRead (w : World) (r : Ref .record) (items : List Value) : Prop where
  length : Receiver.length (.record r) w = .ok items.length w
  item : ∀ i, ∀ h : i < items.length, Receiver.item (.record r) i w = .ok items[i] w
  all : ∀ earlier, Receiver.items (.record r) earlier 0 items.length w = .ok items w
  taken : Conversion.recordItems w (w.records.get r) = .ok (some items)
  /-- A conversion takes the record apart into the items. -/
  converted : ∀ truncates cell n shape given, w.contentOf given = .plain (.record r) →
    Conversion.toCells w truncates cell (n :: shape) given =
      Conversion.toRows w truncates cell n shape given items

theorem bothRead_iff {w : World} {r : Ref .record} {v : Value} {x : Double}
    (hv : (w.records.get r).get? "length" = some v) (hx : w.numberOf v = .ok x) :
    w.BothRead r ((w.records.get r).upTo x.asLength) ↔ x.IsCount := by
  rw [← Entries.counted?_eq_iff, ← Conversion.recordItems_eq_ok_iff hv hx]
  refine ⟨BothRead.taken, fun htaken => ⟨?_, fun i hi => ?_, fun earlier => ?_, htaken, ?_⟩⟩
  · rw [Entries.length_upTo]
    exact Receiver.length_record hv hx
  · rw [Entries.getElem_upTo]
    rfl
  · rw [Receiver.items, Receiver.itemsAt_record, Entries.length_upTo, ← List.range_eq_range']
    rfl
  · intro truncates cell n shape given hg
    rw [Conversion.toCells_record hg hv, htaken]
    rfl

end World

namespace Entries.IsArray

variable {e : Entries} {w : World} {prototype r : Ref .record} {xs : List Value}

theorem forall₂_upTo (h : e.IsArray prototype xs) :
    List.Forall₂ Value.IsKept (e.upTo xs.length) xs := by
  refine List.forall₂_iff_get.mpr ⟨length_upTo e xs.length, fun i hi hi' => ?_⟩
  obtain ⟨x, hx, hkept⟩ := h.item i hi'
  rw [List.get_eq_getElem, List.get_eq_getElem, getElem_upTo, getD, hx]
  exact hkept

theorem bothRead_iff (h : (w.records.get r).IsArray prototype xs) :
    w.BothRead r ((w.records.get r).upTo xs.length) ↔ xs.length ≤ greatestLength := by
  constructor
  · intro hread
    have hle := Receiver.length_le hread.length
    rwa [length_upTo] at hle
  · intro hle
    obtain ⟨v, hv, hcontent⟩ := h.length
    have hread := (World.bothRead_iff hv (numberOf_length w hcontent hle)).mpr (Double.isCount_ofInt hle)
    rwa [Double.asLength_ofInt hle] at hread

end Entries.IsArray

namespace World

/-- How script arrays are made, and read by methods and by conversions. -/
structure ReadsArraysAlike (w : World) : Prop where
  /-- A list becomes a prototype, a length and an item under each number, and both read it again, if
  it is no longer than any length can be. -/
  made : ∀ prototype xs, IsNewArray prototype xs w (makeArray prototype xs w) ∧
    ∀ r w', makeArray prototype xs w = .ok (.record r) w' →
      ∃ ys, List.Forall₂ Value.IsKept ys xs ∧ (w'.BothRead r ys ↔ xs.length ≤ greatestLength)
  /-- A record with a length is read alike exactly if the length counts items, whichever of them are
  missing. -/
  read : ∀ r v x, (w.records.get r).get? "length" = some v → w.numberOf v = .ok x →
    (w.BothRead r ((w.records.get r).upTo x.asLength) ↔ x.IsCount)

/-- Whatever a script array was made of is read from it, and holes and fractions of a length make no
difference between methods and conversions. -/
theorem readsArraysAlike (w : World) : w.ReadsArraysAlike where
  made prototype xs := by
    have hnew := isNewArray_makeArray prototype xs w
    refine ⟨hnew, fun r w' hr => ?_⟩
    obtain ⟨hrecord, -, -, harray⟩ := hnew.ok hr
    cases hrecord
    exact ⟨_, harray.forall₂_upTo, harray.bothRead_iff⟩
  read r v x := bothRead_iff

def hedgerow : World := World.empty.afterAll [.newRecord [("length", .text "2.5"), ("1", .int 7)]]

/-- Both read two items of the record, and from an array that is made of two items these. -/
theorem reads_hole_alike : hedgerow.BothRead ⟨0⟩ [.undefined, .int 7] ∧
    ∃ w' ys, makeArray ⟨0⟩ [.null, .int 7] hedgerow = .ok (.record ⟨1⟩) w' ∧
      List.Forall₂ Value.IsKept ys [.null, .int 7] ∧ w'.BothRead ⟨1⟩ ys := by
  have hlaws := readsArraysAlike hedgerow
  constructor
  · have hlength : (hedgerow.records.get ⟨0⟩).get? "length" = some (.kept 0 (.text "2.5")) := by
      decide +kernel
    have hnumber : hedgerow.numberOf (.kept 0 (.text "2.5")) =
        .ok (.ofUnits false (5 * twoTo 1073) 1) := by decide +kernel
    have hcount : (Double.ofUnits false (5 * twoTo 1073) 1).IsCount :=
      ⟨by decide +kernel, by decide +kernel, by decide +kernel⟩
    have hitems : (hedgerow.records.get ⟨0⟩).upTo (Double.ofUnits false (5 * twoTo 1073) 1).asLength =
        [.undefined, .int 7] := by decide +kernel
    rw [← hitems]
    exact (hlaws.read _ _ _ hlength hnumber).mpr hcount
  · obtain ⟨⟨es, n, hmade, -⟩, hread⟩ := hlaws.made ⟨0⟩ [.null, .int 7]
    obtain ⟨ys, hkept, hboth⟩ := hread _ _ hmade
    have hnext : hedgerow.records.next = ⟨1⟩ := by decide +kernel
    rw [hnext] at hmade hboth
    exact ⟨_, ys, hmade, hkept, hboth.mpr (by decide)⟩

end World
end ScriptedArrays
