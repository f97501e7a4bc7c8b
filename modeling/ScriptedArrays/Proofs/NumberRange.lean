import ScriptedArrays.Proofs.Consistency
import ScriptedArrays.Proofs.Searching
import ScriptedArrays.Proofs.Visits
import ScriptedArrays.Proofs.WrittenTexts

/-! The range of numbers. An integer beyond all finite doubles has no number, and neither has a text
that denotes one in hexadecimal digits. The conversion of such a value overflows, and with it
whatever asks for the number: a length, the start of a search, a bound of a slice, the length that an
array is made with. No other value overflows. A box that counts by a text that is not written has no
number either. -/

namespace ScriptedArrays

open World

namespace Numeral

def hexadecimal? : List Char → Option Nat
  | '0' :: 'x' :: s => hex? s
  | '0' :: 'X' :: s => hex? s
  | _ => none

def TooLarge (s : String) : Prop := ∃ n, hexadecimal? (strip s.toList) = some n ∧ Double.bound ≤ n

theorem ofHex_of_none {s : List Char} (h : hex? s = none) : ofHex s = .number .nan := by
  rw [ofHex, h]

theorem ofHex_of_some {s : List Char} {n : Nat} (h : hex? s = some n) :
    ofHex s = if n < Double.bound then .number (Double.ofInt n) else .tooLarge := by
  rw [ofHex, h]
  exact if_congr (Double.isFinite_ofInt_iff n) rfl rfl

theorem readStripped_of_some {s : List Char} {n : Nat} (h : hexadecimal? s = some n) :
    readStripped s = if n < Double.bound then .number (Double.ofInt n) else .tooLarge := by
  rw [hexadecimal?.eq_def] at h
  split at h
  · exact ofHex_of_some h
  · exact ofHex_of_some h
  · cases h

theorem readStripped_of_none {s : List Char} (h : hexadecimal? s = none) :
    ∃ x, readStripped s = .number x := by
  rw [readStripped.eq_def]
  split
  · exact ⟨.zero, rfl⟩
  · exact ⟨.nan, ofHex_of_none h⟩
  · exact ⟨.nan, ofHex_of_none h⟩
  · exact ⟨_, rfl⟩

end Numeral

theorem textNumber_of_tooLarge {s : String} (h : Numeral.TooLarge s) :
    textNumber s = .error .overflow := by
  obtain ⟨n, hn, hle⟩ := h
  rw [textNumber, Numeral.read, Numeral.readStripped_of_some hn, if_neg (Nat.not_lt.mpr hle)]

theorem exists_textNumber {s : String} (h : ¬ Numeral.TooLarge s) : ∃ x, textNumber s = .ok x := by
  rw [textNumber, Numeral.read]
  cases hhex : Numeral.hexadecimal? (strip s.toList) with
  | none =>
    obtain ⟨x, hx⟩ := Numeral.readStripped_of_none hhex
    rw [hx]
    exact ⟨x, rfl⟩
  | some n =>
    have hlt : n < Double.bound := Nat.lt_of_not_le fun hle => h ⟨n, hhex, hle⟩
    rw [Numeral.readStripped_of_some hhex, if_pos hlt]
    exact ⟨_, rfl⟩

theorem Double.ofInt?_of_le {i : Int} (h : bound ≤ i.natAbs) : ofInt? i = .error .overflow :=
  if_neg fun hfinite => Nat.not_lt.mpr h ((isFinite_ofInt_iff i).mp hfinite)

theorem Double.ofInt?_of_lt {i : Int} (h : i.natAbs < bound) : ofInt? i = .ok (ofInt i) :=
  if_pos ((isFinite_ofInt_iff i).mpr h)

def Value.IsBeyond (v : Value) : Prop := ∃ i, v.plain = .int i ∧ Double.bound ≤ i.natAbs

namespace World

structure CountsByText (w : World) (v : Value) (r : Ref .box) : Prop where
  box : v.plain = .box r
  notInt : ∀ i, (w.boxes.get r).value.plain ≠ .int i
  notNumber : ∀ x, (w.boxes.get r).value.plain ≠ .number x

inductive Oversized (w : World) (v : Value) : Prop
  | int (h : v.IsBeyond)
  | text {s : String} (hs : v.plain = .text s) (h : Numeral.TooLarge s)
  | boxedInt {r : Ref .box} (hr : v.plain = .box r) (h : (w.boxes.get r).value.IsBeyond)
  | boxedText {r : Ref .box} (hr : w.CountsByText v r) (hd : w.displayable (w.boxes.get r).value = true)
      (h : Numeral.TooLarge (w.display (w.boxes.get r).value))

/-- The value has no number, and to ask for it ends in this fault: it is oversized, or it counts by a
text that is not written. -/
inductive Lacks (w : World) (v : Value) : HostFault → Prop
  | oversized (h : w.Oversized v) : w.Lacks v .overflow
  | unwritten {r : Ref .box} (hr : w.CountsByText v r)
      (hd : w.displayable (w.boxes.get r).value = false) : w.Lacks v .value

variable {w : World} {v : Value} {f : HostFault}

theorem boxedNumber_of_text (hint : ∀ i, v.plain ≠ .int i) (hnumber : ∀ x, v.plain ≠ .number x) :
    w.boxedNumber v = w.display? v >>= textNumber := by
  rw [boxedNumber]
  split
  · next i h => exact absurd h (hint i)
  · next x h => exact absurd h (hnumber x)
  · rfl

theorem display?_of_displayable (h : w.displayable v = true) : w.display? v = .ok (w.display v) := by
  rw [display?, h, Display.written_true]

theorem CountsByText.numberOf_eq {r : Ref .box} (h : w.CountsByText v r) :
    w.numberOf v = w.display? (w.boxes.get r).value >>= textNumber := by
  rw [numberOf, h.box]
  exact boxedNumber_of_text h.notInt h.notNumber

theorem numberOf_of_oversized (h : w.Oversized v) : w.numberOf v = .error .overflow := by
  cases h with
  | int h =>
    obtain ⟨i, hi, hle⟩ := h
    rw [numberOf, hi]
    exact Double.ofInt?_of_le hle
  | text hs h =>
    rw [numberOf, hs]
    exact textNumber_of_tooLarge h
  | boxedInt hr h =>
    obtain ⟨i, hi, hle⟩ := h
    rw [numberOf, hr]
    show w.boxedNumber _ = _
    rw [boxedNumber, hi]
    exact Double.ofInt?_of_le hle
  | boxedText hr hd h =>
    rw [hr.numberOf_eq, display?_of_displayable hd]
    exact textNumber_of_tooLarge h

theorem numberOf_of_lacks (h : w.Lacks v f) : w.numberOf v = .error f := by
  cases h with
  | oversized h => exact numberOf_of_oversized h
  | unwritten hr hd =>
    rw [hr.numberOf_eq, display?, hd]
    rfl

theorem exists_boxedNumber {r : Ref .box} (hr : v.plain = .box r) (h : ∀ f, ¬ w.Lacks v f) :
    ∃ x, w.boxedNumber (w.boxes.get r).value = .ok x := by
  -- a box of a number has that number, any other box that of its text
  by_cases hint : ∃ i, (w.boxes.get r).value.plain = .int i
  · obtain ⟨i, hi⟩ := hint
    have hlt : i.natAbs < Double.bound :=
      Nat.lt_of_not_le fun hle => h _ (.oversized (.boxedInt hr ⟨i, hi, hle⟩))
    rw [boxedNumber, hi]
    exact ⟨_, Double.ofInt?_of_lt hlt⟩
  · by_cases hnumber : ∃ x, (w.boxes.get r).value.plain = .number x
    · obtain ⟨x, hx⟩ := hnumber
      rw [boxedNumber, hx]
      exact ⟨x, rfl⟩
    · have htext : w.CountsByText v r := ⟨hr, not_exists.mp hint, not_exists.mp hnumber⟩
      rw [boxedNumber_of_text htext.notInt htext.notNumber]
      cases hd : w.displayable (w.boxes.get r).value with
      | false => exact absurd (.unwritten htext hd) (h _)
      | true =>
        rw [display?_of_displayable hd]
        exact exists_textNumber fun hlarge => h _ (.oversized (.boxedText htext hd hlarge))

theorem exists_numberOf (h : ∀ f, ¬ w.Lacks v f) : ∃ x, w.numberOf v = .ok x := by
  rw [numberOf]
  split
  · exact ⟨_, rfl⟩
  · exact ⟨_, rfl⟩
  · exact ⟨_, rfl⟩
  · next i hi =>
    have hlt : i.natAbs < Double.bound :=
      Nat.lt_of_not_le fun hle => h _ (.oversized (.int ⟨i, hi, hle⟩))
    exact ⟨_, Double.ofInt?_of_lt hlt⟩
  · exact ⟨_, rfl⟩
  · next s hs => exact exists_textNumber fun htext => h _ (.oversized (.text hs htext))
  · next r hr => exact exists_boxedNumber hr h
  · exact ⟨_, rfl⟩

theorem not_oversized (hint : ∀ i, v.plain ≠ .int i) (htext : ∀ s, v.plain ≠ .text s)
    (hbox : ∀ r, v.plain ≠ .box r) : ¬ w.Oversized v := by
  intro h
  cases h with
  | int h =>
    obtain ⟨i, hi, -⟩ := h
    exact hint i hi
  | text hs => exact htext _ hs
  | boxedInt hr => exact hbox _ hr
  | boxedText hr => exact hbox _ hr.box

theorem lacks_iff (hbox : ∀ r, v.plain ≠ .box r) : w.Lacks v f ↔ f = .overflow ∧ w.Oversized v := by
  constructor
  · intro h
    cases h with
    | oversized h => exact ⟨rfl, h⟩
    | unwritten hr => exact absurd hr.box (hbox _)
  · rintro ⟨rfl, h⟩
    exact .oversized h

theorem not_lacks_undefined (w : World) (f : HostFault) : ¬ w.Lacks .undefined f := by
  intro h
  exact not_oversized (by simp [Value.plain, Value.content]) (by simp [Value.plain, Value.content])
    (by simp [Value.plain, Value.content]) ((lacks_iff (by simp [Value.plain, Value.content])).mp h).2

theorem IsLegible.lacks_iff (hlegible : w.IsLegible v) :
    w.Lacks v f ↔ f = .overflow ∧ w.Oversized v := by
  constructor
  · intro h
    cases h with
    | oversized h => exact ⟨rfl, h⟩
    | @unwritten r hr hd =>
      have hdisplayable : w.displayable (w.boxes.get r).value = true :=
        ((hlegible.of_plain_box hr.box).part List.mem_cons_self).displayable
      exact absurd (hd.symm.trans hdisplayable) Bool.false_ne_true
  · rintro ⟨rfl, h⟩
    exact .oversized h

theorem IsLegible.exists_numberOf (hlegible : w.IsLegible v) (h : ¬ w.Oversized v) :
    ∃ x, w.numberOf v = .ok x :=
  World.exists_numberOf fun _ hf => h (hlegible.lacks_iff.mp hf).2

end World

/-- In the given cases the action ends in the fault of the host and leaves the world as it was, in any
other case it ends as stated. -/
def Settles {α : Type} (case : HostFault → Prop) (act : Action α) (w : World)
    (outcome : EStateM.Result Fault World α → Prop) : Prop :=
  (∀ f, case f → act w = .error (.host f) w) ∧ ((∀ f, ¬ case f) → outcome (act w))

def Answers {α : Type} (p : α → Prop) (w : World) (result : EStateM.Result Fault World α) : Prop :=
  ∃ a, p a ∧ result = .ok a w

def HostFault.Either (case later : HostFault → Prop) (f : HostFault) : Prop :=
  case f ∨ (∀ g, ¬ case g) ∧ later f

theorem HostFault.not_either_iff {case later : HostFault → Prop} :
    (∀ f, ¬ Either case later f) ↔ (∀ f, ¬ case f) ∧ ∀ f, ¬ later f := by
  constructor
  · intro h
    have hcase : ∀ f, ¬ case f := fun f hf => h f (.inl hf)
    exact ⟨hcase, fun f hf => h f (.inr ⟨hcase, hf⟩)⟩
  · rintro ⟨hcase, hlater⟩ f (hf | ⟨-, hf⟩)
    · exact hcase f hf
    · exact hlater f hf

section

variable {α β : Type} {case later : HostFault → Prop} {x : Action α} {f : α → Action β} {w : World}
  {p : α → Prop} {outcome : EStateM.Result Fault World β → Prop}

theorem Settles.bind (hx : Settles case x w (Answers p w))
    (hf : ∀ a, p a → Settles later (f a) w outcome) :
    Settles (HostFault.Either case later) (x >>= f) w outcome := by
  constructor
  · rintro e (he | ⟨hno, he⟩)
    · exact bind_apply_of_error _ (hx.1 e he)
    · obtain ⟨a, ha, hok⟩ := hx.2 hno
      rw [bind_apply_of_ok f hok]
      exact (hf a ha).1 e he
  · intro hno
    obtain ⟨hcase, hlater⟩ := HostFault.not_either_iff.mp hno
    obtain ⟨a, ha, hok⟩ := hx.2 hcase
    rw [bind_apply_of_ok f hok]
    exact (hf a ha).2 hlater

theorem Settles.next (hx : Settles case x w (Answers p w)) (hf : ∀ a, p a → outcome (f a w)) :
    Settles case (x >>= f) w outcome := by
  refine ⟨fun e he => bind_apply_of_error _ (hx.1 e he), fun hno => ?_⟩
  obtain ⟨a, ha, hok⟩ := hx.2 hno
  rw [bind_apply_of_ok f hok]
  exact hf a ha

end

section

variable {w : World} {v : Value}

theorem settles_numberOf (w : World) (v : Value) :
    Settles (w.Lacks v) (numberOf v) w (Answers (fun _ => True) w) := by
  constructor
  · intro f h
    rw [numberOf, numberOf_of_lacks h]
  · intro h
    obtain ⟨x, hx⟩ := exists_numberOf h
    refine ⟨x, True.intro, ?_⟩
    rw [numberOf, hx]

theorem World.oversized_int_iff {n : Nat} (hv : v.plain = .int n) :
    w.Oversized v ↔ Double.bound ≤ n := by
  constructor
  · intro h
    cases h with
    | int h =>
      obtain ⟨i, hi, hle⟩ := h
      rw [hv] at hi
      cases hi
      exact hle
    | text hs => rw [hv] at hs; cases hs
    | boxedInt hr => rw [hv] at hr; cases hr
    | boxedText hr => cases hv.symm.trans hr.box
  · intro h
    exact .int ⟨n, hv, h⟩

theorem World.lacks_int_iff {n : Nat} {f : HostFault} (hv : v.plain = .int n) :
    w.Lacks v f ↔ f = .overflow ∧ Double.bound ≤ n := by
  rw [lacks_iff fun r hr => Value.noConfusion (hv.symm.trans hr), oversized_int_iff hv]

theorem settles_numberOf_int {n : Nat} (hv : v.plain = .int n) :
    Settles (w.Lacks v) (numberOf v) w (Answers (· = Double.ofInt n) w) := by
  refine ⟨(settles_numberOf w v).1, fun h => ⟨_, rfl, ?_⟩⟩
  have hlt : n < Double.bound := Nat.lt_of_not_le fun hle => h _ ((lacks_int_iff hv).mpr ⟨rfl, hle⟩)
  have hnumber : w.numberOf v = .ok (Double.ofInt n) := by
    rw [World.numberOf, hv]
    exact Double.ofInt?_of_lt hlt
  rw [numberOf, hnumber]

end

theorem Double.asLength_ofInt_le (n : Nat) : (Double.ofInt n).asLength ≤ n := by
  rcases Nat.le_total n greatestLength with hn | hn
  · exact Nat.le_of_eq (Double.asLength_ofInt hn)
  · exact Nat.le_trans (Double.asLength_le _) hn

namespace Receiver

inductive IsArrayLike (w : World) : Value → Prop
  | record (r : Ref .record) : IsArrayLike w (.record r)
  | view {q : Ref .view} (hq : w.views.Has q) : IsArrayLike w (.view q)

def lengthEntry (w : World) : Value → Value
  | .record r => (w.records.get r).getD "length" (.int 0)
  | .view q => .int (w.shown q).length
  | _ => .undefined

def Readable (w : World) (this : Value) : Prop :=
  ∀ q, this = .view q → ∀ k < (w.shown q).length, View.Presentable w q k

variable {w : World} {this : Value}

theorem length_eq (h : w.Sound) (hthis : IsArrayLike w this) : length this w =
    (numberOf (lengthEntry w this) >>= fun x => (pure x.asLength : Action Nat)) w := by
  cases hthis with
  | record r => rw [length, get_bind_apply, lengthEntry]
  | @view q hq =>
    obtain ⟨x, hread, hcontent⟩ := View.read_length h hq
    have hplain : x.plain = Value.plain (.int (w.shown q).length) := by
      rw [Value.plain, hcontent]
      rfl
    have hnumber : numberOf x w = numberOf (lengthEntry w (.view q)) w := by
      rw [lengthEntry, numberOf, numberOf, World.numberOf, World.numberOf, hplain]
    have hlength : length (.view q) w =
        (numberOf x >>= fun x => (pure x.asLength : Action Nat)) w :=
      bind_apply_of_ok (fun v => numberOf v >>= fun x => (pure x.asLength : Action Nat)) hread
    rw [hlength]
    cases hx : numberOf (lengthEntry w (.view q)) w with
    | ok y u => rw [bind_apply_of_ok _ hx, bind_apply_of_ok _ (hnumber.trans hx)]
    | error f u => rw [bind_apply_of_error _ hx, bind_apply_of_error _ (hnumber.trans hx)]

theorem settles_length (h : w.Sound) (hthis : IsArrayLike w this) :
    Settles (w.Lacks (lengthEntry w this)) (length this) w
      (Answers (fun n => ∀ q, this = .view q → n ≤ (w.shown q).length) w) := by
  rw [Settles, length_eq h hthis, ← Settles]
  cases hthis with
  | record r => exact (settles_numberOf w _).next fun x _ => ⟨x.asLength, nofun, rfl⟩
  | @view q hq =>
    have hplain : (lengthEntry w (.view q)).plain = .int (w.shown q).length := rfl
    refine (settles_numberOf_int hplain).next ?_
    rintro _ rfl
    refine ⟨_, ?_, rfl⟩
    rintro _ ⟨⟩
    exact Double.asLength_ofInt_le _

theorem itemsAt_view (q : Ref .view) (earlier : List Value) (is : List Nat) :
    itemsAt (.view q) earlier is = View.elementsFrom q earlier (is.map fun k : Nat => .int k) := by
  induction is generalizing earlier with
  | nil => rfl
  | cons i is ih =>
    rw [itemsAt, List.map_cons, View.elementsFrom]
    simp only [ih]
    rfl

theorem itemsAt_record (r : Ref .record) (earlier : List Value) (is : List Nat) (w : World) :
    itemsAt (.record r) earlier is w =
      .ok (is.map fun i => (w.records.get r).getD (toString i) .undefined) w := by
  induction is generalizing earlier with
  | nil => rfl
  | cons i is ih =>
    have hx : holding earlier (item (.record r) i) w =
        .ok ((w.records.get r).getD (toString i) .undefined) w :=
      holding_of_ok (u := { w with inUse := earlier ++ w.inUse }) rfl
    rw [itemsAt, bind_apply_of_ok _ hx, bind_apply_of_ok _ (ih _)]
    rfl

theorem succeeds_itemsAt (h : w.Sound) (hthis : IsArrayLike w this) (hread : Readable w this)
    {is : List Nat} (his : ∀ q, this = .view q → ∀ k ∈ is, k < (w.shown q).length)
    (earlier : List Value) : Succeeds (itemsAt this earlier is) w := by
  cases hthis with
  | record r => exact ⟨_, w, itemsAt_record r earlier is w⟩
  | @view q hq =>
    rw [itemsAt_view]
    exact View.succeeds_elementsFrom h hq
      (fun k hk => ⟨his q rfl k hk, hread q rfl k (his q rfl k hk)⟩) earlier

end Receiver

theorem relativeIndex_le (n : Nat) (x : Double) : relativeIndex n x ≤ n := by
  cases x with
  | nan => exact Nat.zero_le n
  | infinite s => cases s <;> simp [relativeIndex]
  | finite s m _ =>
    simp only [relativeIndex]
    split
    · omega
    · exact Nat.min_le_right _ _

theorem settles_boundOf (w : World) (arg : Value) {n d : Nat} (hd : d ≤ n) :
    Settles (w.Lacks arg) (boundOf arg n d) w (Answers (· ≤ n) w) := by
  rw [boundOf.eq_def]
  split
  · exact ⟨fun f h => absurd h (not_lacks_undefined w f), fun _ => ⟨d, hd, rfl⟩⟩
  · exact (settles_numberOf w arg).next fun x _ => ⟨_, relativeIndex_le n x, rfl⟩

namespace ArrayMethod

variable {w : World} {this : Value}

theorem settles_runSlice (h : w.Sound) (hthis : Receiver.IsArrayLike w this) (prototype : Ref .record)
    (args : List Value) :
    Settles (HostFault.Either (w.Lacks (Receiver.lengthEntry w this))
        (HostFault.Either (w.Lacks (argument args 0)) (w.Lacks (argument args 1))))
      (runSlice prototype this args) w
      fun result => Receiver.Readable w this → ∃ r u, result = .ok (.record r) u := by
  rw [runSlice]
  refine (Receiver.settles_length h hthis).bind fun n hn => ?_
  refine (settles_boundOf w _ (Nat.zero_le n)).bind fun lo _ => ?_
  refine (settles_boundOf w _ (Nat.le_refl n)).next fun hi hhi hread => ?_
  -- the bounds lie below the length, so all slots that are read exist
  have his : ∀ q, this = .view q → ∀ k ∈ List.range' lo (hi - lo), k < (w.shown q).length := by
    intro q hq k hk
    have hle := hn q hq
    rw [List.mem_range'_1] at hk
    omega
  obtain ⟨xs, u, hxs⟩ := Receiver.succeeds_itemsAt h hthis hread his []
  obtain ⟨es, m, hmake, -⟩ := isNewArray_makeArray prototype xs u
  exact ⟨_, _, (bind_apply_of_ok _ hxs).trans hmake⟩

end ArrayMethod

namespace Search

variable {w : World} {kind : SearchKind} {test : SlotTest} {array : Ref .array}

def LacksStart (w : World) (args : List Value) (f : HostFault) : Prop :=
  ∃ v, args[1]? = some v ∧ w.Lacks (w.hostValue v) f

def FaultsOnSlot (w : World) (array : Ref .array) (test : SlotTest) (args : List Value)
    (f : HostFault) : Prop :=
  ∃ slot ∈ (w.operands (w.arrays.get array)).map w.resolve,
    passes w test (w.operand (w.hostValue (argument args 0))) slot = .error f

theorem not_lacksStart_of_none {args : List Value} {f : HostFault} (h : args[1]? = none) :
    ¬ LacksStart w args f := by
  rintro ⟨v, hv, -⟩
  cases h.symm.trans hv

theorem settles_start (w : World) (kind : SearchKind) (args : List Value) :
    Settles (LacksStart w args) (orFail (start w kind args)) w (Answers (fun _ => True) w) := by
  match args with
  | [] => exact ⟨fun _ h => absurd h (not_lacksStart_of_none rfl), fun _ => ⟨0, True.intro, rfl⟩⟩
  | [_] => exact ⟨fun _ h => absurd h (not_lacksStart_of_none rfl), fun _ => ⟨0, True.intro, rfl⟩⟩
  | u :: v :: rest =>
    constructor
    · rintro f ⟨_, ⟨⟩, h⟩
      have hstart : start w kind (u :: v :: rest) = .error f := by
        rw [start, World.intValue, numberOf_of_lacks h]
        rfl
      rw [hstart]
      rfl
    · intro h
      obtain ⟨x, hx⟩ := exists_numberOf fun f hv => h f ⟨v, rfl, hv⟩
      have hstart : ∃ s, start w kind (u :: v :: rest) = .ok s := by
        rw [start, World.intValue, hx]
        exact ⟨_, rfl⟩
      obtain ⟨s, hs⟩ := hstart
      rw [hs]
      exact ⟨s, True.intro, rfl⟩

theorem firstFrom_error {passes : Operand → Except HostFault Bool} {slots : List Operand} {i : Nat}
    {f : HostFault} (h : firstFrom passes i slots = .error f) :
    ∃ slot ∈ slots, passes slot = .error f := by
  induction slots generalizing i with
  | nil => cases h
  | cons slot rest ih =>
    rw [firstFrom] at h
    cases hp : passes slot with
    | error e =>
      rw [hp] at h
      cases h
      exact ⟨slot, List.mem_cons_self, hp⟩
    | ok b =>
      rw [hp] at h
      cases b with
      | true => cases h
      | false =>
        obtain ⟨other, hmem, hother⟩ := ih h
        exact ⟨other, List.mem_cons_of_mem slot hmem, hother⟩

def Ends (w : World) (array : Ref .array) (test : SlotTest) (args : List Value) {α : Type}
    (result : EStateM.Result Fault World α) : Prop :=
  ∀ e u, result = .error e u →
    e.isScriptFault = true ∨ ∃ f, e = .host f ∧ FaultsOnSlot w array test args f

theorem settles_scan (hs : (w.arrays.get array).shape ≠ []) (args : List Value) :
    Settles (LacksStart w args) (scan kind array test args) w (Ends w array test args) := by
  have hne : ¬ (w.arrays.get array).shape.isEmpty = true := by simpa using hs
  rw [scan, scanBy, Settles, get_bind_apply]
  cases args with
  | nil =>
    refine ⟨fun f hstart => absurd hstart (not_lacksStart_of_none rfl), fun _ => ?_⟩
    rintro e u ⟨⟩
    exact .inl rfl
  | cons v rest =>
    refine (settles_start w kind (v :: rest)).next fun s _ => ?_
    rw [if_neg hne]
    split
    · rintro e u ⟨⟩
      exact .inl rfl
    · intro e u he
      dsimp only at he
      cases hfirst : firstFrom (passes w test (w.operand (w.hostValue v))) s.toNat
        (((w.operands (w.arrays.get array)).drop s.toNat).map w.resolve) with
      | ok found =>
        rw [hfirst] at he
        cases found <;> cases he
      | error f =>
        rw [hfirst] at he
        cases he
        obtain ⟨slot, hmem, hslot⟩ := firstFrom_error hfirst
        rw [List.map_drop] at hmem
        exact .inr ⟨f, rfl, slot, List.mem_of_mem_drop hmem, hslot⟩

theorem settles_call (hkind : kind ≠ .bare) (hs : (w.arrays.get array).shape ≠ []) (args : List Value) :
    Settles (LacksStart w args) (call kind array test args) w (Ends w array test args) := by
  have hscan : Settles (LacksStart w args) (scan kind array test args) w _ := settles_scan hs args
  have hmap : ∀ g : Int → Value, Settles (LacksStart w args)
      (scan kind array test args >>= fun i => pure (g i)) w (Ends w array test args) := by
    intro g
    refine ⟨fun f h => bind_apply_of_error _ (hscan.1 f h), fun h e u he => ?_⟩
    cases hres : scan kind array test args w with
    | ok i w' =>
      rw [bind_apply_of_ok _ hres] at he
      cases he
    | error f w' =>
      rw [bind_apply_of_error _ hres] at he
      cases he
      exact hscan.2 h e u hres
  cases kind with
  | bare => exact absurd rfl hkind
  | indexOf => exact hmap .int
  | includes => exact hmap fun i => .bool (i != -1)

end Search

namespace View

variable {w : World} {r : Ref .view}

theorem exists_scalarsEqual {a b : Value} (hb : (comparable b).IsPrimitive) :
    ∃ holds, w.scalarsEqual a b = .ok holds := by
  rw [scalarsEqual]
  split
  case h_10 h | h_11 h | h_12 h =>
    rw [h] at hb
    exact hb.elim
  all_goals exact ⟨_, rfl⟩

theorem isPrimitive_comparable {v : Value} (h : v.IsPrimitive) : (comparable v).IsPrimitive := by
  rw [comparable, h.item]
  split
  · exact True.intro
  · exact h

theorem not_faultsOnSlot (h : w.Sound) (hr : w.views.Has r)
    (ho : (w.shown r).type.isObject = false) (hn : (w.shown r).rowShape = []) (args : List Value)
    (f : HostFault) : ¬ Search.FaultsOnSlot w (w.views.get r).array .equal args f := by
  rintro ⟨slot, hmem, hslot⟩
  rw [show w.arrays.get (w.views.get r).array = w.shown r from rfl, operands_eq, List.map_map] at hmem
  obtain ⟨m, hm, rfl⟩ := List.mem_map.mp hmem
  have hadmits := (accepts_cell h hr (List.mem_range.mp hm) hn).1
  have hprimitive : (comparable ((w.shown r).type.itemValue (w.cell (w.shown r) m))).IsPrimitive := by
    rw [comparable_itemValue ho hadmits]
    exact isPrimitive_comparable (isPrimitive_of_admits ho hadmits)
  rw [Function.comp_apply, resolve_slotOperand ho, slotOperand, hn] at hslot
  cases htarget : w.operand (w.hostValue (argument args 0)) with
  | window win =>
    rw [htarget] at hslot
    cases hslot
  | plain a =>
    obtain ⟨holds, hholds⟩ := exists_scalarsEqual (w := w) (a := a) hprimitive
    rw [htarget] at hslot
    cases hholds.symm.trans hslot

end View

section

variable {w : World} {prototype : Ref .record} {v : Value}

def arrayOfLength (prototype : Ref .record) (x : Double) : Action Value :=
  match x.arrayLength? with
  | some n => do
    return .record (← newRecord [(protoKey, .record prototype), ("length", .int n)])
  | none => fail .badArrayLength

theorem arrayOfLength_cases (prototype : Ref .record) (x : Double) (w : World) :
    arrayOfLength prototype x w = .error .badArrayLength w ∨
      ∃ r u, arrayOfLength prototype x w = .ok (.record r) u := by
  rw [arrayOfLength]
  cases x.arrayLength? with
  | none => exact .inl rfl
  | some n =>
    obtain ⟨es, m, hes, -⟩ := newRecord_spec [(protoKey, .record prototype), ("length", .int n)] w
    exact .inr ⟨_, _, bind_apply_of_ok _ hes⟩

theorem constructArray_number {x : Double} (h : v.plain = .number x) :
    constructArray prototype [v] = arrayOfLength prototype x := by
  rw [constructArray, h]
  rfl

theorem constructArray_int {i : Int} (h : v.plain = .int i) :
    constructArray prototype [v] = orFail (Double.ofInt? i) >>= arrayOfLength prototype := by
  rw [constructArray, h]
  rfl

theorem constructArray_item (hint : ∀ i, v.plain ≠ .int i) (hnumber : ∀ x, v.plain ≠ .number x) :
    constructArray prototype [v] = makeArray prototype [v] := by
  rw [constructArray]
  split
  · next i h => exact absurd h (hint i)
  · next x h => exact absurd h (hnumber x)
  · rfl

/-- The length that a script array is made with is all that may be too large. -/
theorem settles_constructArray (w : World) (prototype : Ref .record) (v : Value) :
    Settles (fun f => f = .overflow ∧ v.IsBeyond) (constructArray prototype [v]) w fun result =>
      result = .error .badArrayLength w ∨ ∃ r u, result = .ok (.record r) u := by
  by_cases hint : ∃ i, v.plain = .int i
  · obtain ⟨i, hi⟩ := hint
    rw [constructArray_int hi]
    constructor
    · rintro _ ⟨rfl, j, hj, hle⟩
      cases hi.symm.trans hj
      rw [Double.ofInt?_of_le hle]
      rfl
    · intro h
      rw [Double.ofInt?_of_lt (Nat.lt_of_not_le fun hle => h _ ⟨rfl, i, hi, hle⟩), orFail_bind_apply]
      exact arrayOfLength_cases prototype (Double.ofInt i) w
  · refine ⟨fun _ ⟨_, i, hi, _⟩ => absurd ⟨i, hi⟩ hint, fun _ => ?_⟩
    by_cases hnumber : ∃ x, v.plain = .number x
    · obtain ⟨x, hx⟩ := hnumber
      rw [constructArray_number hx]
      exact arrayOfLength_cases prototype x w
    · rw [constructArray_item (not_exists.mp hint) (not_exists.mp hnumber)]
      obtain ⟨es, n, hmake, -⟩ := isNewArray_makeArray prototype [v] w
      exact .inr ⟨_, _, hmake⟩

end

/-- Only oversized values and boxes without a text have no number, and whatever asks for the number of
another value gets it. A search may still fail on a slot that holds objects or rows, and a slice of a
view on a slot that cannot be presented. -/
structure SettlesNumbers (w : World) : Prop where
  number : ∀ v, Settles (w.Lacks v) (numberOf v) w (Answers (fun _ => True) w)
  legible : ∀ v f, w.IsLegible v → (w.Lacks v f ↔ f = .overflow ∧ w.Oversized v)
  length : ∀ r : Ref .record, Settles (w.Lacks ((w.records.get r).getD "length" (.int 0)))
    (Receiver.length (.record r)) w (Answers (· ≤ greatestLength) w)
  search : ∀ kind array test args, kind ≠ .bare → (w.arrays.get array).shape ≠ [] →
    Settles (Search.LacksStart w args) (Search.call kind array test args) w
      (Search.Ends w array test args)
  compare : ∀ r, w.views.Has r → (w.shown r).type.isObject = false → (w.shown r).rowShape = [] →
    ∀ args f, ¬ Search.FaultsOnSlot w (w.views.get r).array .equal args f
  slice : ∀ prototype this args, Receiver.IsArrayLike w this →
    Settles (HostFault.Either (w.Lacks (Receiver.lengthEntry w this))
        (HostFault.Either (w.Lacks (argument args 0)) (w.Lacks (argument args 1))))
      (ArrayMethod.runSlice prototype this args) w
      fun result => Receiver.Readable w this → ∃ r u, result = .ok (.record r) u
  construct : ∀ prototype v, Settles (fun f => f = .overflow ∧ v.IsBeyond)
    (constructArray prototype [v]) w fun result =>
      result = .error .badArrayLength w ∨ ∃ r u, result = .ok (.record r) u

theorem Reachable.settlesNumbers {w : World} (hw : Reachable w) : SettlesNumbers w where
  number := settles_numberOf w
  legible _ _ hv := hv.lacks_iff
  length _ := (settles_numberOf w _).next fun x _ => ⟨x.asLength, x.asLength_le, rfl⟩
  search _ _ _ args hkind hs := Search.settles_call hkind hs args
  compare _ hr ho hn := View.not_faultsOnSlot hw.sound hr ho hn
  slice prototype _ args hthis := ArrayMethod.settles_runSlice hw.sound hthis prototype args
  construct := settles_constructArray w

def trifles : World := World.empty.afterAll [
  .newPresenter .standard,
  .buildArray (.native (.int true 1)) [2] [.int 3, .int 4],
  .newView .null ⟨1⟩ ⟨0⟩ none false]

theorem reachable_trifles : Reachable trifles := by
  apply Reachable.start.afterAll
  simp [Operation.IsProper, CellType.native, Content.IsProper]

theorem readable_trifles : Receiver.Readable trifles (.view ⟨0⟩) := by
  rintro q ⟨⟩ k hk
  have hadmits := (View.accepts_cell reachable_trifles.sound (by decide) hk (by decide)).1
  have hscalar : (trifles.shown ⟨0⟩).type.content.IsScalar := True.intro
  exact .inr (presentable_itemValue hscalar hadmits _)

theorem not_lacks_trifles (f : HostFault) :
    ¬ trifles.Lacks (Receiver.lengthEntry trifles (.view ⟨0⟩)) f := by
  intro h
  have hle : Double.bound ≤ (trifles.shown ⟨0⟩).length := ((lacks_int_iff rfl).mp h).2
  have htwo : (trifles.shown ⟨0⟩).length < twoTo 8 := by decide
  exact Nat.not_le.mpr htwo (Nat.le_trans (Double.twoTo_le_bound (by decide)) hle)

/-- The view has no slice up to a bound that is too large, but it has one from its start on. -/
theorem Reachable.slice_end_overflows :
    ArrayMethod.runSlice ⟨0⟩ (.view ⟨0⟩) [.undefined, .int (twoTo 1024)] trifles =
        .error (.host .overflow) trifles ∧
      ∃ r u, ArrayMethod.runSlice ⟨0⟩ (.view ⟨0⟩) [] trifles = .ok (.record r) u := by
  have hslice := (Reachable.settlesNumbers reachable_trifles).slice ⟨0⟩ (.view ⟨0⟩)
  have hview : Receiver.IsArrayLike trifles (.view ⟨0⟩) := .view (by decide)
  constructor
  · have hlength : ∀ f, ¬ trifles.Lacks (Receiver.lengthEntry trifles (.view ⟨0⟩)) f :=
      not_lacks_trifles
    refine (hslice _ hview).1 _ (.inr ⟨hlength, .inr ⟨not_lacks_undefined trifles, ?_⟩⟩)
    exact (lacks_int_iff rfl).mpr ⟨rfl, Nat.sub_le _ _⟩
  · refine (hslice [] hview).2 ?_ readable_trifles
    rw [HostFault.not_either_iff, HostFault.not_either_iff]
    exact ⟨not_lacks_trifles, not_lacks_undefined trifles, not_lacks_undefined trifles⟩

end ScriptedArrays
