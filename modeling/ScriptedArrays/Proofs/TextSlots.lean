import ScriptedArrays.Proofs.SlotCopies

/-! Texts in slots. A text slot takes a text that it has room for, and a slot for bytes only one
whose characters have bytes. What it gives back is the text without the NULs at its end: a cell of
fixed width fills the room that a text leaves with NULs, and does not tell them from those of the
text. Any other text is refused and the slot keeps what it holds. -/

namespace ScriptedArrays

open World

def Content.IsText : Content → Prop
  | .text _ | .bytes _ => True
  | _ => False

/-- Cells of this kind have room for the text, and bytes for its characters. -/
def Content.TakesText : Content → String → Prop
  | .text n, s => s.length ≤ n
  | .bytes n, s => s.length ≤ n ∧ ∀ c ∈ s.toList, c.toNat < 256
  | _, _ => False

/-- The second text is the first one without the NULs at its end. -/
structure LosesNuls (s t : String) : Prop where
  nuls : ∃ k, s.toList = t.toList ++ List.replicate k '\x00'
  last : t.toList.getLast? ≠ some '\x00'

theorem LosesNuls.eq_self {s t : String} (h : LosesNuls s t) (hs : s.toList.getLast? ≠ some '\x00') :
    t = s := by
  obtain ⟨k, hk⟩ := h.nuls
  cases k with
  | zero =>
    rw [List.replicate_zero, List.append_nil] at hk
    exact String.toList_injective hk.symm
  | succ k =>
    rw [hk, List.replicate_succ', ← List.append_assoc, List.getLast?_concat] at hs
    exact absurd rfl hs

theorem losesNuls_dropNuls (s : String) : LosesNuls s (dropNuls s) := by
  let isNul : Char → Bool := fun c => c.toNat == 0
  have hdrop : ∀ cs : List Char, (∃ k, cs = cs.rdropWhile isNul ++ List.replicate k '\x00') ∧
      (cs.rdropWhile isNul).getLast? ≠ some '\x00' := by
    intro cs
    induction cs using List.reverseRecOn with
    | nil => exact ⟨⟨0, rfl⟩, nofun⟩
    | append_singleton cs c ih =>
      by_cases hc : c = '\x00'
      · obtain ⟨⟨k, hk⟩, hlast⟩ := ih
        rw [hc, List.rdropWhile_concat_pos isNul _ _ rfl]
        refine ⟨⟨k + 1, ?_⟩, hlast⟩
        rw [List.replicate_succ', ← List.append_assoc, ← hk]
      · have hne : ¬ isNul c = true := fun h =>
          hc (Char.toNat_inj.mp (by simpa [isNul] using h))
        rw [List.rdropWhile_concat_neg isNul _ _ hne, List.getLast?_concat]
        exact ⟨⟨0, by simp⟩, fun h => hc (Option.some.inj h)⟩
  constructor
  · rw [toList_dropNuls]
    exact (hdrop s.toList).1
  · rw [toList_dropNuls]
    exact (hdrop s.toList).2

theorem Latin.lt_of_encode? {s : String} {b : List UInt8} (h : encode? s = some b) :
    ∀ c ∈ s.toList, c.toNat < 256 := by
  rw [← decode_of_encode? h, decode, String.toList_ofList]
  intro c hc
  obtain ⟨x, -, rfl⟩ := List.mem_map.mp hc
  rw [toNat_decodeByte]
  exact x.toNat_lt

theorem dropNuls_decode (b : List UInt8) :
    dropNuls (Latin.decode b) = Latin.decode (dropNulBytes b) := by
  have hcut := CellType.cutText_decode b.length b
  rw [CellType.cutText_of_le (Nat.le_of_eq (Latin.length_decode b)), List.take_length] at hcut
  exact Value.text.inj hcut

theorem isWrapper_of_item {v x : Value} (hv : v.item = x) (hx : x.IsPrimitive) :
    v.isWrapper = false := by
  cases v with
  | view r =>
    subst hv
    exact hx.elim
  | box r =>
    subst hv
    exact hx.elim
  | _ => rfl

namespace CellType

variable {t : CellType} {c : Value} {s : String}

theorem comparable_stored (ho : t.isObject = false) (hc : comparable c = .text s) :
    (t.stored c).IsPrimitive ∧ comparable (t.stored c) = .text (dropNuls s) := by
  rw [stored, if_neg (by simp [ho])]
  rw [comparable] at hc
  split at hc
  · rename_i b hb
    cases hc
    rw [hb, dropNuls_decode]
    exact ⟨True.intro, rfl⟩
  · rw [hc]
    exact ⟨True.intro, rfl⟩

end CellType

namespace Conversion

variable {w : World} {truncates : Bool} {cell : CellType} {v : Value} {s : String}

theorem standsFor_of_text {c : Value} (hv : v.item = .text s) (hc : comparable c = .text s) :
    w.StandsFor v c := by
  rw [StandsFor, hostValue_eq_self (isWrapper_of_item hv True.intro), hc, comparable, hv]

/-- A text that the cell takes is converted as it is. -/
theorem toCell_of_takesText (truncates : Bool) (hv : v.item = .text s)
    (hs : cell.content.TakesText s) :
    ∃ z, toCell w truncates cell v = .ok z ∧ comparable z = .text s := by
  have hadmits : ∃ c, cell.content.IsScalar ∧ cell.content.Admits c ∧ cell.content.HasRoomFor c ∧
      cell.single c = c ∧ comparable c = .text s := by
    cases ht : cell.content with
    | text n =>
      rw [ht] at hs
      exact ⟨.text s, True.intro, ⟨s, rfl⟩, hs, rfl, rfl⟩
    | bytes n =>
      rw [ht] at hs
      obtain ⟨b, hb⟩ := Latin.encodeChars?_of_lt hs.2
      have hdecode : Latin.decode b = s := Latin.decode_of_encode? hb
      refine ⟨.bytes b, True.intro, ⟨b, rfl⟩, ?_, rfl, congrArg Value.text hdecode⟩
      rw [Content.HasRoomFor, ← Latin.length_decode, hdecode]
      exact hs.1
    | _ =>
      rw [ht] at hs
      exact hs.elim
  obtain ⟨c, hscalar, hadm, hroom, hsingle, hc⟩ := hadmits
  refine ⟨c, ?_, hc⟩
  rw [toCell_of_admits truncates hscalar hadm hroom (standsFor_of_text hv hc), hsingle]

/-- Any other text is refused, unless it may be cut. -/
theorem toCell_of_not_takesText (ht : cell.content.IsText) (hv : v.item = .text s)
    (hs : ¬ cell.content.TakesText s) : ∃ reason, toCell w false cell v = refuse v cell reason := by
  have htext : cellText w v (w.hostValue v).item cell = .ok s :=
    cellText_of_comparable (standsFor_of_text (w := w) hv (c := .text s) rfl)
  have hlong : ∀ n, ¬ s.length ≤ n → fitText false v cell n s =
      refuse v cell ("longer than " ++ toString n ++ " characters") := fun n hn => by
    rw [fitText, if_neg hn]
    rfl
  cases hc : cell.content with
  | text n =>
    rw [hc] at hs
    rw [toCell, hc]
    dsimp only
    rw [htext]
    show ∃ reason, (fitText false v cell n s >>= _) = refuse v cell reason
    rw [hlong n hs]
    exact ⟨_, rfl⟩
  | bytes n =>
    rw [hc] at hs
    rw [toCell, hc]
    dsimp only
    rw [htext]
    show ∃ reason, (fitText false v cell n s >>= _) = refuse v cell reason
    by_cases hn : s.length ≤ n
    · have hnone : Latin.encode? s = none := by
        rw [Option.eq_none_iff_forall_ne_some]
        intro b hb
        exact hs ⟨hn, Latin.lt_of_encode? hb⟩
      rw [fitText_of_le hn]
      dsimp only [bind, Except.bind]
      rw [hnone]
      exact ⟨_, rfl⟩
    · rw [hlong n hn]
      exact ⟨_, rfl⟩
  | _ =>
    rw [hc] at ht
    exact ht.elim

theorem toCells_of_isPrimitive {n : Nat} {shape : List Nat} (hv : (w.hostValue v).item.IsPrimitive) :
    toCells w truncates cell (n :: shape) (.plain v) =
      refuseRow (.plain v) ⟨cell, n :: shape⟩ "array expected" := by
  have hcontent : w.contentOf (.plain v) = .plain (w.hostValue v).item := by
    rw [World.contentOf]
    cases hx : (w.hostValue v).item with
    | array r =>
      rw [hx] at hv
      exact hv.elim
    | _ => rfl
  rw [toCells, hcontent]
  cases hx : (w.hostValue v).item with
  | list r | tuple r | record r =>
    rw [hx] at hv
    exact hv.elim
  | _ => rfl

end Conversion

theorem Presenter.present_text {w : World} {t : CellType} {c : Value} {s : String}
    (p : Ref .presenter) (scope : Value) (ho : t.isObject = false) (hp : c.IsPrimitive)
    (hc : comparable c = .text s) : ∃ y n, present p (t.itemValue c) scope w =
      .ok y { w with kept := n } ∧ y.content = .text s := by
  have hkeep : present p (t.itemValue c) scope w = keep (.text s) w := by
    rw [present_itemValue ho]
    cases c with
    | text s' =>
      cases hc
      rfl
    | bytes b =>
      cases hc
      rfl
    | _ => first | exact hp.elim | cases hc
  obtain ⟨y, n, hy, hcontent, -⟩ := keep_eq (.text s) w
  exact ⟨y, n, hkeep.trans hy, hcontent⟩

def SlotType.TakesText (slot : SlotType) (s : String) : Prop :=
  slot.shape = [] ∧ slot.cell.content.TakesText s

namespace World

variable {w : World} {v : Value}

theorem quotable_of_isPrimitive (hv : (w.hostValue v).item.IsPrimitive)
    (hw : Display.isWritten (w.hostValue v).item = true) : w.quotable v = true := by
  have hplain : ∀ {x : Value} (fuel : Nat) (path : List Value), x.item.IsPrimitive →
      Display.isWritten x.item = true → w.quotableFrom (fuel + 1) path x = true := by
    intro x fuel path hx hwritten
    have hself : Display.isWritten x = true := by
      refine Display.isWritten_iff.mpr fun i hi => Display.isWritten_iff.mp hwritten i ?_
      rw [Value.item, hi]
      rfl
    cases x with
    | list _ | tuple _ | record _ | array _ | box _ => exact hx.elim
    | _ => exact hself
  cases v with
  | box b => exact hplain (x := (w.boxes.get b).value) _ _ hv hw
  | view r => exact hv.elim
  | _ => exact hplain _ _ hv hw

theorem quotable_of_text {s : String} (hv : (w.hostValue v).item = .text s) : w.quotable v = true :=
  quotable_of_isPrimitive (hv ▸ True.intro) (hv ▸ rfl)

theorem quotable_of_int {i : Int} (hv : (w.hostValue v).item = .int i)
    (hi : i.natAbs < 10 ^ digitLimit) : w.quotable v = true :=
  quotable_of_isPrimitive (hv ▸ True.intro) (hv ▸ (Display.isWritten_of_int rfl).mpr hi)

end World

/-- A conversion is refused: the value does not fit the slot, and nothing but the log changes. -/
def World.Refuses (w : World) (truncates : Bool) (slot : SlotType) (v : Value) : Prop :=
  ∃ reason l, convert truncates slot v w =
    .error (.cannotConvert (w.quote v) slot.name reason) { w with log := l }

section Refuses

variable {w : World} {truncates : Bool} {slot : SlotType} {v : Value}

theorem refuses_of_toCell (hq : w.quotable v = true) (hn : slot.shape = [])
    (h : ∃ reason, Conversion.toCell w truncates slot.cell v =
      Conversion.refuse v slot.cell reason) : w.Refuses truncates slot v := by
  obtain ⟨reason, h⟩ := h
  have hplain : ¬ slot.isNested = true := by simp [SlotType.isNested, hn]
  rw [World.Refuses, SlotType.name_plain hn, convert_plain_refused hplain h]
  exact ⟨reason, refuseWith_plain hq _ _⟩

theorem fails_of_toCell (hq : w.quotable v = false) (hn : slot.shape = [])
    (h : ∃ reason, Conversion.toCell w truncates slot.cell v =
      Conversion.refuse v slot.cell reason) : convert truncates slot v w = .error (.host .value) w := by
  obtain ⟨reason, h⟩ := h
  have hplain : ¬ slot.isNested = true := by simp [SlotType.isNested, hn]
  rw [convert_plain_refused hplain h]
  exact refuseWith_plain_unwritten hq _ _

theorem refuses_of_isPrimitive (hq : w.quotable v = true) (hn : slot.isNested = true)
    (hv : (w.hostValue v).item.IsPrimitive) : w.Refuses truncates slot v := by
  obtain ⟨cell, shape⟩ := slot
  cases shape with
  | nil => cases hn
  | cons n shape =>
    rw [World.Refuses, convert_of_refused hn (Conversion.toCells_of_isPrimitive hv)]
    exact ⟨_, refuseWith_plain hq _ _⟩

theorem fails_of_isPrimitive (hq : w.quotable v = false) (hn : slot.isNested = true)
    (hv : (w.hostValue v).item.IsPrimitive) : convert truncates slot v w = .error (.host .value) w := by
  obtain ⟨cell, shape⟩ := slot
  cases shape with
  | nil => cases hn
  | cons n shape =>
    rw [convert_of_refused hn (Conversion.toCells_of_isPrimitive hv)]
    exact refuseWith_plain_unwritten hq _ _

theorem refuses_of_not_takesText {s : String} (ht : slot.cell.content.IsText) (hv : v.item = .text s)
    (hs : ¬ slot.TakesText s) : w.Refuses false slot v := by
  have hhost : (w.hostValue v).item = .text s := by
    rw [hostValue_eq_self (isWrapper_of_item hv True.intro), hv]
  have hq : w.quotable v = true := quotable_of_text hhost
  by_cases hn : slot.shape = []
  · exact refuses_of_toCell hq hn
      (Conversion.toCell_of_not_takesText ht hv fun htakes => hs ⟨hn, htakes⟩)
  · exact refuses_of_isPrimitive hq (by simpa [SlotType.isNested] using hn) (hhost ▸ True.intro)

end Refuses

namespace View

/-- A text write loses nothing but NULs at the end. A slot that takes the text gives it back
without them, and any other text is refused and changes nothing but the log. -/
theorem setIndex_text {w : World} (hw : Reachable w) {r : Ref .view} (hr : w.views.Has r)
    {i v : Value} {k : Nat} (hi : i.IsInteger k) (hk : k < (w.shown r).length)
    (ht : (w.shown r).type.content.IsText) (hcut : (w.views.get r).truncates = false) {s : String}
    (hv : v.item = .text s) :
    ((w.shown r).slotType.TakesText s → ∃ w' y u t, setIndex r i v w = .ok () w' ∧
      getIndex r i w' = .ok y u ∧ y.content = .text t ∧ LosesNuls s t) ∧
    (¬ (w.shown r).slotType.TakesText s → ∃ reason l, setIndex r i v w =
      .error (.cannotConvert (w.quote v) (w.shown r).slotType.name reason) { w with log := l }) := by
  have h : w.Sound := hw.sound
  have hscalar : (w.shown r).type.content.IsScalar := by
    cases hc : (w.shown r).type.content <;> rw [hc] at ht <;> first | exact ht | exact ht.elim
  have ho : (w.shown r).type.isObject = false := isObject_of_isScalar hscalar
  constructor
  · rintro ⟨hplain, htakes⟩
    obtain ⟨z, hz, htext⟩ := Conversion.toCell_of_takesText (w.views.get r).truncates hv htakes
    obtain ⟨w', hset, hwrites⟩ := setIndex_of_toCell h hr ho hi hk hplain hz
    rcases setIndex_atomic hw hr hi v with ⟨f, l, hf⟩ | ⟨k', hk', -, cells, u', hset', -, hwrites', hreads⟩
    · rw [hf] at hset
      cases hset
    · obtain rfl : k' = k := by exact_mod_cast hk'.symm
      rw [hset] at hset'
      cases hset'
      obtain ⟨c, hc, hget, -⟩ := hreads.plain hplain
      have hstored : c = (w.shown r).type.stored z := by
        have hcells := hwrites'.written.symm.trans hwrites.written
        rw [hc] at hcells
        exact List.head_eq_of_cons_eq hcells
      subst hstored
      obtain ⟨hprimitive, hcomparable⟩ := CellType.comparable_stored ho htext
      obtain ⟨y, m, hpresent, hy⟩ := Presenter.present_text (w := w') (w'.views.get r).presenter
        (w'.views.get r).scope ho hprimitive hcomparable
      exact ⟨w', y, _, dropNuls s, hset, hget.trans hpresent, hy, losesNuls_dropNuls s⟩
  · intro hno
    have hslot : (w.views.get r).slot = (w.shown r).slotType := h.slot r hr
    obtain ⟨reason, l, hrefused⟩ := refuses_of_not_takesText (w := w) ht hv hno
    refine ⟨reason, l, setIndex_refused h hr hi hk ?_⟩
    rw [hcut, hslot]
    exact hrefused

end View

def nameplates : World := World.empty.afterAll [
  .newPresenter .standard,
  .buildArray (.native (.text 3)) [2] [],
  .newView .null ⟨1⟩ ⟨0⟩ none false]

theorem reachable_nameplates : Reachable nameplates := by
  apply Reachable.start.afterAll
  simp [Operation.IsProper, CellType.native, Content.IsProper]

/-- A short name is read back as it was written, and a long one is refused. -/
theorem View.setIndex_text_fits_or_refused :
    (∃ w' y u, setIndex ⟨0⟩ (.int 1) (.text "elm") nameplates = .ok () w' ∧
      getIndex ⟨0⟩ (.int 1) w' = .ok y u ∧ y.content = .text "elm") ∧
    ∃ reason l, setIndex ⟨0⟩ (.int 1) (.text "alder") nameplates =
      .error (.cannotConvert (nameplates.quote (.text "alder"))
        (nameplates.shown ⟨0⟩).slotType.name reason) { nameplates with log := l } := by
  have hr : nameplates.views.Has ⟨0⟩ := by decide
  have hi : (Value.int 1).IsInteger (1 : Nat) := .inl rfl
  have hk : 1 < (nameplates.shown ⟨0⟩).length := by decide
  constructor
  · have hshort : (nameplates.shown ⟨0⟩).slotType.TakesText "elm" :=
      ⟨rfl, show "elm".length ≤ 3 by decide⟩
    obtain ⟨w', y, u, t, hset, hget, hy, ht⟩ :=
      (setIndex_text reachable_nameplates hr hi hk True.intro rfl (v := .text "elm") rfl).1 hshort
    rw [ht.eq_self (by decide)] at hy
    exact ⟨w', y, u, hset, hget, hy⟩
  · refine (setIndex_text reachable_nameplates hr hi hk True.intro rfl rfl).2 fun hlong => ?_
    exact absurd (show "alder".length ≤ 3 from hlong.2) (by decide)

/-- A text that ends in NUL is not read back as it was written. -/
theorem View.not_setIndex_text_exact : ¬ ∀ (w w' : World) (r : Ref .view) (i v : Value) (k : Nat)
    (s : String), Reachable w → w.views.Has r → i.IsInteger k → k < (w.shown r).length →
    (w.shown r).type.content.IsText → (w.views.get r).truncates = false → v.item = .text s →
    setIndex r i v w = .ok () w' → ∃ y u, getIndex r i w' = .ok y u ∧ y.content = .text s := by
  intro h
  obtain ⟨w', hset⟩ : ∃ w', setIndex ⟨0⟩ (.int 0) (.text "ab\x00") nameplates = .ok () w' := ⟨_, rfl⟩
  obtain ⟨y, u, hget, hy⟩ := h nameplates w' ⟨0⟩ (.int 0) (.text "ab\x00") 0 "ab\x00"
    reachable_nameplates (by decide) (.inl rfl) (by decide) True.intro rfl rfl hset
  obtain ⟨y', u', hget', hy'⟩ : ∃ y' u', getIndex ⟨0⟩ (.int 0) (nameplates.after
      (setIndex ⟨0⟩ (.int 0) (.text "ab\x00"))) = .ok y' u' ∧ y'.content = .text "ab" :=
    ⟨_, _, rfl, rfl⟩
  rw [after_of_ok hset, hget] at hget'
  cases hget'
  rw [hy] at hy'
  exact absurd (Value.text.inj hy') (by decide)

end ScriptedArrays
