import ScriptedArrays.Proofs.Listed
import ScriptedArrays.Proofs.WrittenTexts

/-! Casts of whole arrays. An array whose cells fit a type safely is cast as a whole, by rules of
the host, while the same elements in a list are converted one by one, by rules of the script.
Here is where the two agree. -/

namespace ScriptedArrays

open World

def World.CastsAlike (w : World) (truncates : Bool) (t d : CellType) (c : Value) : Prop :=
  ∃ x y, Conversion.castCell t d.content c = .ok x ∧
    Conversion.convertItem w truncates t d c = .ok y ∧ SameHeld d x y

def World.SameText (w : World) (truncates : Bool) (t d : CellType) (capacity : Nat) (c : Value) :
    Prop :=
  ∃ s, Conversion.fitText truncates (t.itemValue c) d capacity (w.textOf c) = .ok s ∧
    CellType.cutText capacity (Display.numberText t c) = CellType.cutText capacity s

/-- Which contents a safe cast treats as a conversion does. Truth values are no numbers to
scripts and have other texts, bytes beyond ASCII are refused by the host, and an object is
cast as it is, undefined or wrapped. -/
def World.CastRule (w : World) (truncates : Bool) (t d : CellType) (c : Value) : Prop :=
  match t.content, d.content with
  | .bool, .complex _ | .bool, .text _ | .bool, .bytes _ => False
  | .real _, .text n | .real _, .bytes n | .complex _, .text n | .complex _, .bytes n =>
    w.SameText truncates t d n c
  | .bytes _, .text _ => ∀ b, c = .bytes b → b.all (·.toNat < 128) = true
  | .object, .object =>
    (if (w.hostValue c).item = .undefined then .null else (w.hostValue c).opened).content = c.content
  | _, _ => True

section Cell

variable {w : World} {truncates : Bool} {t d : CellType} {c : Value}

theorem hostValue_itemValue (ho : t.isObject = false) :
    w.hostValue (t.itemValue c) = .scalar (t.ofItem c) c := by
  rw [CellType.itemValue, if_neg (by simp [ho])]
  rfl

theorem castsAlike_of_ok {x y : Value} (hx : Conversion.castCell t d.content c = .ok x)
    (hy : Conversion.toCell w truncates d (t.itemValue c) = .ok y)
    (h : SameHeld d x (d.stored y)) : w.CastsAlike truncates t d c := by
  refine ⟨x, d.stored y, hx, ?_, h⟩
  rw [Conversion.convertItem, hy]
  rfl

theorem not_castsAlike_of_error {f : Refusal}
    (hy : Conversion.toCell w truncates d (t.itemValue c) = .error f) :
    ¬ w.CastsAlike truncates t d c := by
  rintro ⟨x, y, -, h, -⟩
  rw [Conversion.convertItem, hy] at h
  cases h

theorem item_hostValue_itemValue (ho : t.isObject = false) :
    (w.hostValue (t.itemValue c)).item = c := by
  rw [hostValue_itemValue ho]
  rfl

theorem castsAlike_int {signed : Bool} {width : Nat} {n : Int} (ho : t.isObject = false)
    (hd : d.content = .int signed width) (hx : Conversion.castCell t d.content c = .ok (.int n))
    (hw : Conversion.wholeNumber w (t.itemValue c) c d = .ok n)
    (hn : Content.inRange signed width n = true) : w.CastsAlike truncates t d c := by
  rw [Content.inRange, decide_eq_true_eq] at hn
  have hy : Conversion.toCell w truncates d (t.itemValue c) =
      .ok (.scalar (.native d.content) (.int n)) := by
    rw [Conversion.toCell, hd]
    dsimp only
    rw [item_hostValue_itemValue ho, Conversion.toInteger, hw, hd]
    exact if_pos hn
  apply castsAlike_of_ok hx hy
  have hplain : ¬ d.isObject = true := by simp [CellType.isObject, hd]
  rw [CellType.stored, if_neg hplain]
  rfl

theorem castsAlike_real {p : Precision} {x : Double} (ho : t.isObject = false)
    (hd : d.content = .real p)
    (hx : Conversion.castCell t d.content c = .ok (.number (x.narrow p.format)))
    (hy : Conversion.toReal w (t.itemValue c) c d p =
      .ok (.scalar (.native d.content) (.number (x.narrow p.format)))) :
    w.CastsAlike truncates t d c := by
  refine castsAlike_of_ok hx (y := .scalar (.native d.content) (.number (x.narrow p.format))) ?_ ?_
  · rw [Conversion.toCell, hd]
    dsimp only
    rw [item_hostValue_itemValue ho, hy, hd]
  · have hplain : ¬ d.isObject = true := by simp [CellType.isObject, hd]
    rw [CellType.stored, if_neg hplain]
    rfl

theorem castsAlike_complex {p : Precision} (re im : Double) (ho : t.isObject = false)
    (hd : d.content = .complex p)
    (hx : Conversion.castCell t d.content c = .ok (.complex (re.narrow p.format) (im.narrow p.format)))
    (hy : Conversion.toComplex (t.itemValue c) c d p =
      .ok (.scalar (.native d.content) (.complex (re.narrow p.format) (im.narrow p.format)))) :
    w.CastsAlike truncates t d c := by
  refine castsAlike_of_ok hx
    (y := .scalar (.native d.content) (.complex (re.narrow p.format) (im.narrow p.format))) ?_ ?_
  · rw [Conversion.toCell, hd]
    dsimp only
    rw [item_hostValue_itemValue ho, hy, hd]
  · have hplain : ¬ d.isObject = true := by simp [CellType.isObject, hd]
    rw [CellType.stored, if_neg hplain]
    rfl

theorem castsAlike_object (ho : t.isObject = false) (hd : d.content = .object)
    (hc : c ≠ .undefined) : w.CastsAlike truncates t d c := by
  have hobject : d.isObject = true := by simp [CellType.isObject, hd]
  have hx : Conversion.castCell t d.content c = .ok c := by rw [hd]; rfl
  have hy : Conversion.toCell w truncates d (t.itemValue c) = .ok c := by
    rw [Conversion.toCell, hd]
    dsimp only
    rw [item_hostValue_itemValue ho, if_neg hc, hostValue_itemValue ho]
    rfl
  apply castsAlike_of_ok hx hy
  rw [CellType.stored, if_pos hobject]
  rfl

theorem castsAlike_object_iff (ht : t.content = .object) (hd : d.content = .object) :
    w.CastsAlike truncates t d c ↔ w.CastRule truncates t d c := by
  have htobject : t.isObject = true := by simp [CellType.isObject, ht]
  have hobject : d.isObject = true := by simp [CellType.isObject, hd]
  have hitem : t.itemValue c = c := by rw [CellType.itemValue, if_pos htobject]
  have hheld : ∀ v, d.held v = v := fun v => by simp [CellType.held, hd]
  have hx : Conversion.castCell t d.content c = .ok c := by rw [hd]; rfl
  have hy : Conversion.convertItem w truncates t d c = .ok
      (if (w.hostValue c).item = .undefined then .null else (w.hostValue c).opened) := by
    rw [Conversion.convertItem, hitem, Conversion.toCell, hd]
    show Except.ok (d.stored _) = _
    rw [CellType.stored, if_pos hobject]
  have hrule : w.CastRule truncates t d c ↔
      (if (w.hostValue c).item = .undefined then Value.null else (w.hostValue c).opened).content =
        c.content := by
    rw [World.CastRule, ht, hd]
  rw [hrule]
  constructor
  · rintro ⟨x, y, hx', hy', h⟩
    rw [hx] at hx'
    rw [hy] at hy'
    cases hx'
    cases hy'
    rw [SameHeld, hheld, hheld] at h
    exact h.symm
  · intro h
    refine ⟨c, _, hx, hy, ?_⟩
    rw [SameHeld, hheld, hheld]
    exact h.symm

theorem sameHeld_stored_text {n : Nat} {s v : String} (hd : d.content = .text n) (hv : v.length ≤ n) :
    SameHeld d (.text s) (d.stored (.text v)) ↔ CellType.cutText n s = CellType.cutText n v := by
  have hplain : ¬ d.isObject = true := by simp [CellType.isObject, hd]
  have hheld : ∀ z, d.held (.text z) = CellType.cutText n z := fun z => by simp [CellType.held, hd]
  have hstored : d.stored (.text v) = .text (dropNuls v) := by
    rw [CellType.stored, if_neg hplain]
    rfl
  rw [SameHeld, hstored, hheld, hheld, CellType.cutText_of_le (Nat.le_trans (length_dropNuls_le v) hv),
    dropNuls_dropNuls, CellType.cutText_of_le hv]
  exact Iff.rfl

theorem sameHeld_stored_bytes {n : Nat} {b z : List UInt8} (hd : d.content = .bytes n)
    (hz : z.length ≤ n) :
    SameHeld d (.bytes b) (d.stored (.bytes z)) ↔ CellType.cutBytes n b = CellType.cutBytes n z := by
  have hplain : ¬ d.isObject = true := by simp [CellType.isObject, hd]
  have hheld : ∀ z, d.held (.bytes z) = CellType.cutBytes n z := fun z => by simp [CellType.held, hd]
  have hstored : d.stored (.bytes z) = .bytes (dropNulBytes z) := by
    rw [CellType.stored, if_neg hplain]
    rfl
  rw [SameHeld, hstored, hheld, hheld,
    CellType.cutBytes_of_le (Nat.le_trans (length_dropNulBytes_le z) hz), dropNulBytes_dropNulBytes,
    CellType.cutBytes_of_le hz]
  exact Iff.rfl

theorem toCell_text {n : Nat} {u : String} (ho : t.isObject = false) (hd : d.content = .text n)
    (hu : Conversion.cellText w (t.itemValue c) c d = .ok u) :
    Conversion.toCell w truncates d (t.itemValue c) =
      (do .ok (.text (← Conversion.fitText truncates (t.itemValue c) d n u))) := by
  rw [Conversion.toCell, hd]
  dsimp only
  rw [item_hostValue_itemValue ho, hu]
  rfl

theorem castsAlike_text_iff {n : Nat} {u s : String} (ho : t.isObject = false)
    (hd : d.content = .text n) (hx : Conversion.castCell t d.content c = .ok (.text s))
    (hu : Conversion.cellText w (t.itemValue c) c d = .ok u) :
    w.CastsAlike truncates t d c ↔
      ∃ v, Conversion.fitText truncates (t.itemValue c) d n u = .ok v ∧
        CellType.cutText n s = CellType.cutText n v := by
  have hitem : Conversion.toCell w truncates d (t.itemValue c) =
      (do .ok (.text (← Conversion.fitText truncates (t.itemValue c) d n u))) := toCell_text ho hd hu
  constructor
  · rintro ⟨x, y, hx', hy, h⟩
    rw [hx] at hx'
    cases hx'
    rw [Conversion.convertItem, hitem] at hy
    cases hv : Conversion.fitText truncates (t.itemValue c) d n u with
    | error f =>
      rw [hv] at hy
      cases hy
    | ok v =>
      rw [hv] at hy
      cases hy
      exact ⟨v, rfl, (sameHeld_stored_text hd (Conversion.length_of_fitText hv)).mp h⟩
  · rintro ⟨v, hv, h⟩
    refine ⟨.text s, d.stored (.text v), hx, ?_, ?_⟩
    · rw [Conversion.convertItem, hitem, hv]
      rfl
    · exact (sameHeld_stored_text hd (Conversion.length_of_fitText hv)).mpr h

theorem isAscii_of_fitText {n : Nat} {g : Value} {u v : String} (ha : IsAscii u)
    (hv : Conversion.fitText truncates g d n u = .ok v) : IsAscii v := by
  simp only [Conversion.fitText] at hv
  split at hv
  · cases hv
    exact ha
  · split at hv
    · cases hv
      exact isAscii_take ha n
    · cases hv

section Bytes

variable {n : Nat} {u v : String}

theorem toCell_bytes (ho : t.isObject = false) (hd : d.content = .bytes n)
    (hu : Conversion.cellText w (t.itemValue c) c d = .ok u) :
    Conversion.toCell w truncates d (t.itemValue c) =
      (do match Latin.encode? (← Conversion.fitText truncates (t.itemValue c) d n u) with
        | some z => .ok (.bytes z)
        | none => Conversion.refuse (t.itemValue c) d "not representable as latin-1") := by
  rw [Conversion.toCell, hd]
  dsimp only
  rw [item_hostValue_itemValue ho, hu]
  rfl

theorem convertItem_bytes_error (ho : t.isObject = false) (hd : d.content = .bytes n)
    (hu : Conversion.cellText w (t.itemValue c) c d = .ok u) {f : Refusal}
    (hv : Conversion.fitText truncates (t.itemValue c) d n u = .error f) :
    Conversion.convertItem w truncates t d c = .error f := by
  rw [Conversion.convertItem, toCell_bytes ho hd hu, hv]
  rfl

theorem convertItem_bytes {z : List UInt8} (ho : t.isObject = false) (hd : d.content = .bytes n)
    (hu : Conversion.cellText w (t.itemValue c) c d = .ok u)
    (hv : Conversion.fitText truncates (t.itemValue c) d n u = .ok v)
    (hz : Latin.encode? v = some z) :
    Conversion.convertItem w truncates t d c = .ok (d.stored (.bytes z)) := by
  rw [Conversion.convertItem, toCell_bytes ho hd hu, hv]
  show (match Latin.encode? v with
    | some z => Except.ok (Value.bytes z)
    | none => Conversion.refuse (t.itemValue c) d "not representable as latin-1") >>= _ = _
  rw [hz]
  rfl

theorem cutBytes_eq_iff (n : Nat) (a b : List UInt8) :
    CellType.cutBytes n a = CellType.cutBytes n b ↔
      CellType.cutText n (Latin.decode a) = CellType.cutText n (Latin.decode b) := by
  rw [CellType.cutText_decode, CellType.cutText_decode, CellType.cutBytes, CellType.cutBytes]
  constructor
  · intro h
    rw [Value.bytes.inj h]
  · intro h
    rw [Latin.decode_injective (Value.text.inj h)]

theorem castsAlike_bytes_iff {s : String} {b : List UInt8} (ho : t.isObject = false)
    (hd : d.content = .bytes n) (hx : Conversion.castCell t d.content c = .ok (.bytes b))
    (hb : Latin.encode? s = some b) (hu : Conversion.cellText w (t.itemValue c) c d = .ok u)
    (ha : IsAscii u) :
    w.CastsAlike truncates t d c ↔
      ∃ v, Conversion.fitText truncates (t.itemValue c) d n u = .ok v ∧
        CellType.cutText n s = CellType.cutText n v := by
  have hencode : ∀ v, Conversion.fitText truncates (t.itemValue c) d n u = .ok v →
      ∃ z, Latin.encode? v = some z ∧ (SameHeld d (.bytes b) (d.stored (.bytes z)) ↔
        CellType.cutText n s = CellType.cutText n v) := by
    intro v hv
    obtain ⟨z, hz⟩ := Latin.encode?_of_isAscii (isAscii_of_fitText ha hv)
    have hdecode := Latin.decode_of_encode? hz
    have hlen : z.length ≤ n := by
      rw [← Latin.length_decode, hdecode]
      exact Conversion.length_of_fitText hv
    refine ⟨z, hz, ?_⟩
    rw [sameHeld_stored_bytes hd hlen, cutBytes_eq_iff, hdecode, Latin.decode_of_encode? hb]
  constructor
  · rintro ⟨x, y, hx', hy, h⟩
    rw [hx] at hx'
    cases hx'
    cases hv : Conversion.fitText truncates (t.itemValue c) d n u with
    | error f =>
      rw [convertItem_bytes_error ho hd hu hv] at hy
      cases hy
    | ok v =>
      obtain ⟨z, hz, hiff⟩ := hencode v hv
      rw [convertItem_bytes ho hd hu hv hz] at hy
      cases hy
      exact ⟨v, rfl, hiff.mp h⟩
  · rintro ⟨v, hv, h⟩
    obtain ⟨z, hz, hiff⟩ := hencode v hv
    exact ⟨.bytes b, d.stored (.bytes z), hx, convertItem_bytes ho hd hu hv hz, hiff.mpr h⟩

end Bytes

theorem fitText_of_le {n : Nat} {g : Value} {u : String} (h : u.length ≤ n) :
    Conversion.fitText truncates g d n u = .ok u := by
  rw [Conversion.fitText, if_pos h]

/-- Truth values have other texts in scripts. -/
theorem not_sameText_bool {n : Nat} (hn : 5 ≤ n) (b : Bool) :
    ¬ ∃ v, Conversion.fitText truncates (t.itemValue (.bool b)) d n (w.textOf (.bool b)) = .ok v ∧
      CellType.cutText n (Display.numberText t (.bool b)) = CellType.cutText n v := by
  have htext : w.textOf (.bool b) = if b then "true" else "false" := rfl
  have hnumber : Display.numberText t (.bool b) = if b then "True" else "False" := rfl
  rintro ⟨v, hv, h⟩
  rw [htext] at hv
  rw [hnumber] at h
  cases b with
  | true =>
    have hlen : (if true then "true" else "false" : String).length ≤ n := Nat.le_trans (by decide) hn
    have hlen' : (if true then "True" else "False" : String).length ≤ n := Nat.le_trans (by decide) hn
    rw [fitText_of_le hlen] at hv
    cases hv
    rw [CellType.cutText_of_le hlen, CellType.cutText_of_le hlen'] at h
    exact absurd (Value.text.inj h) (by decide)
  | false =>
    have hlen : (if false then "true" else "false" : String).length ≤ n := Nat.le_trans (by decide) hn
    have hlen' : (if false then "True" else "False" : String).length ≤ n :=
      Nat.le_trans (by decide) hn
    rw [fitText_of_le hlen] at hv
    cases hv
    rw [CellType.cutText_of_le hlen, CellType.cutText_of_le hlen'] at h
    exact absurd (Value.text.inj h) (by decide)

/-- A text cell of some type is at least as wide as the contents that are cast to it safely. -/
theorem le_capacity {n k : Nat} (hsafe : t.content.castsSafely d.content = true)
    (hd : d.content = .text n ∨ d.content = .bytes n) (hr : d.IsRegular)
    (hk : t.content.textWidth? = some k) : k ≤ n := by
  obtain ⟨ht0, hb0⟩ := CellType.ne_empty_of_regular hr
  have hn : n ≠ 0 := by
    rintro rfl
    rcases hd with hd | hd
    · exact ht0 hd
    · exact hb0 hd
  obtain ⟨n, rfl⟩ := Nat.exists_eq_succ_of_ne_zero hn
  cases ht : t.content with
  | text m =>
    rw [ht] at hsafe hk
    cases hk
    rcases hd with hd | hd
    · rw [hd] at hsafe
      simpa [Content.castsSafely] using hsafe
    · rw [hd] at hsafe
      simp [Content.castsSafely] at hsafe
  | bytes m =>
    rw [ht] at hsafe hk
    cases hk
    rcases hd with hd | hd
    · rw [hd] at hsafe
      simpa [Content.castsSafely, Content.textWidth?] using hsafe
    · rw [hd] at hsafe
      simpa [Content.castsSafely, Content.textWidth?] using hsafe
  | object | date _ | duration _ | raw _ =>
    rw [ht] at hk
    cases hk
  | bool | int _ _ | real _ | complex _ =>
    rw [ht] at hsafe hk
    rcases hd with hd | hd
    · rw [hd] at hsafe
      simpa [Content.castsSafely, hk] using hsafe
    · rw [hd] at hsafe
      simpa [Content.castsSafely, hk] using hsafe

/-- A number that is cast to text, or as its text to bytes, ends as its script text does exactly
if both texts are cut alike. -/
theorem castsAlike_number_iff {n : Nat} (ho : t.isObject = false)
    (hd : d.content = .text n ∨ d.content = .bytes n)
    (htext : ∀ n, Conversion.castCell t (.text n) c = .ok (.text (Display.numberText t c)))
    (hno : ∀ b, c ≠ .bytes b)
    (hu : Conversion.cellText w (t.itemValue c) c d = .ok (w.textOf c))
    (hn : IsAscii (Display.numberText t c)) (hs : IsAscii (w.textOf c)) :
    w.CastsAlike truncates t d c ↔ w.SameText truncates t d n c := by
  rcases hd with hd | hd
  · exact castsAlike_text_iff ho hd (by rw [hd]; exact htext n) hu
  · obtain ⟨b, hb⟩ := Latin.encode?_of_isAscii hn
    have hcast : Conversion.castCell t d.content c = .ok (.bytes b) := by
      rw [hd, Conversion.castCell, Latin.encodeAscii?_of_isAscii hn, hb]
      · exact fun z hz => hno z hz
    exact castsAlike_bytes_iff ho hd hcast hb hu hs

/-- The host writes numbers in ASCII. -/
theorem isAscii_numberText (ht : t.content.rank?.isSome = true) (hc : t.content.Admits c) :
    IsAscii (Display.numberText t c) := by
  cases hk : t.content with
  | bool =>
    rw [hk] at hc
    obtain ⟨b, rfl⟩ := hc
    cases b
    · exact (by decide : IsAscii "False")
    · exact (by decide : IsAscii "True")
  | int signed width =>
    rw [hk] at hc
    obtain ⟨i, rfl, -⟩ := hc
    exact isAscii_toString i
  | real p =>
    rw [hk] at hc
    obtain ⟨x, rfl, -⟩ := hc
    rw [Display.numberText, hk]
    exact NumberText.isAscii_render _ _ _
  | complex p =>
    rw [hk] at hc
    obtain ⟨x, y, rfl, -⟩ := hc
    rw [Display.numberText, hk]
    exact NumberText.isAscii_ofComplex _ _ _
  | _ =>
    rw [hk] at ht
    cases ht

theorem castsAlike_iff_of_bool (ht : t.content = .bool) (hr : d.IsRegular)
    (hsafe : t.content.castsSafely d.content = true) (hc : t.content.Admits c) :
    w.CastsAlike truncates t d c ↔ w.CastRule truncates t d c := by
  have ho : t.isObject = false := by simp [CellType.isObject, ht]
  have hwidth : t.content.textWidth? = some 5 := by rw [ht]; rfl
  have hascii := isAscii_numberText (by rw [ht]; rfl) hc
  rw [ht] at hc
  obtain ⟨b, rfl⟩ := hc
  have hscript : IsAscii (w.textOf (.bool b)) := by
    cases b
    · exact (by decide : IsAscii "false")
    · exact (by decide : IsAscii "true")
  have hnumber : ∀ n, d.content = .text n ∨ d.content = .bytes n → ¬ w.CastsAlike truncates t d (.bool b) := by
    intro n hd h
    rw [castsAlike_number_iff (c := .bool b) ho hd (fun _ => rfl) (fun _ => Value.noConfusion) rfl
      hascii hscript] at h
    exact not_sameText_bool (le_capacity hsafe hd hr hwidth) b h
  simp only [World.CastRule]
  cases hd : d.content with
  | bool =>
    simp only [ht]
    refine iff_of_true ?_ trivial
    refine castsAlike_of_ok (x := .bool b) (y := .bool b) (by rw [hd]; rfl) ?_ ?_
    · rw [Conversion.toCell, hd]
      dsimp only
      rw [item_hostValue_itemValue ho]
      rfl
    · have hplain : ¬ d.isObject = true := by simp [CellType.isObject, hd]
      rw [CellType.stored, if_neg hplain]
      rfl
  | int signed width =>
    simp only [ht]
    have hw : 0 < width := by
      have := hr.2
      rwa [hd] at this
    exact iff_of_true (castsAlike_int ho hd (by rw [hd]; rfl) rfl (Content.inRange_bit hw b)) trivial
  | real p =>
    simp only [ht]
    refine iff_of_true (castsAlike_real (x := Double.ofInt (if b then 1 else 0)) ho hd ?_ ?_) trivial
    · rw [hd]
      rfl
    · rfl
  | complex p =>
    simp only [ht]
    have hy : Conversion.toCell w truncates d (t.itemValue (.bool b)) =
        .error (.unfit (.plain (t.itemValue (.bool b))) d.name "not a number") := by
      rw [Conversion.toCell, hd]
      dsimp only
      rw [item_hostValue_itemValue ho]
      rfl
    exact iff_of_false (not_castsAlike_of_error hy) (fun h => h)
  | text n =>
    simp only [ht]
    exact iff_of_false (hnumber n (.inl hd)) (fun h => h)
  | bytes n =>
    simp only [ht]
    exact iff_of_false (hnumber n (.inr hd)) (fun h => h)
  | object =>
    simp only [ht]
    exact iff_of_true (castsAlike_object ho hd Value.noConfusion) trivial
  | _ =>
    rw [ht, hd] at hsafe
    cases hsafe

theorem cellText_int {given : Value} {i : Int} (h : i.natAbs < Double.bound) :
    Conversion.cellText w given (.int i) d = .ok (w.textOf (.int i)) := by
  have hwritten : w.hasText (.int i) = true :=
    (hasText_int rfl).mpr (Nat.lt_of_lt_of_le h Double.bound_le_pow)
  show Conversion.lift (w.textOf? (.int i)) = _
  rw [textOf?_of_hasText hwritten]
  rfl

theorem castsAlike_iff_of_int {signed : Bool} {width : Nat} (ht : t.content = .int signed width)
    (hu : t.content.IsUsual) (hr : d.IsRegular) (hsafe : t.content.castsSafely d.content = true)
    (hc : t.content.Admits c) :
    w.CastsAlike truncates t d c ↔ w.CastRule truncates t d c := by
  have ho : t.isObject = false := by simp [CellType.isObject, ht]
  rw [ht] at hc hu
  obtain ⟨i, rfl, hi⟩ := hc
  have hfinite := ofInt?_of_inRange hu hi
  have hnumber : ∀ n, d.content = .text n ∨ d.content = .bytes n → w.CastsAlike truncates t d (.int i) := by
    intro n hd
    obtain ⟨k, hk⟩ : ∃ k, t.content.textWidth? = some k := by
      rw [ht]
      rcases hu with rfl | rfl | rfl | rfl <;> cases signed <;> exact ⟨_, rfl⟩
    have hlen : (w.textOf (.int i)).length ≤ n := by
      refine Nat.le_trans (length_toString_le_textWidth hu hi ?_) (le_capacity hsafe hd hr hk)
      rw [← ht]
      exact hk
    have hwritten : Conversion.cellText w (t.itemValue (.int i)) (.int i) d = .ok (w.textOf (.int i)) :=
      cellText_int (natAbs_lt_of_inRange hu hi)
    rw [castsAlike_number_iff (c := .int i) ho hd (fun _ => rfl) (fun _ => Value.noConfusion) hwritten
      (isAscii_toString i) (isAscii_toString i)]
    exact ⟨_, fitText_of_le hlen, rfl⟩
  simp only [World.CastRule]
  cases hd : d.content with
  | int signed' width' =>
    simp only [ht]
    have hw : 0 < width := by
      rcases hu with rfl | rfl | rfl | rfl <;> decide
    rw [ht, hd] at hsafe
    exact iff_of_true (castsAlike_int ho hd (by rw [hd]; rfl) rfl
      (Content.inRange_of_castsSafely hw hsafe hi)) trivial
  | real p =>
    simp only [ht]
    refine iff_of_true (castsAlike_real (x := Double.ofInt i) ho hd ?_ ?_) trivial
    · rw [hd]
      rfl
    · show (Conversion.lift (Double.ofInt? i) >>= _) = _
      rw [hfinite]
      rfl
  | complex p =>
    simp only [ht]
    have hzero : Double.zero.narrow p.format = Double.zero := Double.narrow_zero p
    refine iff_of_true (castsAlike_complex (Double.ofInt i) .zero ho hd ?_ ?_) trivial
    · rw [hd, hzero]
      rfl
    · show (Conversion.lift (Double.ofInt? i) >>= _) = _
      rw [hfinite]
      rfl
  | text n =>
    simp only [ht]
    exact iff_of_true (hnumber n (.inl hd)) trivial
  | bytes n =>
    simp only [ht]
    exact iff_of_true (hnumber n (.inr hd)) trivial
  | object =>
    simp only [ht]
    exact iff_of_true (castsAlike_object ho hd Value.noConfusion) trivial
  | _ =>
    rw [ht, hd] at hsafe
    cases hsafe

theorem castsAlike_iff_of_real {q : Precision} (ht : t.content = .real q)
    (hsafe : t.content.castsSafely d.content = true) (hc : t.content.Admits c) :
    w.CastsAlike truncates t d c ↔ w.CastRule truncates t d c := by
  have ho : t.isObject = false := by simp [CellType.isObject, ht]
  have hascii := isAscii_numberText (by rw [ht]; rfl) hc
  rw [ht] at hc
  obtain ⟨x, rfl, -⟩ := hc
  have hscript : IsAscii (w.textOf (.number x)) := by
    show IsAscii (x.scriptText (NumberText.ofDouble x))
    cases x with
    | nan => exact (by decide : IsAscii "NaN")
    | infinite s => exact isAscii_ite (by decide) (by decide)
    | finite s n hn => exact isAscii_ite (isAscii_toString _) (NumberText.isAscii_render _ _ _)
  simp only [World.CastRule]
  cases hd : d.content with
  | real p =>
    simp only [ht]
    exact iff_of_true (castsAlike_real (x := x) ho hd (by rw [hd]; rfl) rfl) trivial
  | complex p =>
    simp only [ht]
    have hzero : Double.zero.narrow p.format = Double.zero := Double.narrow_zero p
    refine iff_of_true (castsAlike_complex x .zero ho hd ?_ rfl) trivial
    rw [hd, hzero]
    rfl
  | text n =>
    simp only [ht]
    exact castsAlike_number_iff ho (.inl hd) (fun _ => rfl) (fun _ => Value.noConfusion) rfl hascii
      hscript
  | bytes n =>
    simp only [ht]
    exact castsAlike_number_iff ho (.inr hd) (fun _ => rfl) (fun _ => Value.noConfusion) rfl hascii
      hscript
  | object =>
    simp only [ht]
    exact iff_of_true (castsAlike_object ho hd Value.noConfusion) trivial
  | _ =>
    rw [ht, hd] at hsafe
    cases hsafe

theorem castsAlike_iff_of_complex {q : Precision} (ht : t.content = .complex q)
    (hsafe : t.content.castsSafely d.content = true) (hc : t.content.Admits c) :
    w.CastsAlike truncates t d c ↔ w.CastRule truncates t d c := by
  have ho : t.isObject = false := by simp [CellType.isObject, ht]
  have hascii := isAscii_numberText (by rw [ht]; rfl) hc
  rw [ht] at hc
  obtain ⟨x, y, rfl, -⟩ := hc
  have hscript : IsAscii (w.textOf (.complex x y)) := NumberText.isAscii_ofComplex .double x y
  simp only [World.CastRule]
  cases hd : d.content with
  | complex p =>
    simp only [ht]
    exact iff_of_true (castsAlike_complex x y ho hd (by rw [hd]; rfl) rfl) trivial
  | text n =>
    simp only [ht]
    exact castsAlike_number_iff ho (.inl hd) (fun _ => rfl) (fun _ => Value.noConfusion) rfl hascii
      hscript
  | bytes n =>
    simp only [ht]
    exact castsAlike_number_iff ho (.inr hd) (fun _ => rfl) (fun _ => Value.noConfusion) rfl hascii
      hscript
  | object =>
    simp only [ht]
    exact iff_of_true (castsAlike_object ho hd Value.noConfusion) trivial
  | _ =>
    rw [ht, hd] at hsafe
    cases hsafe

theorem castsAlike_iff_of_text {m : Nat} (ht : t.content = .text m) (hr : d.IsRegular)
    (hsafe : t.content.castsSafely d.content = true) (hc : t.Accepts c) :
    w.CastsAlike truncates t d c ↔ w.CastRule truncates t d c := by
  have ho : t.isObject = false := by simp [CellType.isObject, ht]
  obtain ⟨hadmits, hheld⟩ := hc
  rw [ht] at hadmits
  obtain ⟨s, rfl⟩ := hadmits
  have hlen := CellType.length_of_held_text ht hheld
  simp only [World.CastRule]
  cases hd : d.content with
  | text n =>
    simp only [ht]
    refine iff_of_true ((castsAlike_text_iff ho hd (by rw [hd]; rfl) rfl).mpr ?_) trivial
    have hmn := le_capacity hsafe (.inl hd) hr (show t.content.textWidth? = some m by rw [ht]; rfl)
    exact ⟨s, fitText_of_le (Nat.le_trans hlen hmn), rfl⟩
  | object =>
    simp only [ht]
    exact iff_of_true (castsAlike_object ho hd Value.noConfusion) trivial
  | bytes n =>
    rw [ht, hd] at hsafe
    simp [Content.castsSafely] at hsafe
  | _ =>
    rw [ht, hd] at hsafe
    cases hsafe

theorem castsAlike_iff_of_bytes {m : Nat} (ht : t.content = .bytes m) (hr : d.IsRegular)
    (hsafe : t.content.castsSafely d.content = true) (hc : t.Accepts c) :
    w.CastsAlike truncates t d c ↔ w.CastRule truncates t d c := by
  have ho : t.isObject = false := by simp [CellType.isObject, ht]
  have hwidth : t.content.textWidth? = some m := by rw [ht]; rfl
  obtain ⟨hadmits, hheld⟩ := hc
  rw [ht] at hadmits
  obtain ⟨b, rfl⟩ := hadmits
  have hlen := CellType.length_of_held_bytes ht hheld
  have hfits : ∀ n, d.content = .text n ∨ d.content = .bytes n →
      Conversion.fitText truncates (t.itemValue (.bytes b)) d n (Latin.decode b) =
        .ok (Latin.decode b) := by
    intro n hd
    apply fitText_of_le
    rw [Latin.length_decode]
    exact Nat.le_trans hlen (le_capacity hsafe hd hr hwidth)
  simp only [World.CastRule]
  cases hd : d.content with
  | text n =>
    simp only [ht]
    by_cases ha : b.all (·.toNat < 128) = true
    · refine iff_of_true ?_ (fun z hz => Value.bytes.inj hz ▸ ha)
      have hx : Conversion.castCell t d.content (.bytes b) = .ok (.text (Latin.decode b)) := by
        rw [hd, Conversion.castCell, if_pos ha]
      exact (castsAlike_text_iff ho hd hx rfl).mpr ⟨_, hfits n (.inl hd), rfl⟩
    · refine iff_of_false ?_ (fun h => ha (h b rfl))
      rintro ⟨x, y, hx, -⟩
      rw [hd, Conversion.castCell, if_neg ha] at hx
      cases hx
  | bytes n =>
    simp only [ht]
    refine iff_of_true ?_ trivial
    have hitem : Conversion.convertItem w truncates t d (.bytes b) = _ :=
      convertItem_bytes ho hd rfl (hfits n (.inr hd)) (Latin.encode?_decode b)
    refine ⟨.bytes b, _, by rw [hd]; rfl, hitem, ?_⟩
    have hmn := le_capacity hsafe (.inr hd) hr hwidth
    exact (sameHeld_stored_bytes hd (Nat.le_trans hlen hmn)).mpr rfl
  | object =>
    simp only [ht]
    exact iff_of_true (castsAlike_object ho hd Value.noConfusion) trivial
  | _ =>
    rw [ht, hd] at hsafe
    cases hsafe

/-- A safe cast treats a cell as a conversion does exactly by the rule. -/
theorem castsAlike_iff (hu : t.content.IsUsual) (hr : d.IsRegular)
    (hsafe : t.content.castsSafely d.content = true) (hc : t.Accepts c) :
    w.CastsAlike truncates t d c ↔ w.CastRule truncates t d c := by
  cases ht : t.content with
  | bool => exact castsAlike_iff_of_bool ht hr hsafe hc.1
  | int signed width => exact castsAlike_iff_of_int ht hu hr hsafe hc.1
  | real q => exact castsAlike_iff_of_real ht hsafe hc.1
  | complex q => exact castsAlike_iff_of_complex ht hsafe hc.1
  | text m => exact castsAlike_iff_of_text ht hr hsafe hc
  | bytes m => exact castsAlike_iff_of_bytes ht hr hsafe hc
  | object =>
    have hd : d.content = .object := by
      rw [ht] at hsafe
      cases hd : d.content with
      | object => rfl
      | text n =>
        rw [hd] at hsafe
        simp [Content.castsSafely, Content.textWidth?] at hsafe
      | bytes n =>
        rw [hd] at hsafe
        simp [Content.castsSafely, Content.textWidth?] at hsafe
      | _ =>
        rw [hd] at hsafe
        cases hsafe
    exact castsAlike_object_iff ht hd
  | _ =>
    rw [ht] at hu
    exact hu.elim

theorem isBytes_of_admits {n : Nat} {b : List UInt8}
    (hsafe : t.content.castsSafely (.text n) = true) (hc : t.content.Admits (.bytes b)) :
    ∃ m, t.content = .bytes m := by
  cases hk : t.content with
  | bytes m => exact ⟨m, rfl⟩
  | object | date _ | duration _ | raw _ =>
    rw [hk] at hsafe
    simp [Content.castsSafely, Content.textWidth?] at hsafe
  | bool | int _ _ | real _ | complex _ | text _ =>
    rw [hk] at hc
    simp [Content.Admits] at hc

/-- The only cells that a safe cast refuses are bytes beyond ASCII, cast to text. -/
theorem castCell_error (hsafe : t.content.castsSafely d.content = true)
    (hc : t.content.Admits c) {f : HostFault} (h : Conversion.castCell t d.content c = .error f) :
    ∃ m n b, t.content = .bytes m ∧ d.content = .text n ∧ c = .bytes b ∧
      b.all (·.toNat < 128) = false := by
  simp only [Conversion.castCell] at h
  split at h
  · cases h
  · cases h
  · cases h
  · split at h
    · cases h
    · cases h
  · cases h
  · rename_i n b hd
    split at h
    · cases h
    · rename_i ha
      obtain ⟨m, hm⟩ := isBytes_of_admits (hd ▸ hsafe) hc
      exact ⟨m, n, b, hm, hd, rfl, by simpa using ha⟩
  · cases h
  · cases h
  · rename_i n v hd hno
    split at h
    · cases h
    · rename_i hnone
      have hascii : t.content.rank?.isSome = true → False := by
        intro hrank
        have ha := isAscii_numberText hrank hc
        obtain ⟨z, hz⟩ := Latin.encode?_of_isAscii ha
        rw [Latin.encodeAscii?_of_isAscii ha, hz] at hnone
        cases hnone
      cases hk : t.content with
      | bytes m =>
        rw [hk] at hc
        obtain ⟨b, rfl⟩ := hc
        exact absurd rfl (hno b)
      | object | text _ | date _ | duration _ | raw _ =>
        rw [hk, hd] at hsafe
        simp [Content.castsSafely, Content.textWidth?] at hsafe
      | int signed width => cases signed <;> exact (hascii (by rw [hk]; rfl)).elim
      | bool | real _ | complex _ => exact (hascii (by rw [hk]; rfl)).elim
  · cases h

end Cell

end ScriptedArrays
