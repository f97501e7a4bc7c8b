import ScriptedArrays.Proofs.Instances

/-! Converted values. What a conversion gives for a slot is converted to itself. It is an instance
of the type of the slot and fits it, with one exception: the texts of a row whose slot leaves their
size to each array are held in an array of another type, which has room for longer texts. -/

namespace ScriptedArrays

open World

section Cell

variable {w u : World} {slot : SlotType} {v x : Value} {truncates : Bool}

theorem CellType.content_single {t : CellType} {c : Value} (h : c.IsPrimitive) :
    (t.single c).content = t.single c := by
  rcases CellType.single_cases t c with hc | hc <;> rw [hc]
  · exact h.content
  · rfl

theorem CellType.isWrapper_single {t : CellType} {c : Value} (h : c.IsPrimitive) :
    (t.single c).isWrapper = false := by
  rcases CellType.single_cases t c with hc | hc <;> rw [hc]
  · exact h.isWrapper
  · rfl

theorem content_sameText (hx : x.content = x) : (w.sameText v x).content = x := by
  unfold World.sameText
  dsimp only
  split
  · exact hx
  · exact hx
  · split
    · assumption
    · exact hx
  · exact hx

theorem sameText_sameText (hx : x.content = x) (hw : (w.sameText v x).isWrapper = false) :
    u.sameText (w.sameText v x) x = w.sameText v x := by
  cases x with
  | text s =>
    have hcontent : (w.sameText v (.text s)).content = .text s := content_sameText rfl
    generalize w.sameText v (.text s) = y at hw hcontent ⊢
    have htext : u.textValue y = y := by rw [World.textValue, hcontent]
    unfold World.sameText
    simp only [hostValue_eq_self hw, hcontent, htext, if_true]
  | _ => rfl

/-- A content as a conversion gives it is an instance of the type of its cell. -/
theorem isInstance_of_single (hn : ¬ slot.isNested = true) (hs : slot.cell.content.IsScalar)
    {c : Value} (hc : slot.cell.content.Admits c) (hx : x.content = slot.cell.single c) :
    w.isInstance slot x = true := by
  have hfamily : ∀ y, slot.cell.isFamilyOf (.scalar (.native slot.cell.content) y) = true :=
    fun _ => beq_self_eq_true slot.cell.content.family
  unfold World.isInstance
  rw [if_neg hn, hx]
  cases ht : slot.cell.content with
  | bool =>
    obtain ⟨b, rfl⟩ := ht ▸ hc
    rfl
  | int signed width =>
    obtain ⟨n, rfl, -⟩ := ht ▸ hc
    exact hfamily (.int n)
  | real p =>
    obtain ⟨y, rfl, -⟩ := ht ▸ hc
    exact hfamily (.number y)
  | complex p =>
    obtain ⟨re, im, rfl, -⟩ := ht ▸ hc
    exact hfamily (.complex re im)
  | text n =>
    obtain ⟨s, rfl⟩ := ht ▸ hc
    rfl
  | bytes n =>
    obtain ⟨b, rfl⟩ := ht ▸ hc
    rfl
  | _ =>
    rw [ht] at hs
    exact hs.elim

end Cell

def World.contentsOf (w : World) : Value → List Value
  | .array r => w.cells (w.arrays.get r)
  | v => [v.item]

/-- A converted value suits its slot if it is an instance of the type of the slot and none of its
texts is longer than that type says. -/
structure World.Suits (w : World) (slot : SlotType) (x : Value) : Prop where
  isInstance : w.isInstance slot x = true
  hasRoom : ∀ c ∈ w.contentsOf x, slot.cell.content.HasRoomFor c

section Convert

variable {w u : World} {slot : SlotType} {v x : Value} {truncates : Bool}

theorem contentsOf_of_isPrimitive (h : x.item.IsPrimitive) : w.contentsOf x = [x.item] := by
  cases x with
  | array r => exact h.elim
  | _ => rfl

theorem suits_plain (hn : slot.isNested = false) (ho : slot.cell.isObject = false)
    (hx : convert truncates slot v w = .ok x u) :
    u.Suits slot x ∧ ∀ truncates', convert truncates' slot x u = .ok x u := by
  have hn' : ¬ slot.isNested = true := by simp [hn]
  obtain ⟨rfl, z, hz, rfl⟩ := (convert_plain_ok_iff hn' ho).mp hx
  obtain ⟨hadmits, hroom, hsingle⟩ := Conversion.single_of_toCell ho hz
  have hs : slot.cell.content.IsScalar := Conversion.isScalar_of_toCell hz ho
  have hprimitive : z.item.IsPrimitive := isPrimitive_of_admits ho hadmits
  have hz' : z.content = z := hsingle ▸ CellType.content_single hprimitive
  have hcontent : (u.sameText v z).content = z := content_sameText hz'
  have hwrapper : (u.sameText v z).isWrapper = false := by
    apply Value.isWrapper_of_content
    rw [hcontent, hsingle]
    exact CellType.isWrapper_single hprimitive
  have hitem : (u.sameText v z).item = z.item := item_sameText z
  rw [← hitem] at hadmits hroom hsingle hprimitive
  refine ⟨⟨?_, fun c hc => ?_⟩, fun truncates' => ?_⟩
  · exact isInstance_of_single hn' hs hadmits (hcontent.trans hsingle)
  · rw [contentsOf_of_isPrimitive hprimitive] at hc
    rwa [List.mem_singleton.mp hc]
  · have hstands : u.StandsFor (u.sameText v z) (u.sameText v z).item :=
      standsFor_item hwrapper hprimitive
    have hcell := Conversion.toCell_of_admits truncates' hs hadmits hroom hstands
    rw [← hsingle] at hcell
    exact (convert_plain_ok_iff hn' ho).mpr ⟨rfl, z, hcell, sameText_sameText hz' hwrapper⟩

theorem rowType_array {a : Ref .array} (hu : u.Sound)
    (ht : (u.arrays.get a).type = w.rowType slot v) :
    u.rowType slot (.array a) = (u.arrays.get a).type := by
  have hitem : (u.hostValue (.array a)).item = .array a := rfl
  rcases rowType_cases w slot v with h | ⟨hc, n, h⟩ | ⟨hc, n, h⟩
  · have hregular : slot.cell.IsRegular := h ▸ ht ▸ hu.regular a
    rw [rowType_of_regular hregular, ht, h]
  · have hwidth : (u.arrays.get a).type.content.textWidth? = some n := by rw [ht, h]; rfl
    simp only [World.rowType, hitem, hc, hwidth]
    rw [ht, h]
  · have hwidth : (u.arrays.get a).type.content.textWidth? = some n := by rw [ht, h]; rfl
    simp only [World.rowType, hitem, hc, hwidth]
    rw [ht, h]

/-- No array has a type that gives texts no size, so a row suits no slot of such a type. -/
theorem suits_nested (hw : w.Sound) (hn : slot.isNested = true)
    (hp : slot.cell.content.IsProper) (hx : convert truncates slot v w = .ok x u) :
    (u.Suits slot x ↔ slot.cell.IsRegular) ∧
      ∀ truncates', convert truncates' slot x u = .ok x u := by
  cases hc : Conversion.toCells w truncates slot.cell slot.shape (.plain v) with
  | error e =>
    obtain ⟨f, u', hf⟩ := convert_fails hn hc
    rw [hf] at hx
    cases hx
  | ok cells =>
    obtain ⟨a, u', hu', htype, hshape, -⟩ := convert_of_proper hw hn hp hc
    rw [hu'] at hx
    cases hx
    have hu : u.Sound := (convert_ok hw hp hu').1
    refine ⟨⟨fun hsuits => ?_, fun hr => ?_⟩, fun truncates' => ?_⟩
    · obtain ⟨b, hb, -, hsame⟩ := (isInstance_nested_iff hn).mp hsuits.isInstance
      cases hb
      exact hsame ▸ hu.regular a
    · have hsame : (u.arrays.get a).type = slot.cell := htype.trans (rowType_of_regular hr v)
      refine ⟨(isInstance_nested_iff hn).mpr ⟨a, rfl, hshape, hsame⟩, fun c hmem => ?_⟩
      have hwithin : u.Within (u.arrays.get a) := (hu.shows a).within
      have haccepts : slot.cell.Accepts c := hsame ▸ hwithin.accepts_cells hu c hmem
      exact CellType.hasRoomFor_of_accepts haccepts
    · exact convert_array hu hn (rowType_array hu htype).symm hshape

end Convert

/-- What a conversion gives is converted to itself under all settings. It suits the slot, unless it
is a row of texts whose slot leaves their size to each array. -/
theorem convert_converted {w u : World} (hw : Reachable w) {truncates : Bool} {slot : SlotType}
    {v x : Value} (ho : slot.cell.isObject = false) (hp : slot.cell.content.IsProper)
    (hx : convert truncates slot v w = .ok x u) :
    (u.Suits slot x ↔ slot.isNested = false ∨ slot.cell.IsRegular) ∧
      ∀ truncates', convert truncates' slot x u = .ok x u := by
  cases hn : slot.isNested with
  | true =>
    rw [or_iff_right Bool.noConfusion]
    exact suits_nested hw.sound hn hp hx
  | false =>
    obtain ⟨hsuits, hagain⟩ := suits_plain hn ho hx
    exact ⟨iff_of_true hsuits (.inl rfl), hagain⟩

/-- A text suits the slot for which it was converted. An array is converted to texts, which do not
suit a slot that gives texts no size, but are converted to themselves. -/
theorem convert_to_empty_field :
    (∃ x u, convert false ⟨.native (.text 3), []⟩ (.text "oak") flags = .ok x u ∧
      u.Suits ⟨.native (.text 3), []⟩ x) ∧
    ∃ x u, convert false ⟨.native (.text 0), [1]⟩ (.array ⟨1⟩) flags = .ok x u ∧
      ¬ u.Suits ⟨.native (.text 0), [1]⟩ x ∧
      convert false ⟨.native (.text 0), [1]⟩ x u = .ok x u := by
  constructor
  · obtain ⟨x, u, hx⟩ : ∃ x u,
        convert false ⟨.native (.text 3), []⟩ (.text "oak") flags = .ok x u := ⟨_, _, rfl⟩
    have hproper : (CellType.native (.text 3)).content.IsProper := True.intro
    have hspec := convert_converted reachable_flags rfl hproper hx
    exact ⟨x, u, hx, hspec.1.mpr (.inl rfl)⟩
  · obtain ⟨x, u, hx⟩ : ∃ x u,
        convert false ⟨.native (.text 0), [1]⟩ (.array ⟨1⟩) flags = .ok x u := ⟨_, _, rfl⟩
    have hproper : (CellType.native (.text 0)).content.IsProper := True.intro
    have hspec := convert_converted reachable_flags rfl hproper hx
    refine ⟨x, u, hx, ?_, hspec.2 false⟩
    rw [hspec.1]
    rintro (hplain | hregular)
    · cases hplain
    · exact (CellType.ne_empty_of_regular hregular).1 rfl

end ScriptedArrays
