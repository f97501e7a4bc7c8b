import ScriptedArrays.Proofs.Consistency
import ScriptedArrays.Proofs.RowForms
import ScriptedArrays.Instance

/-! Instances of slot types. A value that counts as an instance of a type is of its kind, so a slot
keeps it as it is if it has room for it. A view accepts its rows as instances, and the objects that
it holds, but not what stands for its complex numbers. -/

namespace ScriptedArrays

open World

namespace Content

def indexOfFamily (name : List Char) : Nat :=
  match name with
  | 'b' :: 'o' :: _ => bool.ctorIdx
  | 'i' :: _ | 'u' :: _ => (int true 0).ctorIdx
  | 'f' :: _ => (real .half).ctorIdx
  | 'c' :: _ => (complex .half).ctorIdx
  | 's' :: _ => (text 0).ctorIdx
  | 'b' :: _ => (bytes 0).ctorIdx
  | 'o' :: _ => object.ctorIdx
  | 'd' :: _ => (date "").ctorIdx
  | 't' :: _ => (duration "").ctorIdx
  | _ => (raw 0).ctorIdx

theorem ctorIdx_eq (c : Content) : c.ctorIdx = indexOfFamily c.family.toList := by
  cases c with
  | int signed width =>
    cases signed <;> rw [family, String.toList_append] <;> rfl
  | real p =>
    rw [family, String.toList_append]
    rfl
  | complex p =>
    rw [family, String.toList_append]
    rfl
  | _ =>
    rw [family]
    rfl

/-- Types of one family admit the same contents. -/
theorem admits_of_family {c d : Content} (h : c.family = d.family) {v : Value} (hv : c.Admits v) :
    d.Admits v := by
  have hindex : c.ctorIdx = d.ctorIdx := by rw [ctorIdx_eq, ctorIdx_eq, h]
  cases c <;> cases d
  case int.int s m t n =>
    have hhead : (int s m).family.toList.head? = (int t n).family.toList.head? := by rw [h]
    have hwidth : ∀ {name : String}, name ++ toString (8 * m) = name ++ toString (8 * n) →
        m = n := by
      intro name hname
      have := toString_index_injective ((String.append_right_inj name).mp hname)
      omega
    cases s <;> cases t
    case true.true | false.false =>
      obtain rfl := hwidth h
      exact hv
    all_goals
      rw [family, family, String.toList_append, String.toList_append] at hhead
      cases hhead
  case real.real p q =>
    obtain rfl : p = q := by cases p <;> cases q <;> first | rfl | exact absurd h (by decide)
    exact hv
  case complex.complex p q =>
    obtain rfl : p = q := by cases p <;> cases q <;> first | rfl | exact absurd h (by decide)
    exact hv
  all_goals first | exact hv | cases hindex

end Content
/-- A value as it occurs: no object is kept as another one, and a type admits the contents that it
is given to. -/
structure Value.IsWellFormed (v : Value) : Prop where
  content : v.content.content = v.content
  admits : ∀ t c, v.content = .scalar t c → t.isObject = false ∧ t.content.Admits c

/-- A single cell keeps an instance of its type: an object that stands for itself and is not
undefined, or else a truth value, a number, or a text or bytes for which the cell has room. -/
def World.KeepsInstance (w : World) (t : CellType) (v : Value) : Prop :=
  if t.isObject then (w.hostValue v).item = v.item ∧ v.item ≠ .undefined
  else t.content.IsScalar ∧ t.content.HasRoomFor v.item

theorem Value.isWrapper_of_content {v : Value} (h : v.content.isWrapper = false) :
    v.isWrapper = false := by
  cases v with
  | view r => exact h
  | box r => exact h
  | _ => rfl

section Kept

variable {w : World} {slot : SlotType} {v : Value}

theorem isInstance_nested_iff (hn : slot.isNested = true) : w.isInstance slot v = true ↔
    ∃ r, v = .array r ∧ (w.arrays.get r).shape = slot.shape ∧ (w.arrays.get r).type = slot.cell := by
  unfold isInstance
  rw [if_pos hn]
  split
  · rename_i r
    simp
  · rename_i hno
    exact iff_of_false Bool.false_ne_true fun ⟨r, hr, _⟩ => hno r hr

/-- An instance of a type that is not for objects is no wrapper, and the type admits it. -/
theorem admits_of_isInstance (hn : slot.isNested = false) (ho : slot.cell.isObject = false)
    (hv : (w.hostValue v).IsWellFormed) (hi : w.isInstance slot v = true) :
    v.isWrapper = false ∧ slot.cell.content.Admits v.item := by
  unfold isInstance at hi
  rw [if_neg (by simp [hn])] at hi
  split at hi
  · rename_i hc
    simp [CellType.isObject, hc] at ho
  · rename_i s hc hs
    refine ⟨Value.isWrapper_of_content (by rw [hs]; rfl), ?_⟩
    rw [hc, Value.item, hs]
    exact ⟨s, rfl⟩
  · rename_i b hc hb
    refine ⟨Value.isWrapper_of_content (by rw [hb]; rfl), ?_⟩
    rw [hc, Value.item, hb]
    exact ⟨b, rfl⟩
  · rename_i b hc hb
    refine ⟨Value.isWrapper_of_content (by rw [hb]; rfl), ?_⟩
    rw [hc, Value.item, hb]
    exact ⟨b, rfl⟩
  · rw [CellType.isFamilyOf] at hi
    split at hi
    · rename_i t c hs
      have hplain : v.isWrapper = false := by
        apply Value.isWrapper_of_content
        apply Value.isWrapper_of_content
        rw [hs]
        rfl
      rw [hostValue_eq_self hplain] at hv
      rw [hv.content] at hs
      refine ⟨hplain, ?_⟩
      rw [Value.item, hs]
      exact Content.admits_of_family (by simpa using hi) (hv.admits t c hs).2
    · cases hi

theorem standsFor_item (hw : v.isWrapper = false) (hv : v.item.IsPrimitive) :
    w.StandsFor v v.item := by
  rw [StandsFor, hostValue_eq_self hw, comparable, comparable, hv.item]

theorem item_opened (hv : v.IsWellFormed) : v.opened.item = v.item := by
  rw [Value.opened]
  split
  · rename_i t c hc
    obtain ⟨ho, hadmits⟩ := hv.admits t c hc
    rw [(isPrimitive_of_admits ho hadmits).item, Value.item, hc]
  · rfl

/-- A cell for objects takes the host value behind an object, and null for undefined. -/
theorem convert_object_instance (truncates : Bool) (hn : ¬ slot.isNested = true)
    (ho : slot.cell.isObject = true) (hv : (w.hostValue v).IsWellFormed) :
    ∃ x, convert truncates slot v w = .ok x w ∧
      (x.item = v.item ↔ (w.hostValue v).item = v.item ∧ v.item ≠ .undefined) := by
  have hcell : Conversion.toCell w truncates slot.cell v =
      .ok (if (w.hostValue v).item = .undefined then .null else (w.hostValue v).opened) := by
    have hc : slot.cell.content = .object := by simpa [CellType.isObject] using ho
    rw [Conversion.toCell, hc]
  refine ⟨_, convert_plain hn hcell, ?_⟩
  rw [if_pos ho]
  by_cases hu : (w.hostValue v).item = .undefined
  · rw [if_pos hu]
    refine iff_of_false (fun hnull => ?_) fun h => h.2 (h.1.symm.trans hu)
    cases hw : v.isWrapper with
    | true =>
      cases v with
      | view r => exact Value.noConfusion hnull
      | box r => exact Value.noConfusion hnull
      | _ => cases hw
    | false =>
      rw [hostValue_eq_self hw, ← hnull] at hu
      cases hu
  · rw [if_neg hu, item_opened hv]
    exact ⟨fun h => ⟨h, h ▸ hu⟩, And.left⟩

/-- A single cell keeps an instance of its type if it has room for it, and has no other value equal
to it. -/
theorem convert_plain_instance (hn : ¬ slot.isNested = true) (hv : (w.hostValue v).IsWellFormed)
    (hi : w.isInstance slot v = true) :
    (w.KeepsInstance slot.cell v → ∃ x, convert false slot v w = .ok x w ∧ x.item = v.item) ∧
    (¬ w.KeepsInstance slot.cell v →
      ∀ x u, convert false slot v w = .ok x u → x.item ≠ v.item) := by
  cases ho : slot.cell.isObject with
  | true =>
    obtain ⟨x, hx, hsame⟩ := convert_object_instance false hn ho hv
    rw [World.KeepsInstance, if_pos ho, ← hsame]
    refine ⟨fun h => ⟨x, hx, h⟩, fun hno y u hy => ?_⟩
    rw [hx] at hy
    cases hy
    exact hno
  | false =>
    obtain ⟨hwrapper, hadmits⟩ := admits_of_isInstance (by simpa using hn) ho hv hi
    have hprimitive := isPrimitive_of_admits ho hadmits
    rw [World.KeepsInstance, if_neg (by simp [ho])]
    constructor
    · rintro ⟨hs, hroom⟩
      have hstands : w.StandsFor v v.item := standsFor_item hwrapper hprimitive
      have hcell := Conversion.toCell_of_admits false hs hadmits hroom hstands
      refine ⟨_, (convert_plain_ok_iff hn ho).mpr ⟨rfl, _, hcell, rfl⟩, ?_⟩
      rw [item_sameText, CellType.item_single hprimitive]
    · intro hno x u hx hsame
      obtain ⟨-, c, hc, rfl⟩ := (convert_plain_ok_iff hn ho).mp hx
      rw [item_sameText] at hsame
      exact hno ⟨Conversion.isScalar_of_toCell hc ho,
        hsame ▸ (Conversion.single_of_toCell ho hc).2.1⟩

end Kept

/-- An instance of a slot type is converted to itself if it is a row, or if a single cell keeps it.
Nothing else that counts as an instance is converted to a value equal to it. -/
theorem convert_instance {w : World} (hw : Reachable w) {slot : SlotType} {v : Value}
    (hv : (w.hostValue v).IsWellFormed) (hi : w.isInstance slot v = true) :
    (slot.isNested = true ∨ w.KeepsInstance slot.cell v →
      ∃ x, convert false slot v w = .ok x w ∧ x.item = v.item) ∧
    (¬ (slot.isNested = true ∨ w.KeepsInstance slot.cell v) →
      ∀ x u, convert false slot v w = .ok x u → x.item ≠ v.item) := by
  by_cases hn : slot.isNested = true
  · refine ⟨fun _ => ?_, fun hno => absurd (.inl hn) hno⟩
    obtain ⟨r, rfl, hs, ht⟩ := (isInstance_nested_iff hn).mp hi
    have hregular : slot.cell.IsRegular := ht ▸ hw.sound.regular r
    rw [← rowType_of_regular hregular (.array r)] at ht
    exact ⟨.array r, convert_array hw.sound hn ht hs, rfl⟩
  · rw [or_iff_right hn]
    exact convert_plain_instance hn hv hi

/-- A text of three characters is kept by a cell that has room for them. A longer one counts as an
instance of the same type and is not kept. -/
theorem convert_too_long_instance :
    (∃ x, convert false ⟨.native (.text 3), []⟩ (.text "oak") World.empty = .ok x World.empty ∧
      x.item = .text "oak") ∧
    ∀ x u, convert false ⟨.native (.text 3), []⟩ (.text "willow") World.empty = .ok x u →
      x.item ≠ .text "willow" := by
  have hformed : ∀ s, (World.empty.hostValue (.text s)).IsWellFormed := fun s => ⟨rfl, nofun⟩
  have hshort : "oak".length ≤ 3 := by decide
  have hlong : ¬ "willow".length ≤ 3 := by decide
  constructor
  · exact (convert_instance Reachable.start (hformed "oak") rfl).1 (.inr ⟨True.intro, hshort⟩)
  · refine (convert_instance Reachable.start (hformed "willow") rfl).2 ?_
    rintro (hnested | ⟨-, hroom⟩)
    · cases hnested
    · exact hlong hroom

def Value.IsForeign : Value → Prop
  | .complex .. | .date _ | .duration _ => True
  | _ => False

namespace Presenter

variable {w u : World} {p : Ref .presenter} {scope v x : Value} {fuel : Nat}

theorem keep_ne_of_isWrapper (hv : v.isWrapper = false) (hw : x.isWrapper = true) :
    keep v w ≠ .ok x u := by
  intro hx
  obtain ⟨y, n, hy, hcontent, hsame⟩ := keep_eq v w
  rw [hy] at hx
  cases hx
  rw [Value.IsKept.isWrapper ⟨hcontent, hsame⟩ hv] at hw
  cases hw

theorem content_of_newBox
    (hx : (newBox scope v p none >>= fun b => pure (.box b) : Action Value) w = .ok x u) :
    x = .box w.boxes.next ∧ (u.boxes.get w.boxes.next).value.content = v.content := by
  obtain ⟨u', hb, -, -, hkept⟩ := newBox_spec scope v p none w
  rw [bind_apply_of_ok _ hb] at hx
  cases hx
  exact ⟨rfl, hkept.content⟩

/-- Objects go out as views, as the boxes that they are, or in new boxes, which are not made for
null. -/
theorem wrapper_of_presentFrom (hx : presentFrom p scope fuel v w = .ok x u)
    (hw : x.isWrapper = true) :
    (∃ q, x = .view q) ∨ (∃ b, x = .box b ∧ u = w) ∨
      (x = .box w.boxes.next ∧ (u.boxes.get w.boxes.next).value.content ≠ .null) := by
  induction fuel generalizing v with
  | zero => cases hx
  | succ fuel ih =>
    rw [presentFrom] at hx
    cases hc : v.opened.content with
    | null =>
      simp only [hc] at hx
      cases hx
      cases hw
    | array r =>
      simp only [hc, get_bind_apply] at hx
      split at hx
      · exact ih hx
      · cases hq : viewOf p r scope w with
        | ok q u' =>
          rw [bind_apply_of_ok _ hq] at hx
          cases hx
          exact .inl ⟨q, rfl⟩
        | error f u' =>
          rw [bind_apply_of_error _ hq] at hx
          cases hx
    | bytes b =>
      simp only [hc] at hx
      exact absurd hx (keep_ne_of_isWrapper rfl hw)
    | bool _ | int _ | number _ | text _ =>
      simp only [hc] at hx
      have hplain : v.opened.isWrapper = false := Value.isWrapper_of_content (by rw [hc]; rfl)
      exact absurd hx (keep_ne_of_isWrapper hplain hw)
    | view q =>
      simp only [hc] at hx
      cases hx
      exact .inl ⟨_, rfl⟩
    | box b =>
      simp only [hc] at hx
      cases hx
      exact .inr (.inl ⟨_, rfl, rfl⟩)
    | _ =>
      simp only [hc] at hx
      obtain ⟨rfl, hcontent⟩ := content_of_newBox hx
      refine .inr (.inr ⟨rfl, ?_⟩)
      rw [hcontent, hc]
      exact Value.noConfusion

theorem content_ne_null_iff (hx : present p v scope w = .ok x u) (hw : x.isWrapper = true) :
    (u.hostValue x).content ≠ .null ↔
      ¬ ∃ b, x = .box b ∧ (w.boxes.get b).value.content = .null := by
  rw [present, get_bind_apply] at hx
  rcases wrapper_of_presentFrom hx hw with ⟨q, rfl⟩ | ⟨b, rfl, rfl⟩ | ⟨rfl, hnew⟩
  · refine iff_of_true Value.noConfusion ?_
    rintro ⟨b, hb, -⟩
    cases hb
  · rw [ne_eq, not_iff_not]
    constructor
    · exact fun hnull => ⟨b, rfl, hnull⟩
    · rintro ⟨b', hb, hnull⟩
      cases hb
      exact hnull
  · refine iff_of_true hnew ?_
    rintro ⟨b, hb, hnull⟩
    cases hb
    have hno : ¬ w.boxes.Has w.boxes.next := Nat.lt_irrefl _
    rw [Store.get_of_not_has _ hno] at hnull
    cases hnull

/-- Of the contents of other cells only complex numbers, dates and durations go out in boxes. -/
theorem box_of_present_itemValue {t : CellType} {c : Value} (ho : t.isObject = false)
    (hc : t.content.Admits c) (hx : present p (t.itemValue c) scope w = .ok x u)
    (hw : x.isWrapper = true) :
    ∃ b, x = .box b ∧ (u.boxes.get b).value.content = c ∧ c.IsForeign := by
  have hprimitive : c.IsPrimitive := isPrimitive_of_admits ho hc
  rw [present_itemValue ho] at hx
  cases c with
  | null =>
    cases hx
    cases hw
  | bool b => exact absurd hx (keep_ne_of_isWrapper rfl hw)
  | int n => exact absurd hx (keep_ne_of_isWrapper rfl hw)
  | number y => exact absurd hx (keep_ne_of_isWrapper rfl hw)
  | text s => exact absurd hx (keep_ne_of_isWrapper rfl hw)
  | bytes b =>
    have htext : keep (.text (Latin.decode b)) w = .ok x u := hx
    exact absurd htext (keep_ne_of_isWrapper rfl hw)
  | complex re im =>
    obtain ⟨rfl, hcontent⟩ := content_of_newBox (v := .complex re im) hx
    exact ⟨_, rfl, hcontent, True.intro⟩
  | date d =>
    obtain ⟨rfl, hcontent⟩ := content_of_newBox (v := .date d) hx
    exact ⟨_, rfl, hcontent, True.intro⟩
  | duration s =>
    obtain ⟨rfl, hcontent⟩ := content_of_newBox (v := .duration s) hx
    exact ⟨_, rfl, hcontent, True.intro⟩
  | _ => exact hprimitive.elim

end Presenter

namespace View

variable {w u : World} {r : Ref .view} {i x : Value} {k : Nat}

theorem accepts_rowView (h : u.Sound) (hr : u.views.Has r) {q : Ref .view}
    (hn : (u.shown r).rowShape ≠ []) (hq : u.shown q = (u.shown r).row k) :
    View.accepts u r (.view q) = true := by
  have hnested : (u.views.get r).slot.isNested = true := by
    rw [h.isNested hr]
    simpa using hn
  have hshape : (u.shown q).shape = (u.views.get r).slot.shape := by
    rw [hq, h.slot r hr]
    rfl
  have htype : (u.shown q).type = (u.views.get r).slot.cell := by
    rw [hq, h.cell_slot r]
    rfl
  have hinstance : u.isInstance (u.views.get r).slot (u.hostValue (.view q)) = true :=
    (isInstance_nested_iff hnested).mpr ⟨_, rfl, hshape, htype⟩
  rw [View.accepts, hinstance]
  rfl

theorem accepts_object (h : u.Sound) (hr : u.views.Has r) (hn : (u.shown r).rowShape = [])
    (ho : (u.shown r).type.isObject = true) (hw : x.isWrapper = true) :
    View.accepts u r x = true ↔ (u.hostValue x).content ≠ .null := by
  have hplain : ¬ (u.views.get r).slot.isNested = true := by
    rw [h.isNested hr, hn]
    exact Bool.false_ne_true
  have hcell : (u.views.get r).slot.cell.isObject = true := h.cell_slot r ▸ ho
  have hcontent : (u.views.get r).slot.cell.content = .object := by
    simpa [CellType.isObject] using hcell
  rw [View.accepts, hw, Bool.true_and]
  unfold World.isInstance
  rw [if_neg hplain]
  simp only [hcontent]
  exact bne_iff_ne

/-- What stands for a complex number, a date or a duration has no type and so is no instance of
one. -/
theorem not_accepts_of_content (h : u.Sound) (hr : u.views.Has r) (hn : (u.shown r).rowShape = [])
    (ho : (u.shown r).type.isObject = false)
    (hc : (u.hostValue x).content.IsForeign) : ¬ View.accepts u r x = true := by
  have hplain : ¬ (u.views.get r).slot.isNested = true := by
    rw [h.isNested hr, hn]
    exact Bool.false_ne_true
  have hcell : (u.views.get r).slot.cell.isObject = false := h.cell_slot r ▸ ho
  rw [View.accepts, Bool.and_eq_true, not_and]
  intro _
  unfold World.isInstance
  rw [if_neg hplain]
  cases ht : (u.views.get r).slot.cell.content with
  | object => simp [CellType.isObject, ht] at hcell
  | _ =>
    cases hv : (u.hostValue x).content with
    | complex re im => exact Bool.false_ne_true
    | date d => exact Bool.false_ne_true
    | duration s => exact Bool.false_ne_true
    | _ =>
      rw [hv] at hc
      exact hc.elim

/-- A view accepts what it hands out for an index as an instance if that is a row, or an object
other than a box of null that a cell holds. It does not accept what it hands out for a complex
number, a date or a duration. -/
theorem accepts_getIndex {w u : World} (hw : Reachable w) (hr : w.views.Has r) (hi : i.IsInteger k)
    (hk : k < (w.shown r).length) (hx : getIndex r i w = .ok x u) (hwrapper : x.isWrapper = true) :
    View.accepts u r x = true ↔ (w.shown r).rowShape ≠ [] ∨ ((w.shown r).type.isObject = true ∧
      ¬ ∃ b, x = .box b ∧ (w.boxes.get b).value.content = .null) := by
  have hreads := reads_getIndex hr hi hk hw.sound
  rw [after_of_ok hx] at hreads
  obtain ⟨hs, he, -⟩ := hreads
  have hu : u.views.Has r := he.hasView r hr
  have hshown : u.shown r = w.shown r := he.shown hw.sound hr
  by_cases hn : (w.shown r).rowShape = []
  · rw [or_iff_right (not_not.mpr hn)]
    rw [getIndex_plain hw.sound hr hi hk hn] at hx
    cases ho : (w.shown r).type.isObject with
    | true =>
      rw [accepts_object hs hu (by rwa [hshown]) (by rwa [hshown]) hwrapper, and_iff_right rfl]
      exact Presenter.content_ne_null_iff hx hwrapper
    | false =>
      have hadmits := (accepts_cell hw.sound hr hk hn).1
      obtain ⟨b, rfl, hcontent, hkind⟩ := Presenter.box_of_present_itemValue ho hadmits hx hwrapper
      have hvalue : (u.hostValue (.box b)).content = w.cell (w.shown r) k := hcontent
      refine iff_of_false ?_ fun h => Bool.false_ne_true h.1
      exact not_accepts_of_content hs hu (by rwa [hshown]) (by rwa [hshown]) (by rwa [hvalue])
  · obtain ⟨q, w', hq, -, -, -, -, hrow⟩ := getIndex_nested hw.sound hr hi hk hn
    rw [hq] at hx
    cases hx
    refine iff_of_true (accepts_rowView hs hu (by rwa [hshown]) (k := k) ?_) (.inl hn)
    rwa [hshown]

/-- A view accepts its second row, and a view of complex numbers does not accept its first one. -/
theorem not_accepts_boxed_complex :
    (∃ q u, getIndex ⟨0⟩ (.int 1) square = .ok (.view q) u ∧
      View.accepts u ⟨0⟩ (.view q) = true) ∧
    ∃ b u, getIndex ⟨0⟩ (.int 0) phases = .ok (.box b) u ∧ ¬ View.accepts u ⟨0⟩ (.box b) = true := by
  have hfirst : (Value.int 0).IsInteger (0 : Nat) := .inl rfl
  have hsecond : (Value.int 1).IsInteger (1 : Nat) := .inl rfl
  have hsquare : square.views.Has ⟨0⟩ := by decide
  have hphases : phases.views.Has ⟨0⟩ := by decide
  constructor
  · obtain ⟨q, u, hq⟩ : ∃ q u, getIndex ⟨0⟩ (.int 1) square = .ok (.view q) u := ⟨_, _, rfl⟩
    have haccepts := accepts_getIndex reachable_square hsquare hsecond (by decide) hq rfl
    exact ⟨q, u, hq, haccepts.mpr (.inl (by decide))⟩
  · obtain ⟨b, u, hb⟩ : ∃ b u, getIndex ⟨0⟩ (.int 0) phases = .ok (.box b) u := ⟨_, _, rfl⟩
    have haccepts := accepts_getIndex reachable_phases hphases hfirst (by decide) hb rfl
    refine ⟨b, u, hb, fun h => ?_⟩
    rcases haccepts.mp h with hrow | ⟨hobject, -⟩
    · exact hrow rfl
    · cases hobject

end View

end ScriptedArrays
