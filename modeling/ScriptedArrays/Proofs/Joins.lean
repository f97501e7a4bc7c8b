import ScriptedArrays.Proofs.Concatenations
import ScriptedArrays.Proofs.LastingTexts

/-! Joins. A join is the texts of the items of an array-like receiver in order with the separator
between them, if all of these texts are written. The text of an item is the same whenever the item is
read, so the join of a concatenation is made up of the joins of its parts. -/

namespace ScriptedArrays

open World

namespace World

def itemString? (w : World) (x : Value) : Except HostFault String :=
  match x with
  | .undefined | .null => .ok ""
  | x => w.textOf? x

section

variable {w u : World} {v x y : Value} {s : String}

theorem item_of_content (hv : v.content = .text s) : v.item = .text s := by
  rw [Value.item, hv]

theorem item_literal (s : String) : (Value.text s).literal.item = .text s := by
  rw [Value.literal, Value.heldBy]
  split
  · rfl
  · rfl

theorem item_displayValue (w : World) (v : Value) : (w.displayValue v).item = .text (w.display v) := by
  rw [displayValue]
  split
  · next s hs => rw [item_of_content hs, display, displayFrom, hs]
  · rfl

theorem item_textValue (w : World) (hv : v.IsGenuine) : (w.textValue v).item = .text (w.textOf v) := by
  rw [textValue]
  split
  · next n b c hc =>
    obtain ⟨s, rfl⟩ := hv.text n b c hc
    have htext : w.textOf v = s := by
      rw [textOf, hc]
      exact display_of_scalar (v := .scalar _ _) rfl
    rw [Value.item, hc, htext]
  · next s hs => rw [item_of_content hs, textOf, hs]
  · next r hr => rw [item_displayValue, textOf, hr]
  · exact item_literal _
  · exact item_literal _
  · exact item_literal _
  · exact item_literal _
  · split
    · rfl
    · exact item_literal _
  · rfl

theorem item_itemText (w : World) (hv : v.IsGenuine) :
    (Display.written (ArrayMethod.hasItemText w v) (ArrayMethod.itemText w v)).map Value.item =
      (w.itemString? v).map Value.text := by
  have hvalue : (Display.written (w.hasText v) (w.textValue v)).map Value.item =
      (w.textOf? v).map Value.text := by
    rw [textOf?]
    cases w.hasText v with
    | false => rfl
    | true => exact congrArg Except.ok (item_textValue w hv)
  cases v with
  | undefined | null => rfl
  | _ => exact hvalue

theorem quote_of_scalar {t : CellType} {c : Value} (hv : v.content = .scalar t c) :
    w.quote v = Display.scalarText t c := by
  have hsimple : (Display.simple? v).getD "" = Display.scalarText t c := by
    rw [Display.simple?, hv]
    rfl
  rw [← hsimple]
  cases v with
  | scalar _ _ | kept _ _ | member _ _ _ => rfl
  | _ => cases hv

theorem textOf_congr (w : World) (h : x.content = y.content) : w.textOf x = w.textOf y := by
  rw [textOf, textOf, h]
  split
  all_goals try rfl
  next hc => rw [quote_of_scalar hc, quote_of_scalar (h.trans hc)]

theorem textOf?_congr (w : World) (h : x.content = y.content) : w.textOf? x = w.textOf? y := by
  rw [textOf?, textOf?, w.textOf_congr h, hasText, hasText, h]

theorem itemString?_of_isKept (w : World) (h : x.IsKept y) : w.itemString? x = w.itemString? y := by
  by_cases ho : y.isObject = true
  · rw [h.same ho]
  · have hself : y.content = y := content_of_not_isObject (by simpa using ho)
    have hstring : ∀ v : Value, v.content = y → w.itemString? v = w.textOf? v := by
      rintro v rfl
      rw [itemString?.eq_def]
      split
      · exact absurd rfl ho
      · exact absurd rfl ho
      · rfl
    rw [hstring x (h.content.trans hself), hstring y hself, w.textOf?_congr h.content]

theorem Preserves.itemString?_eq (hu : w.Preserves u) (hc : w.Closed) (h : w.Sound)
    (hv : w.backs v = true) (hgenuine : v.IsGenuine) : u.itemString? v = w.itemString? v := by
  rw [itemString?.eq_def, itemString?.eq_def]
  split
  · rfl
  · rfl
  · exact hu.textOf?_eq hc h hv hgenuine

theorem display?_congr (w : World) (h : x.content = y.content) : w.display? x = w.display? y := by
  rw [display?, display?, display, display, displayable, displayable, displayFrom, displayFrom,
    displayableFrom, displayableFrom, h]

theorem itemString?_of_content {c : Value} (w : World) (hx : x.content = c) (hself : c.content = c)
    (hundefined : c ≠ .undefined) (hnull : c ≠ .null) : w.itemString? x = w.textOf? c := by
  rw [← w.textOf?_congr (hx.trans hself.symm), itemString?.eq_def]
  split
  · exact absurd hx.symm hundefined
  · exact absurd hx.symm hnull
  · rfl

theorem backs_opened (hv : w.backs v = true) (hscalar : ∀ t x, v.opened.content ≠ .scalar t x) :
    w.backs v.opened = true := by
  have hopened : v.opened.opened = v.opened := by
    rw [Value.opened.eq_def v.opened]
    split
    · next t x hx => exact absurd hx (hscalar t x)
    · rfl
  rw [backs] at hv ⊢
  rwa [hopened]

/-- What scripts get for a host value has one text, in whatever world it is got. -/
theorem exists_string_depicts (hc : w.Closed) (h : w.Sound) (hv : w.backs v = true) :
    ∃ s, ∀ z x, w.Preserves z → z.Depicts v x → x.IsGenuine ∧ z.itemString? x = s := by
  cases hcontent : v.opened.content with
  | array r =>
    refine ⟨w.display? (.array r), fun z x hz hx => ?_⟩
    rw [Depicts, hcontent] at hx
    obtain ⟨q, rfl, -, rfl⟩ := hx
    exact ⟨.of_self rfl (by simp),
      hz.display?_eq (v := .array _) hc h (decide_eq_true (has_of_backs hv hcontent))⟩
  | null =>
    refine ⟨.ok "", fun z x hz hx => ?_⟩
    rw [Depicts, hcontent] at hx
    subst hx
    exact ⟨.of_self rfl (by simp), rfl⟩
  | view q =>
    refine ⟨w.textOf? (.view q), fun z x hz hx => ?_⟩
    rw [Depicts, hcontent] at hx
    subst hx
    rw [backs, hcontent] at hv
    have hgenuine : (Value.view q).IsGenuine := .of_self rfl (by simp)
    exact ⟨hgenuine, hz.textOf?_eq (v := .view q) hc h hv hgenuine⟩
  | box b =>
    refine ⟨w.textOf? (.box b), fun z x hz hx => ?_⟩
    rw [Depicts, hcontent] at hx
    subst hx
    rw [backs, hcontent] at hv
    have hgenuine : (Value.box b).IsGenuine := .of_self rfl (by simp)
    exact ⟨hgenuine, hz.textOf?_eq (v := .box b) hc h hv hgenuine⟩
  | bytes b =>
    refine ⟨.ok (Latin.decode b), fun z x hz hx => ?_⟩
    rw [Depicts, hcontent] at hx
    have hx' : x.content = .text (Latin.decode b) := hx.content
    exact ⟨.of_content hx' rfl (by simp), z.itemString?_of_isKept hx⟩
  | bool _ | int _ | number _ | text _ =>
    refine ⟨w.textOf? v.opened.content, fun z x hz hx => ?_⟩
    rw [Depicts, hcontent] at hx
    have hx := hx.content.trans hcontent
    refine ⟨.of_content hx rfl (by simp), ?_⟩
    rw [z.itemString?_of_content hx rfl (by simp) (by simp), hcontent]
    exact hz.textOf?_eq hc h rfl (.of_self rfl (by simp))
  | _ =>
    refine ⟨w.display? v.opened, fun z x hz hx => ?_⟩
    rw [Depicts, hcontent] at hx
    obtain ⟨b, rfl, -, hb⟩ := hx
    refine ⟨.of_self rfl (by simp), ?_⟩
    have hdisplay : z.display? v.opened = w.display? v.opened := by
      by_cases hscalar : ∃ t x, v.opened.content = .scalar t x
      · obtain ⟨t, x, hx⟩ := hscalar
        rw [display?_of_scalar hx, display?_of_scalar hx]
      · exact hz.display?_eq hc h (backs_opened hv fun t x hx => hscalar ⟨t, x, hx⟩)
    rw [← hdisplay]
    exact z.display?_congr (hb.trans hcontent.symm)

end
end World

namespace Receiver

variable {w z : World} {this : Value} {i : Nat}

/-- The text of the view of a row that is read does not depend on where the row lies. -/
theorem itemString?_row (hc : w.Closed) (h : w.Sound) (hz : w.Preserves z) {q : Ref .view} {win : Window}
    (hfresh : ¬ w.arrays.Has (z.views.get q).array) (hshown : z.shown q = win) (hs : win.shape ≠ []) :
    z.itemString? (.view q) = Display.written (w.rowsWritten [] win) (w.rowsTextFrom [] win) := by
  subst hshown
  have hne : ¬ (z.arrays.get (z.views.get q).array).shape.isEmpty = true := by
    have hshape : (z.arrays.get (z.views.get q).array).shape ≠ [] := hs
    simpa using hshape
  have hrows : z.display (.array (z.views.get q).array) = z.rowsText (z.views.get q).array := by
    rw [display, displayFrom]
    show (if (z.arrays.get (z.views.get q).array).shape.isEmpty = true then _ else _) = _
    rw [if_neg hne]
  have hwritten : z.displayable (.array (z.views.get q).array) =
      z.rowsWritten [.array (z.views.get q).array] (z.shown q) := by
    rw [displayable, displayableFrom]
    show (if (z.arrays.get (z.views.get q).array).shape.isEmpty = true then _ else _) = _
    rw [if_neg hne]
    rfl
  show Display.written (z.displayable (.array (z.views.get q).array))
    (z.display (.array (z.views.get q).array)) = _
  rw [hrows, hwritten, hz.rowsText_added hc h hfresh, hz.rowsWritten_added hc h hfresh]
  rfl

theorem exists_string_slot (hc : w.Closed) (h : w.Sound) {q : Ref .view} (hq : w.views.Has q)
    (hi : i < (w.shown q).length) (hn : (w.shown q).rowShape = []) :
    ∃ s, ∀ z x, w.Preserves z → w.ReadsAs (.view q) i x z → x.IsGenuine ∧ z.itemString? x = s := by
  have hends : ∀ z x, w.ReadsAs (.view q) i x z →
      ∃ c, w.Unfolds ((w.shown q).type.itemValue (w.cell (w.shown q) i)) c ∧ w.backs c = true ∧
        z.Depicts c x := by
    rintro z x ⟨u, u', hu, hget, hz⟩
    exact View.depicts_getIndex hc h hq (isInteger_index i) hi hn hu hget hz
  by_cases hlast : ∃ c, w.Unfolds ((w.shown q).type.itemValue (w.cell (w.shown q) i)) c ∧
      w.backs c = true
  · obtain ⟨c, hunfolds, hback⟩ := hlast
    obtain ⟨s, hs⟩ := exists_string_depicts hc h hback
    refine ⟨s, fun z x hz hx => ?_⟩
    obtain ⟨c', hc', -, hx⟩ := hends z x hx
    obtain rfl := hunfolds.unique hc'
    exact hs z x hz hx
  · -- the content has no end, so the slot cannot be read
    refine ⟨.ok "", fun z x hz hx => absurd ?_ hlast⟩
    obtain ⟨c, hunfolds, hback, -⟩ := hends z x hx
    exact ⟨c, hunfolds, hback⟩

theorem exists_string (hw : w.WellFormed) (h : w.Sound) (hthis : IsArrayLike w this)
    (hthere : w.backs this = true) (hi : HasItem w this i) :
    ∃ s, ∀ z x, w.Preserves z → w.ReadsAs this i x z → x.IsGenuine ∧ z.itemString? x = s := by
  cases hthis with
  | record r =>
    have hr : w.records.Has r := of_decide_eq_true hthere
    have hgenuine : ((w.records.get r).getD (toString i) .undefined).IsGenuine :=
      forall_getD hw.genuine r (toString i) (.of_self rfl (by simp))
    refine ⟨w.itemString? ((w.records.get r).getD (toString i) .undefined), fun z x hz hx => ?_⟩
    rw [readsAs_record hr hx]
    exact ⟨hgenuine, hz.itemString?_eq hw.toClosed h (hw.backs_entry r (toString i) rfl) hgenuine⟩
  | @view q hq =>
    by_cases hn : (w.shown q).rowShape = []
    · exact exists_string_slot hw.toClosed h hq (hi q rfl) hn
    · refine ⟨Display.written (w.rowsWritten [] ((w.shown q).row i))
        (w.rowsTextFrom [] ((w.shown q).row i)),
        fun z x hz hx => ?_⟩
      obtain ⟨u, u', hu, hget, hz'⟩ := hx
      obtain ⟨q', rfl, -, hfresh, hrow⟩ :=
        View.row_of_getIndex h hq (isInteger_index i) (hi q rfl) hn hu hget hz'
      exact ⟨.of_self rfl (by simp), itemString?_row hw.toClosed h hz hfresh hrow hn⟩

end Receiver

namespace World

structure WrittenAs (w : World) (x : Value) (s : Except HostFault String) : Prop where
  genuine : x.IsGenuine
  text : ∀ z, w.Preserves z → z.itemString? x = s

/-- Up to the length of the receiver its items have these texts, whenever they are read. -/
structure Spells (w : World) (this : Value) (ss : List (Except HostFault String)) : Prop where
  length : Receiver.length this w = .ok ss.length w
  item : ∀ i (hi : i < ss.length) z x, w.Preserves z → w.ReadsAs this i x z → z.WrittenAs x ss[i]

section

variable {w z : World} {this x y : Value} {s : Except HostFault String}
  {ss : List (Except HostFault String)} {xs : List Value} {n : Nat}

theorem WrittenAs.of_isKept (hy : w.WrittenAs y s) (hx : x.IsKept y) : w.WrittenAs x s where
  genuine := ⟨by rw [hx.content, hy.genuine.content], by rw [hx.content]; exact hy.genuine.text⟩
  text z hz := (z.itemString?_of_isKept hx).trans (hy.text z hz)

theorem WrittenAs.widen (hx : w.WrittenAs x s) (hz : w.Preserves z) : z.WrittenAs x s :=
  ⟨hx.genuine, fun z' hz' => hx.text z' (trans_of Preserves hz hz')⟩

theorem exists_spells (hw : w.WellFormed) (h : w.Sound) (hthis : Receiver.IsArrayLike w this)
    (hthere : w.backs this = true) (hn : Receiver.length this w = .ok n w) :
    ∃ ss, ss.length = n ∧ w.Spells this ss := by
  have htext : ∀ i : Fin n, ∃ s, ∀ z x, w.Preserves z → w.ReadsAs this i x z → x.IsGenuine ∧
      z.itemString? x = s := fun i =>
    Receiver.exists_string hw h hthis hthere (Receiver.hasItem_of_length h hthis hn i.isLt)
  choose f hf using htext
  refine ⟨List.ofFn f, List.length_ofFn, by rw [List.length_ofFn]; exact hn, fun i hi z x hz hx => ?_⟩
  rw [List.length_ofFn] at hi
  rw [List.getElem_ofFn]
  refine ⟨(hf ⟨i, hi⟩ z x hz hx).1, fun z' hz' => ?_⟩
  exact (hf ⟨i, hi⟩ z' x (trans_of Preserves hz hz') (hx.widen (refl_of Preserves w) hz')).2

theorem Spells.widen (hc : w.Closed) (h : w.Sound) (hthis : Receiver.IsArrayLike w this)
    (hthere : w.backs this = true) (hs : w.Spells this ss) (hz : w.Preserves z) : z.Spells this ss where
  length := Receiver.length_of_preserves hc h hthis hthere hz hs.length
  item i hi z' x hz' hx := hs.item i hi z' x (trans_of Preserves hz hz')
    (hx.widen hz (refl_of Preserves z'))

theorem Spells.items (hs : w.Spells this ss) (hz : w.Preserves z)
    (hxs : List.Forall₂ (fun x i => w.ReadsAs this i x z) xs (List.range ss.length)) :
    List.Forall₂ z.WrittenAs xs ss := by
  refine List.forall₂_iff_get.mpr ⟨by rw [hxs.length_eq, List.length_range], fun i hi hi' => ?_⟩
  have hread := hxs.get hi (by rwa [List.length_range])
  rw [List.get_eq_getElem, List.get_eq_getElem, List.getElem_range] at hread
  exact hs.item i hi' z _ hz hread

theorem Contributes.written {prototype : Ref .record} (hspread : w.IsSpread prototype this)
    (hs : w.Spells this ss) (hz : w.Preserves z) (hxs : w.Contributes prototype z this xs) :
    List.Forall₂ z.WrittenAs xs ss := by
  cases hxs with
  | @items n _ _ hn hxs =>
    rw [hs.length] at hn
    cases hn
    exact hs.items hz hxs
  | itself hno => exact absurd hspread hno

end
end World

theorem Entries.IsArray.spells {w : World} {prototype c : Ref .record} {xs : List Value}
    {ss : List (Except HostFault String)} (hc : w.records.Has c)
    (h : (w.records.get c).IsArray prototype xs)
    (hxs : List.Forall₂ w.WrittenAs xs ss) (hlt : ss.length < Double.bound) :
    w.Spells (.record c) (ss.take greatestLength) := by
  have hlength := hxs.length_eq
  constructor
  · refine h.length_eq_ok_iff.mpr ⟨by rwa [hlength], ?_⟩
    rw [List.length_take, hlength, Nat.min_comm]
  · intro i hi z x hz hx
    rw [List.length_take] at hi
    obtain ⟨y, hy, hkept⟩ := h.item i (by omega)
    rw [Receiver.readsAs_record hc hx, Entries.getD, hy, Option.getD_some, List.getElem_take]
    exact ((hxs.get (by omega) (by omega)).of_isKept hkept).widen hz

namespace ArrayMethod

theorem textsAt_eq_readEach (this previous : Value) (is : List Nat) : textsAt this previous is =
    Receiver.readEach this (fun v => [v]) (fun _ v => v)
      (fun w v => Display.written (hasItemText w v) (itemText w v)) previous is := by
  induction is generalizing previous with
  | nil => rfl
  | cons i is ih =>
    rw [textsAt, Receiver.readEach]
    simp only [ih]

theorem item_opened {v : Value} {s : String} (hv : v.item = .text s) : v.opened.item = .text s := by
  rw [Value.opened]
  split
  · next t x hx =>
    rw [Value.item, hx] at hv
    have hx' : x = .text s := hv
    rw [hx']
    rfl
  · exact hv

theorem map_textOf {ts : List Value} {ss : List String}
    (h : List.Forall₂ (fun t s => t.item = .text s) ts ss) : ts.map textOf = ss := by
  rw [← List.forall₂_eq_eq_eq, List.forall₂_map_left_iff]
  exact h.imp fun t s ht => by rw [textOf, ht]

theorem item_joined (sep : String) {ts : List Value} {ss : List String}
    (h : List.Forall₂ (fun t s => t.item = .text s) ts ss) :
    (joined sep ts).item = .text (sep.intercalate ss) := by
  rw [joined.eq_def]
  split
  · next v =>
    obtain ⟨s, _, hs, hnone, rfl⟩ := List.forall₂_cons_left_iff.mp h
    cases hnone
    rw [String.intercalate_singleton]
    exact item_opened hs
  · rw [map_textOf h]
    rfl

theorem mapM_range_getD {α γ : Type} (ss : List α) (d : α) (f : α → Except HostFault γ) :
    (List.range ss.length).mapM (fun i => f (ss.getD i d)) = ss.mapM f := by
  have hrange : (List.range ss.length).map (ss.getD · d) = ss := by
    refine List.ext_getElem (by simp) fun i hi hi' => ?_
    rw [List.getElem_map, List.getElem_range, List.getD_eq_getElem _ _ hi']
  calc (List.range ss.length).mapM (fun i => f (ss.getD i d))
    _ = ((List.range ss.length).map (ss.getD · d)).mapM f := List.mapM_map.symm
    _ = ss.mapM f := by rw [hrange]

theorem mapM_map_text (ss : List (Except HostFault String)) :
    ss.mapM (fun s => s.map Value.text) = (ss.mapM id).map (List.map Value.text) := by
  induction ss with
  | nil => rfl
  | cons s ss ih =>
    rw [List.mapM_cons, List.mapM_cons, ih]
    cases s with
    | error f => rfl
    | ok s => cases ss.mapM id <;> rfl

/-- The texts of items with a separator between them, if all of these are written. -/
def joinText (sep : Except HostFault String) (ss : List (Except HostFault String)) :
    Except HostFault String := do
  let sep ← sep
  return sep.intercalate (← ss.mapM id)

theorem joinText_append (sep : Except HostFault String) {as bs : List (Except HostFault String)}
    (ha : as ≠ []) (hb : bs ≠ []) : joinText sep (as ++ bs) = do
      return (← joinText sep as) ++ (← sep) ++ (← joinText sep bs) := by
  have hlength : ∀ {ss : List (Except HostFault String)} {ts : List String}, ss.mapM id = .ok ts →
      ss ≠ [] → ts ≠ [] := by
    rintro ss ts hts hss rfl
    exact hss (List.forall₂_nil_right_iff.mp (forall₂_of_mapM hts))
  cases sep with
  | error f => rfl
  | ok sep =>
    simp only [joinText, List.mapM_append]
    cases has : as.mapM id with
    | error f => rfl
    | ok as' =>
      cases hbs : bs.mapM id with
      | error f => rfl
      | ok bs' =>
        exact congrArg Except.ok
          (String.intercalate_append_of_ne_nil (hlength has ha) (hlength hbs hb))

/-- The action adds objects at most, and it ends in the text, or in the fault for which there is
none. -/
def EndsIn (w : World) (act : Action Value) (s : Except HostFault String) : Prop :=
  ∃ u, w.Preserves u ∧ match s with
    | .ok s => ∃ v, act w = .ok v u ∧ v.item = .text s
    | .error f => act w = .error (.host f) u

theorem EndsIn.succeeds_iff {w : World} {act : Action Value} {s : Except HostFault String}
    (h : EndsIn w act s) : Succeeds act w ↔ ∃ t, s = .ok t := by
  obtain ⟨u, -, hu⟩ := h
  cases s with
  | error f =>
    refine iff_of_false ?_ nofun
    rintro ⟨v, u', hv⟩
    cases hu.symm.trans hv
  | ok t =>
    obtain ⟨v, hv, -⟩ := hu
    exact iff_of_true ⟨v, u, hv⟩ ⟨t, rfl⟩

section

variable {w u : World} {this : Value} {ss : List (Except HostFault String)} (h : w.Sound)
  (hthis : Receiver.IsArrayLike w this)
include h hthis

theorem succeeds_item_of_joinWith (hs : w.Spells this ss) {sep : String}
    (hjoin : Succeeds (joinWith sep this) w) : ∀ i < ss.length, Succeeds (Receiver.item this i) w := by
  have hitems : ∀ i ∈ List.range ss.length, Receiver.HasItem w this i := fun i hi =>
    Receiver.hasItem_of_length h hthis hs.length (List.mem_range.mp hi)
  obtain ⟨v, u, hv⟩ := hjoin
  rw [joinWith, bind_apply_of_ok _ hs.length, textsAt_eq_readEach] at hv
  obtain ⟨ts, z, hts, -⟩ := bind_eq_ok.mp hv
  exact fun i hi => Receiver.succeeds_item_of_readEach h hthis hitems ⟨ts, z, hts⟩ i (List.mem_range.mpr hi)

/-- A join is made up of the texts of the items. -/
theorem endsIn_joinWith (hs : w.Spells this ss)
    (hread : ∀ i < ss.length, Succeeds (Receiver.item this i) w) (sep : String) :
    EndsIn w (joinWith sep this) (joinText (.ok sep) ss) := by
  have hitems : ∀ i ∈ List.range ss.length, Receiver.HasItem w this i := fun i hi =>
    Receiver.hasItem_of_length h hthis hs.length (List.mem_range.mp hi)
  have hout : ∀ i ∈ List.range ss.length, ∀ z x, w.Preserves z → w.ReadsAs this i x z →
      (Display.written (hasItemText z x) (itemText z x)).map Value.item =
        (ss.getD i (.ok "")).map Value.text := by
    intro i hi z x hz hx
    have hlt := List.mem_range.mp hi
    have hwritten := hs.item i hlt z x hz hx
    rw [item_itemText z hwritten.genuine, hwritten.text z (refl_of Preserves z),
      List.getD_eq_getElem _ _ hlt]
  obtain ⟨u, hu, htexts⟩ := Receiver.readEach_outcome (fun v => [v]) (fun _ v => v)
    (fun w v => Display.written (hasItemText w v) (itemText w v)) h hthis hitems
    (fun i hi => hread i (List.mem_range.mp hi)) Value.item _ hout Value.undefined
  refine ⟨u, hu, ?_⟩
  rw [mapM_range_getD ss (.ok "") fun s => s.map Value.text, mapM_map_text,
    ← textsAt_eq_readEach] at htexts
  have hjoin : joinWith sep this w = (textsAt this .undefined (List.range ss.length) >>= fun ts =>
      pure (joined sep ts)) w := bind_apply_of_ok _ hs.length
  rw [hjoin]
  cases hss : ss.mapM id with
  | error f =>
    have htext : joinText (.ok sep) ss = .error f := by rw [joinText, hss]; rfl
    rw [hss] at htexts
    rw [htext]
    exact bind_apply_of_error _ htexts
  | ok ts =>
    have htext : joinText (.ok sep) ss = .ok (sep.intercalate ts) := by rw [joinText, hss]; rfl
    rw [hss] at htexts
    obtain ⟨vs, hvs, hmap⟩ := htexts
    rw [htext]
    refine ⟨joined sep vs, bind_apply_of_ok _ hvs, item_joined sep ?_⟩
    rwa [← List.forall₂_eq_eq_eq, List.forall₂_map_left_iff, List.forall₂_map_right_iff] at hmap

theorem endsIn_runJoin (hs : w.Spells this ss)
    (hread : ∀ i < ss.length, Succeeds (Receiver.item this i) w) (args : List Value) :
    EndsIn w (runJoin this args) (joinText (separator? w args) ss) := by
  have hrun : runJoin this args w = (orFail (separator? w args) >>= fun sep => joinWith sep this) w := rfl
  cases hsep : separator? w args with
  | error f =>
    rw [hsep, orFail_error_bind_apply] at hrun
    exact ⟨w, refl_of Preserves w, hrun⟩
  | ok sep =>
    rw [hsep, orFail_bind_apply] at hrun
    rw [EndsIn, hrun]
    exact endsIn_joinWith h hthis hs hread sep

theorem succeeds_item_of_runJoin (hs : w.Spells this ss) {args : List Value}
    (hjoin : Succeeds (runJoin this args) w) : ∀ i < ss.length, Succeeds (Receiver.item this i) w := by
  obtain ⟨v, u, hv⟩ := hjoin
  have hrun : runJoin this args w = (orFail (separator? w args) >>= fun sep => joinWith sep this) w := rfl
  rw [hrun] at hv
  cases hsep : separator? w args with
  | error f =>
    rw [hsep] at hv
    cases hv
  | ok sep =>
    rw [hsep, orFail_bind_apply] at hv
    exact succeeds_item_of_joinWith h hthis hs ⟨v, u, hv⟩

end

/-- To join the receiver gives the text, or the fault for which there is none, whatever is added. -/
def JoinsTo (w : World) (this : Value) (args : List Value) (s : Except HostFault String) : Prop :=
  ∀ u, w.Preserves u → EndsIn u (runJoin this args) s

section

variable {w u : World} {this : Value} {args xs : List Value} {ss : List (Except HostFault String)}
  {sep : Except HostFault String} {prototype c : Ref .record}

theorem separator?_of_text {v : Value} {s : String} (w : World) (hv : v.content = .text s) :
    separator? w [v] = .ok s := by
  have hargument : argument [v] 0 = v := rfl
  rw [separator?, hargument]
  split
  · cases hv
  · rw [World.textOf?, World.textOf, World.hasText, hv]
    rfl

theorem separator?_eq (hc : w.Closed) (h : w.Sound) (hu : w.Preserves u)
    (hthere : w.backs (argument args 0) = true) (hgenuine : (argument args 0).IsGenuine) :
    separator? u args = separator? w args := by
  rw [separator?.eq_def, separator?.eq_def]
  split
  · rfl
  · exact hu.textOf?_eq hc h hthere hgenuine

theorem joinsTo_of_spells (hc : w.Closed) (h : w.Sound) (hthis : Receiver.IsArrayLike w this)
    (hthere : w.backs this = true) (hs : w.Spells this ss)
    (hread : ∀ i < ss.length, Succeeds (Receiver.item this i) w)
    (hsep : ∀ u, w.Preserves u → separator? u args = sep) : JoinsTo w this args (joinText sep ss) := by
  intro u hu
  rw [← hsep u hu]
  refine endsIn_runJoin (hu.reads h).1 (hthis.of_preserves hu) (hs.widen hc h hthis hthere hu) ?_ args
  intro i hi
  exact (Receiver.succeeds_item_iff_of_preserves hc h hthis hu
    (Receiver.hasItem_of_length h hthis hs.length hi)).mpr (hread i hi)

theorem exists_joinsTo {n : Nat} (hw : w.WellFormed) (h : w.Sound) (hthis : Receiver.IsArrayLike w this)
    (hthere : w.backs this = true) (hn : Receiver.length this w = .ok n w)
    (hread : ∀ i < n, Succeeds (Receiver.item this i) w)
    (hsep : ∀ u, w.Preserves u → separator? u args = sep) :
    ∃ ss, ss.length = n ∧ w.Spells this ss ∧ JoinsTo w this args (joinText sep ss) := by
  obtain ⟨ss, rfl, hss⟩ := exists_spells hw h hthis hthere hn
  exact ⟨ss, rfl, hss, joinsTo_of_spells hw.toClosed h hthis hthere hss hread hsep⟩

theorem joinsTo_of_isArray (h : w.Sound) (hc : w.records.Has c)
    (harray : (w.records.get c).IsArray prototype xs) (hxs : List.Forall₂ w.WrittenAs xs ss)
    (hlt : ss.length < Double.bound) (hsep : ∀ u, w.Preserves u → separator? u args = sep) :
    JoinsTo w (.record c) args (joinText sep (ss.take greatestLength)) := by
  intro u hu
  obtain ⟨hc', hsame⟩ := hu.record c hc
  rw [← hsame] at harray
  rw [← hsep u hu]
  exact endsIn_runJoin (hu.reads h).1 (.record c)
    (harray.spells hc' (hxs.imp fun x s hx => hx.widen hu) hlt) (fun i _ => ⟨_, u, rfl⟩) args

end

/-- The join of a concatenation of two spread values is that of the texts of both. -/
theorem exists_concat_joinsTo {w : World} {prototype : Ref .record} {a b : Value} {args : List Value}
    {as bs : List (Except HostFault String)} {sep : Except HostFault String} (hc : w.Closed)
    (h : w.Sound) (hvs : ∀ v ∈ [a, b], w.Concatenable prototype v ∧ w.Yields prototype v)
    (ha : w.IsSpread prototype a) (hb : w.IsSpread prototype b) (has : w.Spells a as)
    (hbs : w.Spells b bs) (hsep : ∀ u, w.Preserves u → separator? u args = sep) :
    ∃ c w', runConcat prototype a [b] w = .ok (.record c) w' ∧ w.Preserves w' ∧
      JoinsTo w' (.record c) args (joinText sep ((as ++ bs).take greatestLength)) := by
  obtain ⟨c, w', hv, hw', hconcat⟩ := exists_runConcat hc h (refl_of Preserves w) hvs
  obtain ⟨parts, hparts, harray⟩ := hconcat.items
  obtain ⟨xs, _, hxs, hrest, rfl⟩ := List.forall₂_cons_left_iff.mp hparts
  obtain ⟨ys, _, hys, hnone, rfl⟩ := List.forall₂_cons_left_iff.mp hrest
  cases hnone
  rw [List.flatten_cons, List.flatten_cons, List.flatten_nil, List.append_nil] at harray
  have hwritten : List.Forall₂ w'.WrittenAs (xs ++ ys) (as ++ bs) :=
    List.rel_append (hxs.written ha has hw') (hys.written hb hbs hw')
  refine ⟨c, w', hv, hw', ?_⟩
  have hfits : (as ++ bs).length < Double.bound := by
    have hlea := Receiver.length_le has.length
    have hleb := Receiver.length_le hbs.length
    have htwo : twoTo 54 = 2 * (greatestLength + 1) := by decide
    have hbound : twoTo 54 ≤ Double.bound := Double.twoTo_le_bound (by decide)
    rw [List.length_append]
    omega
  exact joinsTo_of_isArray (hw'.reads h).1 hconcat.has harray hwritten hfits fun u hu =>
    hsep u (trans_of Preserves hw' hu)

/-- The method `join` puts texts together. Where nothing refers to an object that there is not and no
box holds itself, let the receiver be an array-like one whose length has a number. Its items have texts,
one for each item whenever it is read, and empty ones for undefined and null. The join is made exactly
if all items can be read and all texts are written, and it is the texts in order with the separator
between them. The method `toString` joins with a comma. The join of a concatenation of two spread values
that have items is the join of the one, the separator and the join of the other, whatever is added
meanwhile. More items than the greatest length are not read of the concatenation. -/
theorem join_spec {w : World} (hw : Reachable w) (hwell : w.WellFormed) (call : Caller)
    (prototype : Ref .record) :
    (∀ this n, Receiver.IsArrayLike w this → w.backs this = true → Receiver.length this w = .ok n w →
      ∃ ss, ss.length = n ∧ w.Spells this ss ∧ ∀ args,
        (Succeeds (run call join prototype this args) w ↔
          (∀ i < n, Succeeds (Receiver.item this i) w) ∧ ∃ s, joinText (separator? w args) ss = .ok s) ∧
        ((∀ i < n, Succeeds (Receiver.item this i) w) →
          EndsIn w (run call join prototype this args) (joinText (separator? w args) ss))) ∧
    (∀ this args s, s.content = .text "," →
      run call toString prototype this args = run call join prototype this [s]) ∧
    (∀ a b args m n, w.IsSpread prototype a → w.IsSpread prototype b →
      (∀ v ∈ [a, b], w.Concatenable prototype v ∧ w.Yields prototype v) →
      Receiver.length a w = .ok m w → Receiver.length b w = .ok n w → 0 < m → 0 < n →
      w.backs (argument args 0) = true → (argument args 0).IsGenuine →
      ∃ as bs c w', as.length = m ∧ bs.length = n ∧
        JoinsTo w a args (joinText (separator? w args) as) ∧
        JoinsTo w b args (joinText (separator? w args) bs) ∧
        run call concat prototype a [b] w = .ok (.record c) w' ∧ w.Preserves w' ∧
        JoinsTo w' (.record c) args (joinText (separator? w args) ((as ++ bs).take greatestLength)) ∧
        (m + n ≤ greatestLength → JoinsTo w' (.record c) args do
          return (← joinText (separator? w args) as) ++ (← separator? w args) ++
            (← joinText (separator? w args) bs))) := by
  have hc := hwell.toClosed
  have h := hw.sound
  refine ⟨fun this n hthis hthere hn => ?_, fun this args s hs => ?_, ?_⟩
  · obtain ⟨ss, rfl, hss⟩ := exists_spells hwell h hthis hthere hn
    refine ⟨ss, rfl, hss, fun args => ?_⟩
    have hends : (∀ i < ss.length, Succeeds (Receiver.item this i) w) →
        EndsIn w (runJoin this args) (joinText (separator? w args) ss) := fun hread =>
      endsIn_runJoin h hthis hss hread args
    refine ⟨⟨fun hjoin => ?_, fun ⟨hread, htext⟩ => (hends hread).succeeds_iff.mpr htext⟩, hends⟩
    have hread := succeeds_item_of_runJoin h hthis hss hjoin
    exact ⟨hread, (hends hread).succeeds_iff.mp hjoin⟩
  · funext u
    have hcomma : separator? u [s] = .ok "," := separator?_of_text u hs
    show joinWith "," this u = (orFail (separator? u [s]) >>= fun sep => joinWith sep this) u
    rw [hcomma, orFail_bind_apply]
  · intro a b args m n ha hb hvs hm hn hmpos hnpos hthere hgenuine
    have hsep : ∀ u, w.Preserves u → separator? u args = separator? w args := fun u hu =>
      separator?_eq hc h hu hthere hgenuine
    have hva := hvs a List.mem_cons_self
    have hvb := hvs b (List.mem_cons_of_mem a List.mem_cons_self)
    obtain ⟨as, rfl, has, hajoin⟩ := exists_joinsTo hwell h (ha.isArrayLike hva.1.there) hva.1.there hm
      (hva.2 ha m hm) hsep
    obtain ⟨bs, rfl, hbs, hbjoin⟩ := exists_joinsTo hwell h (hb.isArrayLike hvb.1.there) hvb.1.there hn
      (hvb.2 hb n hn) hsep
    obtain ⟨c, w', hconcat, hw', hcjoin⟩ := exists_concat_joinsTo hc h hvs ha hb has hbs hsep
    refine ⟨as, bs, c, w', rfl, rfl, hajoin, hbjoin, hconcat, hw', hcjoin, fun hle => ?_⟩
    rwa [List.take_of_length_le (by rwa [List.length_append]), joinText_append _
      (List.ne_nil_of_length_pos hmpos) (List.ne_nil_of_length_pos hnpos)] at hcjoin

theorem wellFormed_medley : medley.WellFormed := by
  have hentries : ∀ e ∈ medley.records.items, ∀ p ∈ e,
      p.2.content ∈ ([.record ⟨0⟩, .int 1, .int 2, .text "reed"] : List Value) := by decide +kernel
  have hcontents : ∀ c ∈ ([.record ⟨0⟩, .int 1, .int 2, .text "reed"] : List Value),
      c.content = c ∧ ∀ t x, c ≠ .scalar t x := by simp [Value.content]
  refine ⟨by constructor <;> decide +kernel, fun e he p hp => ?_⟩
  obtain ⟨hself, hscalar⟩ := hcontents _ (hentries e he p hp)
  exact .of_content rfl hself hscalar

/-- The view and the script array of a hole and a text are joined with a semicolon, and so is what they
are put together to. -/
theorem join_of_concat :
    JoinsTo medley (.view ⟨0⟩) [.text ";"] (.ok "4;5") ∧
      JoinsTo medley (.record ⟨1⟩) [.text ";"] (.ok ";reed") ∧
      ∃ c w', run (fun _ _ _ => pure .undefined) concat ⟨0⟩ (.view ⟨0⟩) [.record ⟨1⟩] medley =
          .ok (.record c) w' ∧ JoinsTo w' (.record c) [.text ";"] (.ok "4;5;;reed") := by
  have hspread : medley.IsSpread ⟨0⟩ (.record ⟨1⟩) := isSpreadable_iff.mp (by decide)
  have hmembers : ∀ v ∈ ([.view ⟨0⟩, .record ⟨1⟩] : List Value),
      v ∈ ([.view ⟨0⟩, .record ⟨1⟩, .record ⟨2⟩, .int 7] : List Value) := by decide
  have hgenuine : (Value.text ";").IsGenuine := .of_self rfl (by simp)
  obtain ⟨-, -, hconcat⟩ :=
    join_spec reachable_medley wellFormed_medley (fun _ _ _ => pure .undefined) ⟨0⟩
  obtain ⟨as, bs, c, w', -, -, ha, hb, hc, -, -, hjoin⟩ := hconcat (.view ⟨0⟩) (.record ⟨1⟩) [.text ";"] 2 2
    True.intro hspread (fun v hv => concatenable_medley v (hmembers v hv)) (length_medley (.inl rfl))
    (length_medley (.inr rfl)) (by decide) (by decide) rfl hgenuine
  have hsep : separator? medley [.text ";"] = .ok ";" := separator?_of_text medley rfl
  have htext : ∀ {this s t}, JoinsTo medley this [.text ";"] s →
      ((runJoin this [.text ";"]).run' medley).map Value.item = some (.text t) → s = .ok t := by
    intro this s t hs ht
    obtain ⟨u, -, hu⟩ := hs medley (refl_of Preserves medley)
    rw [EStateM.run', EStateM.run] at ht
    cases s with
    | error f =>
      rw [show runJoin this [.text ";"] medley = _ from hu] at ht
      cases ht
    | ok s =>
      obtain ⟨v, hv, hitem⟩ := hu
      rw [hv] at ht
      exact congrArg Except.ok (Value.text.inj (hitem.symm.trans (Option.some.inj ht)))
  have hfirst := htext ha (t := "4;5") (by decide +kernel)
  have hsecond := htext hb (t := ";reed") (by decide +kernel)
  have hlast := hjoin (by decide)
  rw [hfirst] at ha hlast
  rw [hsecond] at hb hlast
  rw [hsep] at hlast
  exact ⟨ha, hb, c, w', hc, hlast⟩

end ArrayMethod
end ScriptedArrays
