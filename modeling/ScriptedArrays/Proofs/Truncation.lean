import ScriptedArrays.Proofs.NestedValues
import ScriptedArrays.Proofs.Reconverting
import ScriptedArrays.Proofs.TextSlots
import ScriptedArrays.Proofs.Traces

/-! Cutting texts. Whether texts may be cut makes a difference only where a text is too long: a
conversion that does not cut gives what one that cuts gives, or is refused. What is cut instead of
being refused holds in each cell the longest beginning of its text for which the cell has room. -/

namespace ScriptedArrays

open World

def Relaxes {α : Type} (x y : Except Refusal α) : Prop :=
  x = y ∨ ∃ given target reason, x = .error (.unfit given target reason)

namespace Relaxes

variable {α β : Type} {x y : Except Refusal α}

theorem refl (x : Except Refusal α) : Relaxes x x := .inl rfl

theorem bind {f g : α → Except Refusal β} (h : Relaxes x y) (hf : ∀ a, Relaxes (f a) (g a)) :
    Relaxes (x >>= f) (y >>= g) := by
  rcases h with rfl | ⟨given, target, reason, rfl⟩
  · cases x with
    | ok a => exact hf a
    | error e => exact .refl _
  · exact .inr ⟨given, target, reason, rfl⟩

end Relaxes

namespace Conversion

variable {w : World} {cell : CellType} {v : Value}

theorem relaxes_fitText (given : Value) (n : Nat) (s : String) :
    Relaxes (fitText false given cell n s) (fitText true given cell n s) := by
  rw [fitText, fitText]
  split
  · exact .refl _
  · exact .inr ⟨_, _, _, rfl⟩

theorem relaxes_toCell (w : World) (cell : CellType) (v : Value) :
    Relaxes (toCell w false cell v) (toCell w true cell v) := by
  simp only [toCell]
  cases cell.content with
  | text n =>
    exact (Relaxes.refl _).bind fun s => (relaxes_fitText v n s).bind fun t => .refl _
  | bytes n =>
    exact (Relaxes.refl _).bind fun s => (relaxes_fitText v n s).bind fun t => .refl _
  | _ => exact .refl _

theorem toCell_of_not_isText (ht : ¬ cell.content.IsText) (v : Value) :
    toCell w false cell v = toCell w true cell v := by
  cases hc : cell.content with
  | text n | bytes n =>
    rw [hc] at ht
    exact absurd True.intro ht
  | _ => simp only [toCell, hc]

theorem relaxes_each {f g : Operand → Except Refusal (List Value)} (h : ∀ x, Relaxes (f x) (g x))
    (items : List Operand) : Relaxes (each f items) (each g items) := by
  induction items with
  | nil => exact .refl _
  | cons x items ih => exact (h x).bind fun cells => ih.bind fun rest => .refl _

theorem relaxes_toCells (w : World) (cell : CellType) (shape : List Nat) (given : Operand) :
    Relaxes (toCells w false cell shape given) (toCells w true cell shape given) := by
  induction shape generalizing given with
  | nil =>
    cases given with
    | plain v => exact (relaxes_toCell w cell v).bind fun c => .refl _
    | window win => exact .refl _
  | cons n shape ih =>
    rcases toCells_cases w false cell n shape given with
      ⟨win, hwin, hs, hsafe⟩ | ⟨items, hrows⟩ | ⟨_, hunfit⟩ | ⟨r, length, f, hg, hlength, hf, hfault⟩
    · rw [toCells_of_safe hwin hs hsafe, toCells_of_safe hwin hs hsafe]
      exact .refl _
    · rw [toCells_of_rows hrows, toCells_of_rows hrows]
      exact (relaxes_each ih items).bind fun cells => .refl _
    · exact .inr ⟨_, _, _, hunfit⟩
    · refine .inl (hfault.trans ?_)
      rw [toCells, hg]
      dsimp only
      rw [hlength]
      dsimp only
      rw [hf]
      rfl

theorem toCells_of_not_isText (ht : ¬ cell.content.IsText) (shape : List Nat) :
    toCells w false cell shape = toCells w true cell shape := by
  induction shape with
  | nil =>
    funext given
    cases given with
    | plain v => rw [toCells, toCells, toCell_of_not_isText ht]
    | window win => rfl
  | cons n shape ih =>
    funext given
    rw [toCells, toCells, ih]

end Conversion

/-- A conversion without cutting comes to a part that does not fit, and this part has too many digits
to be named. -/
def World.BreaksUnnamed (w : World) (slot : SlotType) (v : Value) : Prop :=
  ∃ inner part, Conversion.BreaksAt w false slot.cell slot.shape (.plain v) inner part ∧
    w.quotableOperand part = false

theorem convert_of_breaksUnnamed {w : World} {slot : SlotType} {v : Value}
    (h : w.BreaksUnnamed slot v) : convert false slot v w = .error (.host .value) w := by
  obtain ⟨inner, part, hbreaks, hq⟩ := h
  obtain ⟨reason, hreason⟩ := Conversion.toCells_of_breaksAt hbreaks
  rcases convert_eq_toCells false slot v w with ⟨x, u, -, -, cells, hc⟩ | ⟨r, hc, hr⟩
  · cases hc.symm.trans hreason
  · cases hc.symm.trans hreason
    rw [hr, refuseWith_unwritten hq]

/-- A conversion that does not cut does what one that cuts does, or a text is too long for it. -/
theorem convert_relaxes (w : World) (slot : SlotType) (v : Value) :
    convert false slot v w = convert true slot v w ∨ slot.cell.content.IsText ∧
      ∃ given target reason,
        Conversion.toCells w false slot.cell slot.shape (.plain v) =
          .error (.unfit given target reason) ∧
        convert false slot v w = refuseWith (.unfit given target reason) w := by
  by_cases ht : slot.cell.content.IsText
  · by_cases hn : slot.isNested = true
    · rcases Conversion.relaxes_toCells w slot.cell slot.shape (.plain v) with
        hsame | ⟨given, target, reason, hcells⟩
      · left
        rw [convert, get_bind_apply, convert, get_bind_apply, if_pos hn, if_pos hn, hsame]
      · exact .inr ⟨ht, given, target, reason, hcells, convert_of_refused hn hcells⟩
    · rcases Conversion.relaxes_toCell w slot.cell v with hsame | ⟨given, target, reason, hcell⟩
      · left
        rw [convert, get_bind_apply, convert, get_bind_apply, if_neg hn, if_neg hn, hsame]
      · have hshape : slot.shape = [] := by simpa [SlotType.isNested] using hn
        refine .inr ⟨ht, given, target, reason, ?_, convert_plain_refused hn hcell⟩
        rw [hshape, Conversion.toCells, hcell]
        rfl
  · left
    rw [convert, get_bind_apply, convert, get_bind_apply, Conversion.toCells_of_not_isText ht,
      Conversion.toCell_of_not_isText ht]

/-- The second text is the longest beginning of the first one that has at most `n` characters. -/
structure LongestPrefix (n : Nat) (s t : String) : Prop where
  isPrefix : t.toList <+: s.toList
  fits : t.length ≤ n
  longest : ∀ u : String, u.toList <+: s.toList → u.length ≤ n → u.toList <+: t.toList

theorem longestPrefix_self {n : Nat} {s : String} (h : s.length ≤ n) : LongestPrefix n s s :=
  ⟨List.prefix_rfl, h, fun _ hu _ => hu⟩

theorem longestPrefix_take (n : Nat) (s : String) :
    LongestPrefix n s (String.ofList (s.toList.take n)) := by
  refine ⟨?_, ?_, fun u hu hn => ?_⟩
  · rw [String.toList_ofList]
    exact List.take_prefix n s.toList
  · rw [← String.length_toList, String.toList_ofList]
    exact List.length_take_le n s.toList
  · rw [String.toList_ofList]
    exact List.prefix_take_iff.mpr ⟨hu, by rwa [String.length_toList]⟩

/-- Cells of this kind hold texts of up to `n` characters. -/
def Content.HasCapacity (c : Content) (n : Nat) : Prop := c = .text n ∨ c = .bytes n

/-- The content is the text as cells of this kind hold it: in Latin-1 if they hold bytes. -/
def Content.Spells : Content → String → Value → Prop
  | .text _, t, c => c = .text t
  | .bytes _, t, c => ∃ b, c = .bytes b ∧ Latin.encode? t = some b
  | _, _, _ => False

def World.leafText (w : World) (v : Value) : String :=
  match (w.hostValue v).item with
  | .bytes b => Latin.decode b
  | x => w.textOf x

theorem Content.IsText.exists_capacity {c : Content} (h : c.IsText) : ∃ n, c.HasCapacity n := by
  cases c with
  | text n => exact ⟨n, .inl rfl⟩
  | bytes n => exact ⟨n, .inr rfl⟩
  | _ => exact h.elim

theorem Content.HasCapacity.not_isObject {t : CellType} {n : Nat} (h : t.content.HasCapacity n) :
    t.isObject = false := by
  rcases h with h | h <;> simp [CellType.isObject, h]

theorem spells_stored {t : CellType} {n : Nat} {s : String} {c : Value} (h : t.content.HasCapacity n)
    (hc : t.content.Spells s c) : t.content.Spells (dropNuls s) (t.stored c) := by
  rw [CellType.stored, if_neg (by simp [h.not_isObject])]
  rcases h with h | h <;> rw [h] at hc ⊢
  · obtain rfl : c = .text s := hc
    rfl
  · obtain ⟨b, rfl, hb⟩ := hc
    refine ⟨dropNulBytes b, rfl, ?_⟩
    rw [← Latin.decode_of_encode? hb, dropNuls_decode, Latin.encode?_decode]

namespace Conversion

variable {w : World} {cell : CellType} {v c : Value} {n : Nat}

theorem leafText_of_cellText {s : String} (h : cellText w v (w.hostValue v).item cell = .ok s) :
    w.leafText v = s := by
  have htext : ∀ x, lift (w.textOf? x) = .ok s → w.textOf x = s := by
    intro x hx
    cases ht : w.textOf? x with
    | ok t =>
      rw [ht] at hx
      cases hx
      exact (textOf?_eq_ok_iff.mp ht).2
    | error f =>
      rw [ht] at hx
      cases hx
  rw [World.leafText]
  cases hv : (w.hostValue v).item with
  | bytes b =>
    rw [hv] at h
    cases h
    rfl
  | null | undefined =>
    rw [hv] at h
    cases h
  | _ =>
    rw [hv] at h
    exact htext _ h

theorem longestPrefix_of_fitText {s t : String} (h : fitText true v cell n s = .ok t) :
    LongestPrefix n s t := by
  rw [fitText] at h
  split at h
  · rename_i hle
    cases h
    exact longestPrefix_self hle
  · cases h
    exact longestPrefix_take n s

/-- What a text cell makes of a value is the longest beginning of its text that fits. -/
theorem spells_of_toCell (hn : cell.content.HasCapacity n) (h : toCell w true cell v = .ok c) :
    ∃ t, LongestPrefix n (w.leafText v) t ∧ cell.content.Spells t c := by
  rcases hn with hc | hc
  · simp only [toCell, hc] at h
    obtain ⟨s, hs, h⟩ := ok_of_bind h
    obtain ⟨t, ht, h⟩ := ok_of_bind h
    cases h
    rw [leafText_of_cellText hs, hc]
    exact ⟨t, longestPrefix_of_fitText ht, rfl⟩
  · simp only [toCell, hc] at h
    obtain ⟨s, hs, h⟩ := ok_of_bind h
    obtain ⟨t, ht, h⟩ := ok_of_bind h
    rw [leafText_of_cellText hs, hc]
    cases hb : Latin.encode? t with
    | none =>
      rw [hb] at h
      cases h
    | some b =>
      rw [hb] at h
      cases h
      exact ⟨t, longestPrefix_of_fitText ht, b, rfl, hb⟩

end Conversion

/-- What a conversion with cutting gives: for a single cell the longest beginning of the text that
fits, and for a row in each cell that of the value with its indices, without the NULs at its end. -/
structure World.HoldsPrefixes (w : World) (slot : SlotType) (v : Value) (u : World) (x : Value)
    (n : Nat) : Prop where
  single : slot.shape = [] → ∃ t, LongestPrefix n (w.leafText v) t ∧
    slot.cell.content.Spells t x.content
  nested : slot.shape ≠ [] → ∃ a, x = .array a ∧ (u.arrays.get a).shape = slot.shape ∧
    ∀ path, InRange path slot.shape → path.length = slot.shape.length →
      ∃ y s t, w.valueAt? path v = some y ∧ LongestPrefix n (w.leafText y) s ∧ LosesNuls s t ∧
        slot.cell.content.Spells t (u.cellAt (u.arrays.get a) path)

section Convert

variable {w u : World} {slot : SlotType} {v x : Value} {n : Nat}

theorem holdsPrefixes_of_convert (h : w.Sound) (hn : slot.cell.content.HasCapacity n)
    (hf : w.IsArrayFree (.plain v)) (hx : convert true slot v w = .ok x u) :
    w.HoldsPrefixes slot v u x n := by
  have ho : slot.cell.isObject = false := hn.not_isObject
  constructor
  · intro hshape
    have hplain : ¬ slot.isNested = true := by simp [SlotType.isNested, hshape]
    obtain ⟨rfl, c, hc, rfl⟩ := (convert_plain_ok_iff hplain ho).mp hx
    obtain ⟨t, ht, hspells⟩ := Conversion.spells_of_toCell hn hc
    have hcontent : c.content = c := by
      rcases hn with hn | hn <;> rw [hn] at hspells
      · rw [show c = .text t from hspells]
        rfl
      · obtain ⟨b, rfl, -⟩ := hspells
        rfl
    rw [content_sameText hcontent]
    exact ⟨t, ht, hspells⟩
  · intro hshape
    have hnested : slot.isNested = true := by simpa [SlotType.isNested] using hshape
    have hproper : slot.cell.content.IsProper := by
      rcases hn with hn | hn <;> rw [hn] <;> exact True.intro
    cases hc : Conversion.toCells w true slot.cell slot.shape (.plain v) with
    | error e =>
      obtain ⟨f, u', hfails⟩ := convert_fails hnested hc
      rw [hfails] at hx
      cases hx
    | ok cells =>
      obtain ⟨a, u', hu, -, hsame, hcells⟩ := convert_of_isArrayFree h hnested ho hproper hf hc
      rw [hu] at hx
      cases hx
      refine ⟨a, rfl, hsame, fun path hr hl => ?_⟩
      obtain ⟨y, c, hy, hcell, hplace⟩ := (Conversion.nest_of_toCells h hf hc).2 path hr hl
      obtain ⟨s, hs, hspells⟩ := Conversion.spells_of_toCell hn hcell
      rw [hcells path hr hl] at hplace
      rw [Option.some.inj hplace]
      exact ⟨y, s, dropNuls s, hy, hs, losesNuls_dropNuls s, spells_stored hn hspells⟩

end Convert

/-- Cutting turns refusals for length into prefixes and changes nothing else. A conversion without
it gives what one with it gives. Where the one with it is refused, so is the one without it, unless
the part that this one comes to has too many digits to be named: then the host fails. If only the one
with it succeeds, the cells hold texts, and each of them the longest beginning that fits of the text
at its place. -/
theorem convert_truncating {w : World} (hw : Reachable w) (slot : SlotType) (v : Value) :
    (∀ x u, convert false slot v w = .ok x u → convert true slot v w = .ok x u) ∧
    (∀ value target reason u,
      convert true slot v w = .error (.cannotConvert value target reason) u →
      (¬ w.BreaksUnnamed slot v → ∃ value' target' reason' u',
        convert false slot v w = .error (.cannotConvert value' target' reason') u') ∧
      (w.BreaksUnnamed slot v → convert false slot v w = .error (.host .value) w)) ∧
    (w.IsArrayFree (.plain v) → ∀ x u, convert true slot v w = .ok x u →
      (∀ x' u', convert false slot v w ≠ .ok x' u') →
      ∃ n, slot.cell.content.HasCapacity n ∧ w.HoldsPrefixes slot v u x n) := by
  rcases convert_relaxes w slot v with hsame | ⟨htext, given, target, reason, hcells, hrefused⟩
  · rw [← hsame]
    refine ⟨fun _ _ hx => hx, fun value target reason u hf => ?_, fun _ x u hx hno => ?_⟩
    · exact ⟨fun _ => ⟨value, target, reason, u, hf⟩, convert_of_breaksUnnamed⟩
    · exact absurd hx (hno x u)
  · refine ⟨fun x u hx => ?_, fun _ _ _ _ _ => ⟨fun hno => ?_, convert_of_breaksUnnamed⟩,
      fun hf x u hx _ => ?_⟩
    · obtain ⟨f, l, hfails⟩ := refuseWith_eq (α := Value) (.unfit given target reason) w
      rw [hrefused, hfails] at hx
      cases hx
    · cases hq : w.quotableOperand given with
      | true =>
        obtain ⟨l, hl⟩ := refuseWith_unfit hq target reason
        exact ⟨_, target, reason, _, hrefused.trans hl⟩
      | false =>
        obtain ⟨inner, hbreaks, -⟩ := Conversion.breaksAt_of_toCells hcells
        exact absurd ⟨inner, given, hbreaks, hq⟩ hno
    · obtain ⟨n, hn⟩ := htext.exists_capacity
      exact ⟨n, hn, holdsPrefixes_of_convert hw.sound hn hf hx⟩

theorem eq_of_hasPart {w : World} {y v : Value} (hy : (w.hostValue y).item.IsPrimitive)
    (h : w.HasPart (.plain y) v) : v = y := by
  have hcontent := contentOf_plain (w := w) (v := y) fun r hr => by
    rw [hr] at hy
    exact hy
  cases h with
  | self => rfl
  | listItem hg | tupleItem hg | entry name hg =>
    rw [hcontent, Operand.plain.injEq] at hg
    rw [hg] at hy
    exact hy.elim
  | slot hg =>
    rw [hcontent] at hg
    cases hg

def labels : World := World.empty.afterAll [.newList [.text "maple", .text "fi\x00"]]

theorem reachable_labels : Reachable labels := by
  apply Reachable.start.afterAll
  simp [Operation.IsProper]

theorem isArrayFree_labels : labels.IsArrayFree (.plain (.list ⟨0⟩)) := by
  have htext : ∀ x ∈ labels.lists.get ⟨0⟩, (labels.hostValue x).item.IsPrimitive := by
    intro x hx
    have hitems : labels.lists.get ⟨0⟩ = [.kept 0 (.text "maple"), .kept 1 (.text "fi\x00")] := rfl
    rw [hitems] at hx
    rcases hx with - | ⟨-, - | ⟨-, ⟨⟩⟩⟩ <;> exact True.intro
  intro v r hv
  cases hv with
  | self => exact nofun
  | listItem hg hx h =>
    cases hg
    obtain rfl := eq_of_hasPart (htext _ hx) h
    intro hr
    have hprimitive := htext _ hx
    rw [hr] at hprimitive
    exact hprimitive.elim
  | tupleItem hg => cases hg
  | entry name hg => cases hg
  | slot hg => cases hg

/-- For fields of three characters the labels are refused, unless they may be cut. -/
theorem convert_cuts_long_text :
    (∃ f u, convert false ⟨.native (.text 3), [2]⟩ (.list ⟨0⟩) labels = .error f u) ∧
    ∃ a u, convert true ⟨.native (.text 3), [2]⟩ (.list ⟨0⟩) labels = .ok (.array a) u ∧
      ∃ s t, LongestPrefix 3 "maple" s ∧ LosesNuls s t ∧
        u.cellAt (u.arrays.get a) [0] = .text t := by
  obtain ⟨f, u', hoff⟩ : ∃ f u',
      convert false ⟨.native (.text 3), [2]⟩ (.list ⟨0⟩) labels = .error f u' := ⟨_, _, rfl⟩
  obtain ⟨x, u, hon⟩ : ∃ x u,
      convert true ⟨.native (.text 3), [2]⟩ (.list ⟨0⟩) labels = .ok x u := ⟨_, _, rfl⟩
  have hno : ∀ x' u', convert false ⟨.native (.text 3), [2]⟩ (.list ⟨0⟩) labels ≠ .ok x' u' := by
    rw [hoff]
    exact nofun
  obtain ⟨n, hn, hprefixes⟩ := (convert_truncating reachable_labels ⟨.native (.text 3), [2]⟩
    (.list ⟨0⟩)).2.2 isArrayFree_labels x u hon hno
  obtain rfl : n = 3 := by
    rcases hn with hn | hn <;> cases hn
    rfl
  obtain ⟨a, rfl, -, hcells⟩ := hprefixes.nested (List.cons_ne_nil _ _)
  obtain ⟨y, s, t, hy, hs, ht, hspells⟩ := hcells [0] ⟨by decide, True.intro⟩ rfl
  cases hy
  exact ⟨⟨f, u', hoff⟩, a, u, hon, s, t, hs, ht, hspells⟩

end ScriptedArrays
