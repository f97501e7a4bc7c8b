import ScriptedArrays.Proofs.NumberTexts
import ScriptedArrays.Proofs.SlotAccess

/-! Written texts. A text is written unless it shows an integer with too many digits, so a value
that holds no such integer, neither directly nor through other objects, has all its texts. Every
integer with a number is short enough. -/

namespace ScriptedArrays

open World

namespace Display

variable {v : Value}

theorem isWritten_of_int {i : Int} (hv : v.content = .int i) :
    isWritten v = true ↔ i.natAbs < 10 ^ digitLimit := by
  rw [isWritten, hv, decide_eq_true_eq]
  exact Nat.length_toDigits_le_iff (by decide) (by decide)

theorem isWritten_of_not_int (hv : ∀ i, v.content ≠ .int i) : isWritten v = true := by
  rw [isWritten]
  split
  · next i hi => exact absurd hi (hv i)
  · rfl

theorem isWritten_iff :
    isWritten v = true ↔ ∀ i, v.content = .int i → i.natAbs < 10 ^ digitLimit := by
  by_cases hv : ∃ i, v.content = .int i
  · obtain ⟨i, hi⟩ := hv
    rw [isWritten_of_int hi]
    refine ⟨fun h j hj => ?_, fun h => h i hi⟩
    cases hi.symm.trans hj
    exact h
  · exact iff_of_true (isWritten_of_not_int (not_exists.mp hv)) fun i hi => absurd ⟨i, hi⟩ hv

variable {α : Type} {holds : Bool} {a : α}

@[simp] theorem written_true (a : α) : written true a = .ok a := rfl

@[simp] theorem written_false (a : α) : written false a = .error .value := rfl

theorem written_eq_ok_iff {b : α} : written holds a = .ok b ↔ holds = true ∧ a = b := by
  cases holds <;> simp

end Display

theorem Double.bound_le_pow : bound ≤ 10 ^ digitLimit := by
  have hten : ∀ k ≤ digitLimit, twoTo k ≤ 10 ^ digitLimit := fun k hk =>
    Nat.le_trans (Nat.pow_le_pow_left (by decide) k) (Nat.pow_le_pow_right (by decide) hk)
  exact Nat.le_trans (Nat.sub_le _ _) (hten 1024 (by decide))

namespace ArrayText

theorem mem_of_mem_shown {α : Type} {summary : Bool} {xs : List α} {x : α}
    (h : some x ∈ shown summary xs) : x ∈ xs := by
  rw [shown] at h
  split at h
  · simp only [List.mem_append, List.mem_map, Option.some.injEq, exists_eq_right, List.mem_singleton,
      reduceCtorEq, or_false] at h
    exact h.elim List.mem_of_mem_take List.mem_of_mem_drop
  · simpa using h

theorem mem_of_mem_inSight {summary : Bool} {shape : List Nat} {vs : List Value} {v : Value}
    (h : v ∈ inSight summary shape vs) : v ∈ vs := by
  induction shape generalizing vs with
  | nil => exact h
  | cons n shape ih =>
    rw [inSight, List.mem_flatMap] at h
    obtain ⟨piece, hpiece, hv⟩ := h
    rw [List.mem_filterMap] at hpiece
    obtain ⟨_, hshown, rfl⟩ := hpiece
    exact mem_of_mem_pieces (mem_of_mem_shown hshown) v (ih hv)

theorem mem_of_mem_objectsInSight {win : Window} {vs : List Value} {v : Value}
    (h : v ∈ objectsInSight win vs) : v ∈ vs := by
  rw [objectsInSight] at h
  split at h
  · exact absurd h List.not_mem_nil
  · exact mem_of_mem_inSight h

end ArrayText

namespace World

variable {w : World} {v x : Value}

def parts (w : World) : Value → List Value
  | .list r => w.lists.get r
  | .tuple r => w.tuples.get r
  | .record r => (w.records.get r).map (·.2)
  | .array r => .undefined :: w.cells (w.arrays.get r)
  | .box b => [(w.boxes.get b).value]
  | _ => []

inductive Contains (w : World) : Value → Value → Prop
  | self (v : Value) : w.Contains v v
  | item {v x : Value} (h : w.Contains v.item x) : w.Contains v x
  | part {v y x : Value} (hy : y ∈ w.parts v) (h : w.Contains y x) : w.Contains v x
  | shown {r : Ref .view} {x : Value} (h : w.Contains (.array (w.views.get r).array) x) :
      w.Contains (.view r) x

/-- All integers that the value holds are short enough to be written. -/
def IsLegible (w : World) (v : Value) : Prop := ∀ x, w.Contains v x → Display.isWritten x = true

theorem IsLegible.item (h : w.IsLegible v) : w.IsLegible v.item := fun x hx => h x (.item hx)

theorem IsLegible.part (h : w.IsLegible v) (hx : x ∈ w.parts v) : w.IsLegible x :=
  fun y hy => h y (.part hx hy)

theorem isLegible_of_mem (vs : List Value) (hvs : ∀ x ∈ vs, Display.isWritten x = true ∧
    x.item ∈ vs ∧ w.hostValue x ∈ vs ∧ ∀ y ∈ w.parts x, y ∈ vs) : ∀ v ∈ vs, w.IsLegible v := by
  intro v hv x hx
  induction hx with
  | self v => exact (hvs v hv).1
  | item _ ih => exact ih (hvs _ hv).2.1
  | part hy _ ih => exact ih ((hvs _ hv).2.2.2 _ hy)
  | shown _ ih => exact ih (hvs _ hv).2.2.1

theorem isLegible_undefined (w : World) : w.IsLegible .undefined :=
  isLegible_of_mem [.undefined]
    (by simp [Display.isWritten, Value.content, Value.item, hostValue, parts]) _ List.mem_cons_self

theorem IsLegible.scalar {t : CellType} (h : w.IsLegible v) : w.IsLegible (.scalar t v) := by
  intro x hx
  generalize hv : Value.scalar t v = y at hx
  induction hx with
  | self => subst hv; rfl
  | item hx _ => subst hv; exact h _ hx
  | part hy => subst hv; exact absurd hy List.not_mem_nil
  | shown => cases hv

theorem IsLegible.hostValue (h : w.IsLegible v) : w.IsLegible (w.hostValue v) := by
  cases v with
  | view r => exact fun x hx => h x (.shown hx)
  | box b => exact h.part List.mem_cons_self
  | _ => exact h

theorem IsLegible.quotableFrom (h : w.IsLegible v) (fuel : Nat) (path : List Value) :
    w.quotableFrom fuel path v = true := by
  induction fuel generalizing path v with
  | zero => rfl
  | succ fuel ih =>
    have hparts : ∀ x ∈ w.parts v, w.quotableFrom fuel (v :: path) x = true := fun x hx =>
      ih (h.part hx) (v :: path)
    cases v with
    | list r | tuple r =>
      rw [World.quotableFrom, Bool.or_eq_true, List.all_eq_true]
      exact .inr hparts
    | record r =>
      rw [World.quotableFrom, Bool.or_eq_true, List.all_eq_true]
      exact .inr fun e he => hparts e.2 (List.mem_map_of_mem he)
    | array r =>
      rw [World.quotableFrom, Bool.or_eq_true, List.all_eq_true]
      refine .inr fun x hx => hparts x (List.mem_cons_of_mem _ ?_)
      exact ArrayText.mem_of_mem_objectsInSight hx
    | box b => exact hparts _ List.mem_cons_self
    | _ => exact h _ (.self _)

theorem IsLegible.quotable (h : w.IsLegible v) : w.quotable v = true := h.quotableFrom _ _

theorem IsLegible.cells {r : Ref .array} (h : w.IsLegible (.array r)) :
    ∀ x ∈ w.cells (w.arrays.get r), w.IsLegible x :=
  fun _ hx => h.part (List.mem_cons_of_mem _ hx)

theorem mem_cells_iff {win : Window} {c : Value} : c ∈ w.cells win ↔
    ∃ k < win.size, (w.buffers.get win.buffer)[win.start + k]? = some c := by
  rw [World.cells, Array.mem_toList_iff, Array.mem_iff_getElem?]
  constructor
  · rintro ⟨k, hk⟩
    rw [Array.getElem?_extract] at hk
    split at hk
    · exact ⟨k, by omega, hk⟩
    · cases hk
  · rintro ⟨k, hlt, hk⟩
    have hin := (Array.getElem?_eq_some_iff.mp hk).1
    exact ⟨k, by rwa [Array.getElem?_extract, if_pos (by omega)]⟩

theorem cell_eq_undefined_or_mem {win : Window} {k : Nat} (hk : k < win.size) :
    w.cell win k = .undefined ∨ w.cell win k ∈ w.cells win := by
  rw [cell]
  cases hc : (w.buffers.get win.buffer)[win.start + k]? with
  | none => exact .inl rfl
  | some c => exact .inr (mem_cells_iff.mpr ⟨k, hk, hc⟩)

theorem IsLegible.entry {r : Ref .record} (h : w.IsLegible (.record r)) (name : String) :
    w.IsLegible ((w.records.get r).getD name .undefined) := by
  rw [Entries.getD]
  cases hv : (w.records.get r).get? name with
  | none => exact isLegible_undefined w
  | some v =>
    obtain ⟨e, he, rfl⟩ := Option.map_eq_some_iff.mp hv
    exact h.part (List.mem_map_of_mem (List.mem_of_find?_eq_some he))

theorem IsLegible.of_content {c : Value} (h : w.IsLegible v) (hc : v.content = c)
    (hscalar : ∀ t x, c ≠ .scalar t x) : w.IsLegible c := by
  have hitem : v.item = c := by
    rw [Value.item, hc]
    split
    · exact absurd rfl (hscalar _ _)
    · rfl
  exact hitem ▸ h.item

theorem IsLegible.of_plain_box {r : Ref .box} (h : w.IsLegible v) (hr : v.plain = .box r) :
    w.IsLegible (.box r) := by
  have hitem : v.item = .box r := by
    rw [Value.plain] at hr
    rw [Value.item]
    split at hr
    case h_5 => simp [hr]
    all_goals next hc => simpa [hc] using hr
  exact hitem ▸ h.item

theorem IsLegible.displayableFrom (h : w.IsLegible v) (fuel : Nat) :
    w.displayableFrom fuel v = true := by
  induction fuel generalizing v with
  | zero => rfl
  | succ fuel ih =>
    rw [World.displayableFrom]
    cases hc : v.content with
    | array r =>
      have harray : w.IsLegible (.array r) := h.of_content hc (by simp)
      dsimp only
      split
      · rename_i hs
        have hsize : (w.arrays.get r).size = 1 := by rw [Window.size, List.isEmpty_iff.mp hs, cellCount]
        rw [ih (harray.part (List.mem_cons.mpr (cell_eq_undefined_or_mem (by omega)))), Bool.or_true]
      · refine List.all_eq_true.mpr fun x hx => ?_
        exact (harray.cells x (ArrayText.mem_of_mem_objectsInSight hx)).quotableFrom _ _
    | scalar t x => rfl
    | _ => exact (h.of_content hc (by simp)).quotable

theorem IsLegible.displayable (h : w.IsLegible v) : w.displayable v = true := h.displayableFrom _

theorem IsLegible.hasText (h : w.IsLegible v) : w.hasText v = true := by
  rw [World.hasText]
  cases hc : v.content with
  | view r => exact IsLegible.displayable (h.of_content hc (by simp)).hostValue
  | box b => exact IsLegible.displayable (h.of_content hc (by simp)).hostValue
  | record r => rfl
  | scalar t x => rfl
  | _ => exact (h.of_content hc (by simp)).displayable

theorem textOf?_of_hasText (h : w.hasText v = true) : w.textOf? v = .ok (w.textOf v) := by
  rw [textOf?, h, Display.written_true]

theorem textOf?_eq_ok_iff {s : String} :
    w.textOf? v = .ok s ↔ w.hasText v = true ∧ w.textOf v = s := Display.written_eq_ok_iff

theorem hasText_int {i : Int} (hv : v.content = .int i) :
    w.hasText v = true ↔ i.natAbs < 10 ^ digitLimit := by
  rw [hasText, hv]
  exact Display.isWritten_of_int (v := .int i) rfl

end World
end ScriptedArrays
