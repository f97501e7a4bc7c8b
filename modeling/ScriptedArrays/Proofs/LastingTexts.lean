import ScriptedArrays.Proofs.LastingValues
import ScriptedArrays.Proofs.WrittenTexts

/-! Lasting texts. The text of a value, and whether it is written, is settled by what the value refers
to, directly or through other objects. So it stays the same when objects are added, and the number that
is read from it with it, as long as no reference dangles and no box holds itself: then the nesting ends
before the depth up to which it is written. -/

namespace ScriptedArrays

open World

namespace ArrayText

variable {f g : Value → String}

theorem cellText_congr (c : Content) (single : Bool) (inSight : List Value) {v : Value} (h : f v = g v) :
    Column.cellText c single f inSight v = Column.cellText c single g inSight v := by
  cases c with
  | raw _ => cases v with
    | bytes _ => rfl
    | _ => exact h
  | date _ => cases v with
    | date _ => rfl
    | _ => exact h
  | text _ | bytes _ | object => exact h
  | _ => rfl

/-- The text of rows is settled by the texts of their cells. -/
theorem rows_congr (separator : String) (summary : Bool) {shape : List Nat} {vs : List Value}
    (h : ∀ v, v = .undefined ∨ v ∈ vs → f v = g v) (indent width : Nat) :
    rows separator summary f shape vs indent width = rows separator summary g shape vs indent width := by
  match shape with
  | [] =>
    rw [rows, rows]
    cases vs with
    | nil => exact h _ (.inl rfl)
    | cons v vs => exact h v (.inr List.mem_cons_self)
  | [n] =>
    refine congrArg (fun words =>
      let c := putAll separator (width - 1) indent words ⟨"", spaces indent⟩
      "[" ++ String.ofList ((c.above ++ c.line).toList.drop indent) ++ "]") ?_
    refine List.map_congr_left fun v hv => ?_
    cases v with
    | none => rfl
    | some v => exact h v (.inr (mem_of_mem_shown hv))
  | n :: m :: shape =>
    rw [rows, rows]
    refine congrArg (fun blocks => "[" ++ String.intercalate _ blocks ++ "]") ?_
    refine List.map_congr_left fun v hv => ?_
    cases v with
    | none => rfl
    | some piece =>
      refine rows_congr separator summary (fun v hv' => ?_) (indent + 1) (width - 1)
      exact h v (hv'.imp_right fun hv' => mem_of_mem_pieces (mem_of_mem_shown hv) v hv')

theorem body_congr (separator : String) (indent width : Nat) (win : Window) {cells : List Value}
    (h : ∀ v, v = .undefined ∨ v ∈ cells → f v = g v) :
    body separator indent width win f cells = body separator indent width win g cells := by
  rw [body, body]
  split
  · rfl
  · exact rows_congr separator _ (fun v hv => cellText_congr _ _ _ (h v hv)) indent width

theorem plain_congr (win : Window) {cells : List Value}
    (h : ∀ v, v = .undefined ∨ v ∈ cells → f v = g v) : plain win f cells = plain win g cells :=
  body_congr _ _ _ _ h

theorem quoted_congr (win : Window) {cells : List Value}
    (h : ∀ v, v = .undefined ∨ v ∈ cells → f v = g v) : quoted win f cells = quoted win g cells := by
  rw [quoted, quoted, body_congr _ _ _ _ h]

end ArrayText

theorem Store.size_le {s : Species} {α : Type} {st st' : Store s α}
    (h : ∀ r, st.Has r → st'.Has r) : st.size ≤ st'.size := by
  by_contra hlt
  exact Nat.lt_irrefl _ (h ⟨st'.size⟩ (Nat.lt_of_not_le hlt))

theorem Store.has_of_mem_get {s : Species} {α : Type} {st : Store s (List α)} {r : Ref s} {x : α}
    (hx : x ∈ st.get r) : st.Has r := by
  by_contra hno
  rw [Store.get_of_not_has _ hno] at hx
  exact List.not_mem_nil hx

/-- What is kept is kept once, and a typed text is a text. -/
structure Value.IsGenuine (v : Value) : Prop where
  content : v.content.content = v.content
  text : ∀ n b x, v.content = .scalar ⟨.text n, b⟩ x → ∃ s, x = .text s

theorem Value.IsGenuine.of_content {v c : Value} (hv : v.content = c) (hself : c.content = c)
    (hscalar : ∀ t x, c ≠ .scalar t x) : v.IsGenuine where
  content := by rw [hv, hself]
  text n b x hx := absurd (hv.symm.trans hx) (hscalar _ x)

theorem Value.IsGenuine.of_self {v : Value} (hself : v.content = v) (hscalar : ∀ t x, v ≠ .scalar t x) :
    v.IsGenuine := .of_content hself hself hscalar

namespace World

/-- No reference dangles, and records hold genuine values. -/
structure WellFormed (w : World) : Prop extends w.Closed where
  genuine : ∀ e ∈ w.records.items, ∀ p ∈ e, p.2.IsGenuine

def containers (w : World) : List Value :=
  (List.range w.lists.size).map (.list ⟨·⟩) ++ (List.range w.tuples.size).map (.tuple ⟨·⟩) ++
    (List.range w.records.size).map (.record ⟨·⟩) ++ (List.range w.arrays.size).map (.array ⟨·⟩) ++
    (List.range w.boxes.size).map (.box ⟨·⟩)

def room (w : World) (path : List Value) : Nat := (w.containers.filter (· ∉ path)).length

/-- The nesting of a value that is reached through a path ends within `n` steps: the path has room for
no more objects, or the value is met again, and only boxes are written again. -/
def Suffices (w : World) (n : Nat) (path : List Value) (v : Value) : Prop :=
  w.room path + w.boxes.size + 2 ≤ n ∨ v ∈ path ∧ v.rank < n

section

variable {w u : World} {v x : Value} {path : List Value}

theorem backs_cells (hc : w.Closed) (win : Window) : ∀ v ∈ w.cells win, w.backs v = true := by
  intro v hv
  rw [cells, Array.toList_extract] at hv
  have hcells := Store.forall_get (p := fun cells => ∀ v ∈ cells, w.backs v = true)
    (fun v hv => absurd hv (Array.not_mem_empty v)) hc.cell win.buffer
  exact hcells v (Array.mem_toList_iff.mp (List.mem_of_mem_drop (List.mem_of_mem_take hv)))

theorem Closed.backs_parts (hc : w.Closed) (hx : x ∈ w.parts v) : w.backs x = true := by
  cases v with
  | list r =>
    exact Store.forall_get (p := fun vs => ∀ v ∈ vs, w.backs v = true)
      (fun v hv => absurd hv List.not_mem_nil) hc.list r x hx
  | tuple r =>
    exact Store.forall_get (p := fun vs => ∀ v ∈ vs, w.backs v = true)
      (fun v hv => absurd hv List.not_mem_nil) hc.tuple r x hx
  | record r =>
    obtain ⟨p, hp, rfl⟩ := List.mem_map.mp hx
    exact Store.forall_get (p := fun e : Entries => ∀ p ∈ e, w.backs p.2 = true)
      (fun p hp => absurd hp List.not_mem_nil) hc.entry r p hp
  | array r =>
    rcases List.mem_cons.mp hx with rfl | hx
    · rfl
    · exact backs_cells hc _ x hx
  | box b =>
    rw [List.mem_singleton.mp hx]
    exact hc.backs_box b
  | _ => exact absurd hx List.not_mem_nil

theorem mem_containers (hv : w.backs v = true) (hx : x ∈ w.parts v) : v ∈ w.containers := by
  simp only [containers, List.mem_append, List.mem_map, List.mem_range]
  cases v with
  | list r => exact .inl (.inl (.inl (.inl ⟨r.index, Store.has_of_mem_get hx, rfl⟩)))
  | tuple r => exact .inl (.inl (.inl (.inr ⟨r.index, Store.has_of_mem_get hx, rfl⟩)))
  | record r => exact .inl (.inl (.inr ⟨r.index, of_decide_eq_true hv, rfl⟩))
  | array r => exact .inl (.inr ⟨r.index, of_decide_eq_true hv, rfl⟩)
  | box b => exact .inr ⟨b.index, of_decide_eq_true hv, rfl⟩
  | _ => exact absurd hx List.not_mem_nil

theorem room_cons_lt (hv : v ∈ w.containers) (hpath : v ∉ path) : w.room (v :: path) < w.room path := by
  have hfilter : w.containers.filter (· ∉ v :: path) =
      (w.containers.filter (· ∉ path)).filter (· ≠ v) := by
    rw [List.filter_filter]
    refine List.filter_congr fun x _ => ?_
    simp [List.mem_cons]
  rw [room, room, hfilter, List.length_filter_lt_length_iff_exists]
  exact ⟨v, List.mem_filter.mpr ⟨hv, by simpa using hpath⟩, by simp⟩

end

section

variable {w u : World} {v c : Value} {path path' : List Value}

theorem Preserves.cells (hu : w.Preserves u) (h : w.Sound) (win : Window) : u.cells win = w.cells win := by
  rw [World.cells, World.cells, (hu.reads h).2.2]

/-- The quoted text of a value is settled by those of its parts. -/
theorem quoteFrom_congr (hu : w.Preserves u) (h : w.Sound) (hv : w.backs v = true) {f f' : Nat}
    (hagree : v ∈ path ↔ v ∈ path')
    (hparts : (v ∈ path → ∃ b, v = .box b) → ∀ x ∈ w.parts v,
      w.quoteFrom f (v :: path) x = u.quoteFrom f' (v :: path') x) :
    w.quoteFrom (f + 1) path v = u.quoteFrom (f' + 1) path' v := by
  have hagain : path'.contains v = path.contains v := by
    rw [Bool.eq_iff_iff, List.contains_iff_mem, List.contains_iff_mem, hagree]
  have hnew : ¬ path.contains v = true → v ∈ path → ∃ b, v = .box b := fun hno hp =>
    absurd (List.contains_iff_mem.mpr hp) hno
  cases v with
  | list r =>
    rw [quoteFrom, quoteFrom, hagain]
    split
    · rfl
    · rename_i hno
      have hall := hparts (hnew hno)
      rw [parts] at hall
      rw [hu.lists, List.map_congr_left hall]
  | tuple r =>
    rw [quoteFrom, quoteFrom, hagain]
    split
    · rfl
    · rename_i hno
      have hall := hparts (hnew hno)
      rw [parts] at hall
      rw [hu.tuples]
      split
      · next x hx =>
        rw [hx] at hall
        rw [hall x List.mem_cons_self]
      · rw [List.map_congr_left hall]
  | record r =>
    rw [quoteFrom, quoteFrom, hagain]
    split
    · rfl
    · rename_i hno
      rw [(hu.record r (of_decide_eq_true hv)).2]
      refine congrArg (fun entries => "\x7b" ++ String.intercalate ", " entries ++ "\x7d") ?_
      refine List.map_congr_left fun e he => ?_
      rw [hparts (hnew hno) e.2 (List.mem_map_of_mem he)]
  | array r =>
    rw [quoteFrom, quoteFrom, hagain]
    dsimp only
    rw [(hu.reads h).2.1.array r (of_decide_eq_true hv), hu.cells h]
    split
    · rfl
    · rename_i hno
      refine ArrayText.quoted_congr _ fun x hx => ?_
      have hpart := hparts (hnew hno) x (List.mem_cons.mpr hx)
      cases x with
      | list _ => exact congrArg (fun text => "list(" ++ text ++ ")") hpart
      | _ => exact hpart
  | box b =>
    have hbox := (hu.box b (of_decide_eq_true hv)).2
    have hpart := hparts (fun _ => ⟨b, rfl⟩) _ List.mem_cons_self
    rw [quoteFrom, quoteFrom, hbox, hpart]
  | function r => rw [quoteFrom, quoteFrom, hu.functions]
  | view q => rw [quoteFrom, quoteFrom, (hu.view q (of_decide_eq_true hv)).2]
  | _ => rfl

theorem all_eq_of_mem {α : Type} {xs : List α} {p q : α → Bool} (h : ∀ x ∈ xs, p x = q x) :
    xs.all p = xs.all q := by
  rw [Bool.eq_iff_iff, List.all_eq_true, List.all_eq_true]
  exact forall₂_congr fun x hx => by rw [h x hx]

/-- Whether the quoted text of a value is written is settled by its parts. -/
theorem quotableFrom_congr (hu : w.Preserves u) (h : w.Sound) (hv : w.backs v = true) {f f' : Nat}
    (hagree : v ∈ path ↔ v ∈ path')
    (hparts : (v ∈ path → ∃ b, v = .box b) → ∀ x ∈ w.parts v,
      w.quotableFrom f (v :: path) x = u.quotableFrom f' (v :: path') x) :
    w.quotableFrom (f + 1) path v = u.quotableFrom (f' + 1) path' v := by
  have hagain : path'.contains v = path.contains v := by
    rw [Bool.eq_iff_iff, List.contains_iff_mem, List.contains_iff_mem, hagree]
  -- a value that is met again is written, whatever its parts are
  have hall : ∀ {α : Type} (xs : List α) (p q : α → Bool),
      ((v ∈ path → ∃ b, v = .box b) → ∀ x ∈ xs, p x = q x) →
      (path.contains v || xs.all p) = (path.contains v || xs.all q) := by
    intro α xs p q hxs
    by_cases hp : path.contains v = true
    · rw [hp, Bool.true_or, Bool.true_or]
    · rw [all_eq_of_mem (hxs fun hmem => absurd (List.contains_iff_mem.mpr hmem) hp)]
  cases v with
  | list r =>
    rw [quotableFrom, quotableFrom, hagain, hu.lists]
    exact hall _ _ _ hparts
  | tuple r =>
    rw [quotableFrom, quotableFrom, hagain, hu.tuples]
    exact hall _ _ _ hparts
  | record r =>
    rw [quotableFrom, quotableFrom, hagain, (hu.record r (of_decide_eq_true hv)).2]
    exact hall _ _ _ fun honly e he => hparts honly e.2 (List.mem_map_of_mem he)
  | array r =>
    rw [quotableFrom, quotableFrom, hagain, (hu.reads h).2.1.array r (of_decide_eq_true hv), hu.cells h]
    refine hall _ _ _ fun honly x hx => hparts honly x (List.mem_cons_of_mem _ ?_)
    exact ArrayText.mem_of_mem_objectsInSight hx
  | box b =>
    rw [quotableFrom, quotableFrom, (hu.box b (of_decide_eq_true hv)).2]
    exact hparts (fun _ => ⟨b, rfl⟩) _ List.mem_cons_self
  | _ => rfl

structure QuotedAlike (w u : World) (f f' : Nat) (path path' : List Value) (v : Value) : Prop where
  quote : w.quoteFrom f path v = u.quoteFrom f' path' v
  quotable : w.quotableFrom f path v = u.quotableFrom f' path' v

/-- A value that refers to nothing new is quoted alike in both worlds, with whatever fuel suffices in
the first one, if the paths to it agree on what there was. The induction is on that bound: either the
value is on neither path and takes its place there, or it is a box, whose content is met again. -/
theorem quotedAlike_of_suffices (hc : w.Closed) (h : w.Sound) (hu : w.Preserves u) {n f f' : Nat}
    (hf : n ≤ f) (hf' : n ≤ f') (hv : w.backs v = true)
    (hagree : ∀ x, w.backs x = true → (x ∈ path ↔ x ∈ path'))
    (hboxes : ∀ b, .box b ∈ path → (w.boxes.get b).value ∈ v :: path) (hn : w.Suffices n path v) :
    w.QuotedAlike u f f' path path' v := by
  induction n generalizing f f' path path' v with
  | zero =>
    rcases hn with hroom | ⟨-, hrank⟩
    · omega
    · omega
  | succ n ih =>
    obtain ⟨f, rfl⟩ := Nat.exists_eq_add_of_le' (Nat.le_trans (Nat.succ_le_succ n.zero_le) hf)
    obtain ⟨f', rfl⟩ := Nat.exists_eq_add_of_le' (Nat.le_trans (Nat.succ_le_succ n.zero_le) hf')
    have hparts : (v ∈ path → ∃ b, v = .box b) → ∀ x ∈ w.parts v,
        w.QuotedAlike u f f' (v :: path) (v :: path') x := by
      intro honly x hx
      refine ih (Nat.le_of_succ_le_succ hf) (Nat.le_of_succ_le_succ hf') (hc.backs_parts hx) ?_ ?_ ?_
      · intro y hy
        rw [List.mem_cons, List.mem_cons, hagree y hy]
      · intro b hb
        rcases List.mem_cons.mp hb with rfl | hb
        · rw [List.mem_singleton.mp hx]
          exact List.mem_cons_self
        · exact List.mem_cons_of_mem x (hboxes b hb)
      · by_cases hpath : v ∈ path
        · obtain ⟨b, rfl⟩ := honly hpath
          obtain rfl := List.mem_singleton.mp hx
          have hhas : b.index < w.boxes.size := of_decide_eq_true hv
          have holder := hc.older b.index hhas
          refine .inr ⟨hboxes b hpath, Nat.lt_of_le_of_lt holder ?_⟩
          rcases hn with hroom | ⟨-, hrank⟩
          · omega
          · exact Nat.lt_of_succ_lt_succ hrank
        · have hlt := room_cons_lt (mem_containers hv hx) hpath
          have hroom := hn.resolve_right fun hno => hpath hno.1
          exact .inl (by omega)
    exact {
      quote := quoteFrom_congr hu h hv (hagree v hv) fun honly x hx => (hparts honly x hx).quote
      quotable := quotableFrom_congr hu h hv (hagree v hv) fun honly x hx =>
        (hparts honly x hx).quotable }

theorem length_containers (w : World) : w.containers.length =
    w.lists.size + w.tuples.size + w.records.size + w.arrays.size + w.boxes.size := by
  simp only [containers, List.length_append, List.length_map, List.length_range]

section

variable (hu : w.Preserves u) (hc : w.Closed) (h : w.Sound)
include hu hc h

theorem Preserves.quotedAlike (hv : w.backs v = true)
    (hagree : ∀ x, w.backs x = true → (x ∈ path ↔ x ∈ path')) (hboxes : ∀ b, .box b ∉ path) :
    w.QuotedAlike u w.depth u.depth path path' v := by
  have hrecords := Store.size_le fun r hr => (hu.record r hr).1
  have harrays := Store.size_le fun r hr => (hu.reads h).2.1.hasArray r hr
  have hbox := Store.size_le fun b hb => (hu.box b hb).1
  have hroom : w.room path ≤ w.containers.length := List.length_filter_le _ _
  rw [length_containers] at hroom
  refine quotedAlike_of_suffices hc h hu (n := w.room path + w.boxes.size + 2) ?_ ?_ hv hagree
    (fun b hb => absurd hb (hboxes b)) (.inl (Nat.le_refl _))
  · rw [depth, size]
    omega
  · rw [depth, size, hu.lists, hu.tuples]
    omega

theorem Preserves.quotedAlike_nil (hv : w.backs v = true) : w.QuotedAlike u w.depth u.depth [] [] v :=
  hu.quotedAlike hc h hv (fun _ _ => Iff.rfl) fun _ => List.not_mem_nil

theorem Preserves.quote_eq (hv : w.backs v = true) : u.quote v = w.quote v :=
  (hu.quotedAlike_nil hc h hv).quote.symm

theorem Preserves.quotable_eq (hv : w.backs v = true) : u.quotable v = w.quotable v :=
  (hu.quotedAlike_nil hc h hv).quotable.symm

end

def rowsTextFrom (w : World) (path : List Value) (win : Window) : String :=
  let element : Value → String := fun x => match x with
    | .list _ => "list(" ++ w.quoteFrom w.depth path x ++ ")"
    | x => w.quoteFrom w.depth path x
  ArrayText.plain win element (w.cells win)

theorem rowsText_eq (w : World) (r : Ref .array) :
    w.rowsText r = w.rowsTextFrom [.array r] (w.arrays.get r) := rfl

def rowsWritten (w : World) (path : List Value) (win : Window) : Bool :=
  (ArrayText.objectsInSight win (w.cells win)).all (w.quotableFrom w.depth path)

theorem not_mem_of_added {r : Ref .array} (hr : ¬ w.arrays.Has r) {x : Value} (hx : w.backs x = true) :
    x ∈ ([] : List Value) ↔ x ∈ [Value.array r] := by
  refine iff_of_false List.not_mem_nil fun hmem => hr ?_
  rw [List.mem_singleton.mp hmem] at hx
  exact of_decide_eq_true hx

section

variable (hu : w.Preserves u) (hc : w.Closed) (h : w.Sound)
include hu hc h

theorem Preserves.rowsTextFrom_eq (win : Window)
    (hagree : ∀ x, w.backs x = true → (x ∈ path ↔ x ∈ path')) (hboxes : ∀ b, .box b ∉ path) :
    u.rowsTextFrom path' win = w.rowsTextFrom path win := by
  rw [rowsTextFrom, rowsTextFrom, hu.cells h]
  refine ArrayText.plain_congr win fun x hx => ?_
  have hback : w.backs x = true := by
    rcases hx with rfl | hx
    · rfl
    · exact backs_cells hc win x hx
  have hquote := (hu.quotedAlike hc h hback hagree hboxes).quote.symm
  cases x with
  | list _ => exact congrArg (fun text => "list(" ++ text ++ ")") hquote
  | _ => exact hquote

theorem Preserves.rowsWritten_eq (win : Window)
    (hagree : ∀ x, w.backs x = true → (x ∈ path ↔ x ∈ path')) (hboxes : ∀ b, .box b ∉ path) :
    u.rowsWritten path' win = w.rowsWritten path win := by
  rw [rowsWritten, rowsWritten, hu.cells h]
  refine all_eq_of_mem fun x hx => ?_
  have hback := backs_cells hc win x (ArrayText.mem_of_mem_objectsInSight hx)
  exact (hu.quotedAlike hc h hback hagree hboxes).quotable.symm

theorem Preserves.rowsText_eq {r : Ref .array} (hr : w.arrays.Has r) : u.rowsText r = w.rowsText r := by
  rw [World.rowsText_eq, World.rowsText_eq, (hu.reads h).2.1.array r hr]
  exact hu.rowsTextFrom_eq hc h _ (fun _ _ => Iff.rfl) (by simp)

theorem Preserves.rowsText_added {r : Ref .array} (hr : ¬ w.arrays.Has r) :
    u.rowsText r = w.rowsTextFrom [] (u.arrays.get r) := by
  rw [World.rowsText_eq]
  exact hu.rowsTextFrom_eq hc h _ (fun _ hx => not_mem_of_added hr hx) fun _ => List.not_mem_nil

theorem Preserves.rowsWritten_added {r : Ref .array} (hr : ¬ w.arrays.Has r) (win : Window) :
    u.rowsWritten [.array r] win = w.rowsWritten [] win :=
  hu.rowsWritten_eq hc h _ (fun _ hx => not_mem_of_added hr hx) fun _ => List.not_mem_nil

end

theorem backs_of_content {c : Value} (hv : w.backs v = true) (hc : v.content = c)
    (hself : c.content = c) : w.backs c = true := by
  have hopened : c.opened.content = v.opened.content := by
    rw [Value.opened, Value.opened, hself, hc]
    split
    · rfl
    · rw [hself, hc]
  rw [backs] at hv ⊢
  rwa [hopened]

def onlyObject? (w : World) (v : Value) : Option Value :=
  match v.content with
  | .array r => if (w.arrays.get r).shape.isEmpty ∧ (w.arrays.get r).type.content = .object then
      some (w.cell (w.arrays.get r) 0) else none
  | _ => none

theorem array_of_onlyObject? (h : w.onlyObject? v = some c) : ∃ r, v.content = .array r ∧
    (w.arrays.get r).shape.isEmpty = true ∧ (w.arrays.get r).type.content = .object ∧
    c = w.cell (w.arrays.get r) 0 := by
  rw [onlyObject?] at h
  split at h
  · rename_i r hr
    split at h
    · rename_i hs
      cases h
      exact ⟨r, hr, hs.1, hs.2, rfl⟩
    · cases h
  · cases h

theorem onlyCell?_of_onlyObject? (h : w.onlyObject? v = some c) : w.onlyCell? v = some c := by
  obtain ⟨r, hr, hs, -, rfl⟩ := array_of_onlyObject? h
  exact onlyCell?_of_array (by rw [opened_of_content hr, hr]) (List.isEmpty_iff.mp hs)

theorem onlyObject?_eq_of_reads (h : w.Sound) (hw : w.Reads u) (hv : w.backs v = true) :
    u.onlyObject? v = w.onlyObject? v := by
  obtain ⟨-, hext, hbuf⟩ := hw h
  rw [onlyObject?, onlyObject?]
  split
  · rename_i r hr
    rw [hext.array r (has_of_backs hv (by rw [opened_of_content hr, hr])), World.cell, World.cell, hbuf]
  · rfl

theorem displayFrom_of_some (h : w.onlyObject? v = some c) (fuel : Nat) :
    w.displayFrom (fuel + 1) v = w.displayFrom fuel c := by
  obtain ⟨r, hr, hs, ht, rfl⟩ := array_of_onlyObject? h
  rw [displayFrom, hr]
  simp only [hs, if_true, ht]

theorem displayableFrom_of_some (h : w.onlyObject? v = some c) (fuel : Nat) :
    w.displayableFrom (fuel + 1) v = w.displayableFrom fuel c := by
  obtain ⟨r, hr, hs, ht, rfl⟩ := array_of_onlyObject? h
  have hobject : (w.arrays.get r).type.isObject = true := by rw [CellType.isObject, ht]; rfl
  rw [displayableFrom, hr]
  simp only [hs, if_true, hobject, Bool.not_true, Bool.false_or]

theorem display_of_scalar {t : CellType} (hv : v.content = .scalar t c) :
    w.display v = Display.numberText t c := by
  rw [display, displayFrom, hv]

theorem display?_of_scalar {t : CellType} (hv : v.content = .scalar t c) :
    w.display? v = .ok (Display.numberText t c) := by
  rw [display?, display_of_scalar hv, displayable, displayableFrom, hv]
  rfl

structure DisplayedAlike (w u : World) (f f' : Nat) (v : Value) : Prop where
  display : w.displayFrom f v = u.displayFrom f' v
  displayable : w.displayableFrom f v = u.displayableFrom f' v

theorem displayedAlike_of_endless (hno : ∀ n, ¬ Ends w.onlyObject? n v)
    (hno' : ∀ n, ¬ Ends u.onlyObject? n v) (f f' : Nat) : w.DisplayedAlike u f f' v := by
  have hdots : ∀ {z : World} {x : Value} (f : Nat), (∀ n, ¬ Ends z.onlyObject? n x) →
      z.displayFrom f x = "..." ∧ z.displayableFrom f x = true := by
    intro z x f hno
    induction f generalizing x with
    | zero => exact ⟨rfl, rfl⟩
    | succ f ih =>
      cases hc : z.onlyObject? x with
      | none => exact absurd (.here hc) (hno 0)
      | some c =>
        rw [displayFrom_of_some hc, displayableFrom_of_some hc]
        exact ih fun n hn => hno (n + 1) (.there hc hn)
  obtain ⟨hdisplay, hdisplayable⟩ := hdots f hno
  obtain ⟨hdisplay', hdisplayable'⟩ := hdots f' hno'
  exact ⟨hdisplay.trans hdisplay'.symm, hdisplayable.trans hdisplayable'.symm⟩

section

variable (hu : w.Preserves u) (hc : w.Closed) (h : w.Sound)
include hu hc h

/-- Where the text of a value does not go on with that of a cell, it is the same. -/
theorem Preserves.displayedAlike_of_none (hv : w.backs v = true) (hnone : w.onlyObject? v = none)
    (f f' : Nat) : w.DisplayedAlike u (f + 1) (f' + 1) v := by
  have hquoted : ∀ c, v.content = c → c.content = c → w.quote c = u.quote c ∧
      w.quotable c = u.quotable c := fun c hv' hself =>
    have hback := backs_of_content hv hv' hself
    ⟨(hu.quote_eq hc h hback).symm, (hu.quotable_eq hc h hback).symm⟩
  suffices halike : w.displayFrom (f + 1) v = u.displayFrom (f' + 1) v ∧
      w.displayableFrom (f + 1) v = u.displayableFrom (f' + 1) v from ⟨halike.1, halike.2⟩
  rw [displayFrom, displayFrom, displayableFrom, displayableFrom]
  cases hcontent : v.content with
  | array r =>
    have hr : w.arrays.Has r := has_of_backs hv (by rw [opened_of_content hcontent, hcontent])
    have harray := (hu.reads h).2.1.array r hr
    by_cases hs : (w.arrays.get r).shape = []
    · have ht : (w.arrays.get r).type.content ≠ .object := by
        intro ht
        rw [onlyObject?, hcontent] at hnone
        simp [hs, ht] at hnone
      have hobject : (w.arrays.get r).type.isObject = false := by
        rw [CellType.isObject]
        exact beq_false_of_ne ht
      have hcell : u.cell (w.arrays.get r) 0 = w.cell (w.arrays.get r) 0 := by
        rw [World.cell, World.cell, (hu.reads h).2.2]
      simp only [harray, hs, List.isEmpty_nil, if_true, hcell, hobject, Bool.not_false, Bool.true_or,
        and_true]
    · have hne : (w.arrays.get r).shape.isEmpty = false := by simpa using hs
      simp only [harray, hne, Bool.false_eq_true, if_false]
      exact ⟨(hu.rowsText_eq hc h hr).symm,
        (hu.rowsWritten_eq hc h _ (fun _ _ => Iff.rfl) (by simp)).symm⟩
  | record r => exact hquoted _ hcontent rfl
  | list r => exact hquoted _ hcontent rfl
  | tuple r => exact hquoted _ hcontent rfl
  | box b => exact hquoted _ hcontent rfl
  | view q => exact hquoted _ hcontent rfl
  | function r => exact hquoted _ hcontent rfl
  | _ => exact ⟨rfl, rfl⟩

theorem Preserves.displayedAlike_of_ends {n : Nat} (hn : Ends w.onlyObject? n v)
    (hv : w.backs v = true) {f f' : Nat} (hf : n < f) (hf' : n < f') : w.DisplayedAlike u f f' v := by
  -- on the steps to the last value, since the larger world is displayed with more fuel
  induction hn generalizing f f' with
  | here hnone =>
    obtain ⟨f, rfl⟩ := Nat.exists_eq_succ_of_ne_zero (Nat.ne_of_gt hf)
    obtain ⟨f', rfl⟩ := Nat.exists_eq_succ_of_ne_zero (Nat.ne_of_gt hf')
    exact hu.displayedAlike_of_none hc h hv hnone f f'
  | there hsome _ ih =>
    obtain ⟨f, rfl⟩ := Nat.exists_eq_succ_of_ne_zero (Nat.ne_zero_of_lt hf)
    obtain ⟨f', rfl⟩ := Nat.exists_eq_succ_of_ne_zero (Nat.ne_zero_of_lt hf')
    have hsome' := (onlyObject?_eq_of_reads h hu.reads hv).trans hsome
    obtain ⟨hdisplay, hdisplayable⟩ : w.DisplayedAlike u f f' _ :=
      ih (hc.backs_onlyCell? (onlyCell?_of_onlyObject? hsome)) (by omega) (by omega)
    constructor
    · rw [displayFrom_of_some hsome, displayFrom_of_some hsome', hdisplay]
    · rw [displayableFrom_of_some hsome, displayableFrom_of_some hsome', hdisplayable]

theorem Preserves.displayedAlike (hv : w.backs v = true) :
    w.DisplayedAlike u (w.size + 2) (u.size + 2) v := by
  have hends : ∀ n, Ends u.onlyObject? n v ↔ Ends w.onlyObject? n v := fun n =>
    Ends.congr (fun a ha => onlyObject?_eq_of_reads h hu.reads ha)
      (fun a b _ hab => hc.backs_onlyCell? (onlyCell?_of_onlyObject? hab)) hv
  by_cases hend : ∃ n, Ends w.onlyObject? n v
  · obtain ⟨n, hn⟩ := hend
    have hle : n ≤ w.arrays.size + 1 := steps_le_of_imp (fun _ _ => onlyCell?_of_onlyObject?) hn
    have hle' : n ≤ u.arrays.size + 1 :=
      steps_le_of_imp (fun _ _ => onlyCell?_of_onlyObject?) ((hends n).mpr hn)
    refine hu.displayedAlike_of_ends hc h hn hv ?_ ?_
    · rw [size]
      omega
    · rw [size]
      omega
  · exact displayedAlike_of_endless (not_exists.mp hend) (fun n hn => hend ⟨n, (hends n).mp hn⟩) _ _

theorem Preserves.display_eq (hv : w.backs v = true) : u.display v = w.display v :=
  (hu.displayedAlike hc h hv).display.symm

theorem Preserves.displayable_eq (hv : w.backs v = true) : u.displayable v = w.displayable v :=
  (hu.displayedAlike hc h hv).displayable.symm

theorem Preserves.display?_eq (hv : w.backs v = true) : u.display? v = w.display? v := by
  rw [display?, display?, hu.display_eq hc h hv, hu.displayable_eq hc h hv]

theorem Preserves.numberOf_eq (hv : w.backs v = true) : u.numberOf v = w.numberOf v := by
  rw [World.numberOf, World.numberOf]
  split
  all_goals try rfl
  rename_i b hb
  have hback := hc.backs_box b
  rw [(hu.box b (has_of_plain hv hb)).2, boxedNumber, boxedNumber]
  split
  · rfl
  · rfl
  · rw [hu.display?_eq hc h hback]

theorem Preserves.textOf_eq (hv : w.backs v = true) (hgenuine : v.IsGenuine) :
    u.textOf v = w.textOf v := by
  rw [textOf.eq_def, textOf.eq_def]
  split
  all_goals try rfl
  · rw [hu.quote_eq hc h hv]
  · next q hq =>
    have hback := backs_of_content hv hq rfl
    have hhas : w.views.Has q := of_decide_eq_true hback
    rw [(hu.view q hhas).2]
    exact hu.display_eq hc h (decide_eq_true (h.array q hhas))
  · next b hb =>
    have hback := backs_of_content hv hb rfl
    rw [(hu.box b (of_decide_eq_true hback)).2]
    exact hu.display_eq hc h (hc.backs_box b)
  · exact hu.display_eq hc h (backs_of_content hv rfl hgenuine.content)

theorem Preserves.hasText_eq (hv : w.backs v = true) (hgenuine : v.IsGenuine) :
    u.hasText v = w.hasText v := by
  rw [hasText.eq_def, hasText.eq_def]
  split
  · next q hq =>
    have hback := backs_of_content hv hq rfl
    have hhas : w.views.Has q := of_decide_eq_true hback
    rw [(hu.view q hhas).2]
    exact hu.displayable_eq hc h (decide_eq_true (h.array q hhas))
  · next b hb =>
    have hback := backs_of_content hv hb rfl
    rw [(hu.box b (of_decide_eq_true hback)).2]
    exact hu.displayable_eq hc h (hc.backs_box b)
  · rfl
  · exact hu.displayable_eq hc h (backs_of_content hv rfl hgenuine.content)

theorem Preserves.textOf?_eq (hv : w.backs v = true) (hgenuine : v.IsGenuine) :
    u.textOf? v = w.textOf? v := by
  rw [textOf?, textOf?, hu.textOf_eq hc h hv hgenuine, hu.hasText_eq hc h hv hgenuine]

end

end
end World
end ScriptedArrays
