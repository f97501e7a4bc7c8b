import ScriptedArrays.Proofs.LastingTexts
import ScriptedArrays.Proofs.NumberRange

/-! Reads of items. To read an item of a record or a view adds objects at most, and an item that is
read twice is the same thing to a script both times: the same value, a view of the same cells, or a
box of the same host value. -/

namespace ScriptedArrays

open World

theorem preserves_of_eq {w w' : World} (ha : w'.arrays = w.arrays) (hb : w'.buffers = w.buffers)
    (hv : w'.views = w.views) (hp : w'.presenters = w.presenters) (hx : w'.boxes = w.boxes)
    (hl : w'.lists = w.lists) (hr : w'.records = w.records) (ht : w'.tuples = w.tuples)
    (hf : w'.functions = w.functions) : w.Preserves w' where
  toRetains := retains_of_eq ha hb hv hp hx hl
  record r h := by rw [hr]; exact ⟨h, rfl⟩
  view q h := by rw [hv]; exact ⟨h, rfl⟩
  lists := hl
  tuples := ht
  functions := hf

theorem preserves_keep (v : Value) : Keeps Preserves (keep v) := by
  intro w
  obtain ⟨x, n, hx, -⟩ := keep_eq v w
  rw [after_of_ok hx]
  exact preserves_of_eq rfl rfl rfl rfl rfl rfl rfl rfl rfl

theorem preserves_inUse (w : World) (vs : List Value) : w.Preserves { w with inUse := vs } :=
  preserves_of_eq rfl rfl rfl rfl rfl rfl rfl rfl rfl

theorem preserves_newBox (scope value : Value) (p : Ref .presenter) (exposed : Option (List String)) :
    Keeps Preserves (newBox scope value p exposed) := by
  refine .bind (preserves_keep value) fun v => .modifyGet fun w => ?_
  exact {
    toRetains := retains_push_box w _
    record := fun _ h => ⟨h, rfl⟩
    view := fun _ h => ⟨h, rfl⟩
    lists := rfl
    tuples := rfl
    functions := rfl }

theorem preserves_push_view {w w' : World} {view : View} (hw : w.Reads w')
    (hv : w'.views = w.views.push view) (hx : w'.boxes = w.boxes) (hl : w'.lists = w.lists)
    (hr : w'.records = w.records) (ht : w'.tuples = w.tuples) (hf : w'.functions = w.functions) :
    w.Preserves w' where
  reads := hw
  box b h := by rw [hx]; exact ⟨h, rfl⟩
  list l h := by rw [hl]; exact ⟨h, rfl⟩
  record r h := by rw [hr]; exact ⟨h, rfl⟩
  view q h := by
    rw [hv]
    exact ⟨Store.has_push_of_has _ _ h, Store.get_push_of_ne _ _ (w.views.ne_next_of_has h)⟩
  lists := hl
  tuples := ht
  functions := hf

namespace Presenter

theorem preserves_viewOf {w : World} (p : Ref .presenter) {r : Ref .array} (scope : Value)
    (hs : (w.arrays.get r).shape ≠ []) : w.Preserves (w.after (viewOf p r scope)) := by
  have hreads := reads_viewOf p scope hs
  rcases viewOf_cases w p scope hs with ⟨known, q, -, -, hw⟩ | ⟨l, ps, hw, -⟩
  · rw [after_of_ok hw]
    exact preserves_of_eq rfl rfl rfl rfl rfl rfl rfl rfl rfl
  · rw [after_of_ok hw] at hreads ⊢
    exact preserves_push_view hreads rfl rfl rfl rfl rfl rfl

theorem preserves_present (p : Ref .presenter) (v scope : Value) : Keeps Preserves (present p v scope) :=
  .bind .get fun _ => keeps_presentFrom preserves_keep (fun v => preserves_newBox scope v p none)
    (fun _ _ hs => preserves_viewOf p scope hs) _ _

end Presenter

namespace View

variable {w : World} {r : Ref .view} {i : Value} {k : Nat}

theorem preserves_getIndex (h : w.Sound) (hr : w.views.Has r) (hi : i.IsInteger k)
    (hk : k < (w.shown r).length) : w.Preserves (w.after (getIndex r i)) := by
  by_cases hn : (w.shown r).rowShape = []
  · rw [World.after, getIndex_plain h hr hi hk hn, ← World.after]
    exact Presenter.preserves_present _ _ _ w
  · have hreads := reads_getIndex hr hi hk
    obtain ⟨ps, l, hget⟩ := getIndex_fresh h hr hi hk hn
    rw [after_of_ok hget] at hreads ⊢
    exact preserves_push_view hreads rfl rfl rfl rfl rfl rfl

end View

/-- What a value is to a script, whichever object stands for it: the cells that a view shows, what a
box holds, or the value itself. -/
inductive Sight
  | cells (win : Window)
  | held (content : Value)
  | value (content : Value)

namespace World

def sight (w : World) (x : Value) : Sight :=
  match x.content with
  | .view q => .cells (w.shown q)
  | .box b => .held (w.boxes.get b).value.content
  | c => .value c

section

variable {w w' : World} {x y : Value}

theorem sight_congr (w : World) (h : x.content = y.content) : w.sight x = w.sight y := by
  rw [sight, sight, h]

theorem shown_of_preserves (h : w.Sound) (hw : w.Preserves w') {q : Ref .view} (hq : w.views.Has q) :
    w'.shown q = w.shown q := (hw.reads h).2.1.shown h hq

end
end World

namespace World

/-- What a value stands for at last: an array without axes stands for its only cell. -/
inductive Unfolds (w : World) : Value → Value → Prop
  | here {v : Value} (h : w.onlyCell? v = none) : Unfolds w v v
  | there {v c last : Value} (h : w.onlyCell? v = some c) (rest : Unfolds w c last) : Unfolds w v last

/-- The value is what scripts get for a host value that stands for itself: a view of the array, a
primitive with the same content, the same view or box, or a box of the content. -/
def Depicts (w : World) (v x : Value) : Prop :=
  match v.opened.content with
  | .array r => ∃ q, x = .view q ∧ w.views.Has q ∧ (w.views.get q).array = r
  | .null => x = .null
  | .view q => x = .view q
  | .box b => x = .box b
  | .bytes b => x.IsKept (.text (Latin.decode b))
  | .bool _ | .int _ | .number _ | .text _ => x.IsKept v.opened
  | c => ∃ b, x = .box b ∧ w.boxes.Has b ∧ (w.boxes.get b).value.content = c

variable {w : World} {v c x y : Value}

theorem Unfolds.unique {last last' : Value} (h : w.Unfolds v last) (h' : w.Unfolds v last') :
    last = last' := by
  induction h with
  | here hnone =>
    cases h' with
    | here _ => rfl
    | there hsome _ =>
      rw [hnone] at hsome
      cases hsome
  | there hsome _ ih =>
    cases h' with
    | here hnone =>
      rw [hnone] at hsome
      cases hsome
    | there hsome' rest =>
      rw [hsome] at hsome'
      cases hsome'
      exact ih rest

/-- What scripts get for a host value is the same thing to them each time. -/
theorem Depicts.sight_eq (hx : w.Depicts v x) (hy : w.Depicts v y) : w.sight x = w.sight y := by
  rw [Depicts] at hx hy
  cases hcontent : v.opened.content with
  | array r =>
    rw [hcontent] at hx hy
    obtain ⟨q, rfl, -, hq⟩ := hx
    obtain ⟨q', rfl, -, hq'⟩ := hy
    show Sight.cells (w.shown q) = Sight.cells (w.shown q')
    rw [shown, shown, hq, hq']
  | null | view _ | box _ =>
    rw [hcontent] at hx hy
    rw [hx, hy]
  | bytes _ | bool _ | int _ | number _ | text _ =>
    rw [hcontent] at hx hy
    exact w.sight_congr (hx.content.trans hy.content.symm)
  | _ =>
    rw [hcontent] at hx hy
    obtain ⟨b, rfl, -, hb⟩ := hx
    obtain ⟨b', rfl, -, hb'⟩ := hy
    show Sight.held (w.boxes.get b).value.content = Sight.held (w.boxes.get b').value.content
    rw [hb, hb']

end World

namespace Presenter

variable {p : Ref .presenter} {scope v x y : Value} {w u u' z : World}

theorem isKept_of_keep (hx : keep v u = .ok x u') : x.IsKept v := by
  obtain ⟨y, n, hy, hcontent, hsame⟩ := keep_eq v u
  rw [hy] at hx
  cases hx
  exact ⟨hcontent, hsame⟩

/-- The presentation of a value that stands for itself. -/
theorem depicts_presentFrom_of_none (hs : u.Sound) (hnone : u.onlyCell? v = none) {f : Nat}
    (hx : presentFrom p scope (f + 1) v u = .ok x u') (hz : u'.Preserves z) : z.Depicts v x := by
  rw [presentFrom] at hx
  dsimp only at hx
  rw [Depicts]
  cases hcontent : v.opened.content with
  | array r =>
    have hshape : (u.arrays.get r).shape ≠ [] := by
      intro hshape
      rw [onlyCell?_of_array hcontent hshape] at hnone
      cases hnone
    have hne : ¬ (u.arrays.get r).shape.isEmpty = true := by simpa using hshape
    rw [hcontent] at hx
    dsimp only at hx
    rw [get_bind_apply, if_neg hne] at hx
    obtain ⟨q, v', hq, hlast⟩ := bind_eq_ok.mp hx
    cases hlast
    obtain ⟨q', w', hview, -, -, -, hhas, hshows⟩ := viewOf_spec hs p scope hshape
    rw [hview] at hq
    cases hq
    exact ⟨q, rfl, (hz.view q hhas).1, by rw [(hz.view q hhas).2, hshows]⟩
  | null | view _ | box _ =>
    rw [hcontent] at hx
    cases hx
    rfl
  | bytes _ | bool _ | int _ | number _ | text _ =>
    rw [hcontent] at hx
    exact isKept_of_keep hx
  | _ =>
    rw [hcontent] at hx
    obtain ⟨b, v', hb, hlast⟩ := bind_eq_ok.mp hx
    cases hlast
    obtain ⟨w', hbox, -, hhas, hkept⟩ := newBox_spec scope v.opened p none u
    rw [hbox] at hb
    cases hb
    refine ⟨u.boxes.next, rfl, (hz.box _ hhas).1, ?_⟩
    rw [(hz.box _ hhas).2, hkept.content, hcontent]

section

variable (h : w.Sound) (hu : w.Reads u) (hv : w.backs v = true) (hz : u'.Preserves z)
include h hu hv hz

theorem depicts_presentFrom (hc : w.Closed) {f : Nat} (hx : presentFrom p scope f v u = .ok x u') :
    ∃ c, w.Unfolds v c ∧ w.backs c = true ∧ z.Depicts c x := by
  induction f generalizing v with
  | zero => cases hx
  | succ f ih =>
    cases hcell : w.onlyCell? v with
    | none =>
      exact ⟨v, .here hcell, hv, depicts_presentFrom_of_none (hu h).1
        ((onlyCell?_eq_of_reads h hu hv).trans hcell) hx hz⟩
    | some c =>
      rw [presentFrom_of_some ((onlyCell?_eq_of_reads h hu hv).trans hcell)] at hx
      obtain ⟨last, hlast, hback, hdepicts⟩ := ih (hc.backs_onlyCell? hcell) hx
      exact ⟨last, .there hcell hlast, hback, hdepicts⟩

end
end Presenter

namespace View

variable {w u v z : World} {r : Ref .view} {i x : Value} {k : Nat}

theorem backs_slot (hc : w.Closed) (h : w.Sound) (hr : w.views.Has r) (hk : k < (w.shown r).length)
    (hn : (w.shown r).rowShape = []) :
    w.backs ((w.shown r).type.itemValue (w.cell (w.shown r) k)) = true := by
  rw [CellType.itemValue]
  split
  · exact hc.backs_cell _ _
  · rename_i ho
    have hprimitive := isPrimitive_of_admits (by simpa using ho) (accepts_cell h hr hk hn).1
    generalize w.cell (w.shown r) k = c at hprimitive ⊢
    cases c with
    | null | bool _ | int _ | number _ | complex _ _ | text _ | bytes _ | date _ | duration _ => rfl
    | _ => exact hprimitive.elim

theorem getIndex_plain_of_preserves (h : w.Sound) (hu : w.Preserves u) (hr : w.views.Has r)
    (hi : i.IsInteger k) (hk : k < (w.shown r).length) (hn : (w.shown r).rowShape = []) :
    getIndex r i u = Presenter.present (w.views.get r).presenter
      ((w.shown r).type.itemValue (w.cell (w.shown r) k)) (w.views.get r).scope u := by
  have hshown := shown_of_preserves h hu hr
  have hcell : u.cell (w.shown r) k = w.cell (w.shown r) k := by
    rw [World.cell, World.cell, (hu.reads h).2.2]
  have hget := getIndex_plain (hu.reads h).1 (hu.view r hr).1 hi (by rwa [hshown]) (by rwa [hshown])
  rwa [hshown, hcell, (hu.view r hr).2] at hget

theorem depicts_getIndex (hc : w.Closed) (h : w.Sound) (hr : w.views.Has r) (hi : i.IsInteger k)
    (hk : k < (w.shown r).length) (hn : (w.shown r).rowShape = []) (hu : w.Preserves u)
    (hx : getIndex r i u = .ok x v) (hz : v.Preserves z) :
    ∃ c, w.Unfolds ((w.shown r).type.itemValue (w.cell (w.shown r) k)) c ∧ w.backs c = true ∧
      z.Depicts c x := by
  rw [getIndex_plain_of_preserves h hu hr hi hk hn, Presenter.present, get_bind_apply] at hx
  exact Presenter.depicts_presentFrom h hu.reads (backs_slot hc h hr hk hn) hz hc hx

theorem row_of_getIndex (h : w.Sound) (hr : w.views.Has r) (hi : i.IsInteger k)
    (hk : k < (w.shown r).length) (hn : (w.shown r).rowShape ≠ []) (hu : w.Preserves u)
    (hx : getIndex r i u = .ok x v) (hz : v.Preserves z) :
    ∃ q, x = .view q ∧ z.views.Has q ∧ ¬ w.arrays.Has (z.views.get q).array ∧
      z.shown q = (w.shown r).row k := by
  have hshown := shown_of_preserves h hu hr
  obtain ⟨q, v', hget, hsound, -, -, hq, hrow⟩ :=
    getIndex_nested (hu.reads h).1 (hu.view r hr).1 hi (by rwa [hshown]) (by rwa [hshown])
  obtain ⟨ps, l, hfresh⟩ :=
    getIndex_fresh (hu.reads h).1 (hu.view r hr).1 hi (by rwa [hshown]) (by rwa [hshown])
  rw [hx] at hget hfresh
  cases hget
  cases hfresh
  refine ⟨_, rfl, (hz.view _ hq).1, fun hhas => ?_, ?_⟩
  · have hview : (rowWorld u r k).views.get u.views.next = _ := Store.get_push_next _ _
    have harray : (z.views.get u.views.next).array = u.arrays.next :=
      congrArg View.array ((hz.view _ hq).2.trans hview)
    rw [harray] at hhas
    exact u.arrays.ne_next_of_has ((hu.reads h).2.1.hasArray _ hhas) rfl
  · rw [shown_of_preserves hsound hz hq, hrow, hshown]

theorem sight_row (h : w.Sound) (hu : w.Preserves u) (hr : w.views.Has r) (hi : i.IsInteger k)
    (hk : k < (w.shown r).length) (hn : (w.shown r).rowShape ≠ []) (hx : getIndex r i u = .ok x v)
    (hz : v.Preserves z) : z.sight x = .cells ((w.shown r).row k) := by
  obtain ⟨q, rfl, -, -, hrow⟩ := row_of_getIndex h hr hi hk hn hu hx hz
  exact congrArg Sight.cells hrow

theorem sight_getIndex (hc : w.Closed) (h : w.Sound) (hr : w.views.Has r) (hi : i.IsInteger k)
    (hk : k < (w.shown r).length) {u₁ u₂ v₁ v₂ : World} {y : Value} (h₁ : w.Preserves u₁)
    (h₂ : w.Preserves u₂) (hx : getIndex r i u₁ = .ok x v₁) (hy : getIndex r i u₂ = .ok y v₂)
    (hz₁ : v₁.Preserves z) (hz₂ : v₂.Preserves z) : z.sight x = z.sight y := by
  by_cases hn : (w.shown r).rowShape = []
  · obtain ⟨c, hc₁, -, hx⟩ := depicts_getIndex hc h hr hi hk hn h₁ hx hz₁
    obtain ⟨c', hc₂, -, hy⟩ := depicts_getIndex hc h hr hi hk hn h₂ hy hz₂
    obtain rfl := hc₁.unique hc₂
    exact hx.sight_eq hy
  · rw [sight_row h h₁ hr hi hk hn hx hz₁, sight_row h h₂ hr hi hk hn hy hz₂]

theorem presentable_iff_of_preserves (hc : w.Closed) (h : w.Sound) (hu : w.Preserves u)
    (hr : w.views.Has r) (hk : k < (w.shown r).length) : Presentable u r k ↔ Presentable w r k := by
  have hcell : u.cell (w.shown r) k = w.cell (w.shown r) k := by
    rw [World.cell, World.cell, (hu.reads h).2.2]
  rw [Presentable, Presentable, shown_of_preserves h hu hr, hcell]
  by_cases hn : (w.shown r).rowShape = []
  · rw [hc.presentable_iff h hu.reads (backs_slot hc h hr hk hn)]
  · exact iff_of_true (.inl hn) (.inl hn)

end View

def World.ReadsAs (w : World) (this : Value) (i : Nat) (x : Value) (w' : World) : Prop :=
  ∃ u u', w.Preserves u ∧ Receiver.item this i u = .ok x u' ∧ u'.Preserves w'

theorem World.ReadsAs.widen {w v v' w' : World} {this x : Value} {i : Nat} (h : v.ReadsAs this i x v')
    (hw : w.Preserves v) (hw' : v'.Preserves w') : w.ReadsAs this i x w' := by
  obtain ⟨u, u', hu, hx, hu'⟩ := h
  exact ⟨u, u', trans_of Preserves hw hu, hx, trans_of Preserves hu' hw'⟩

namespace Receiver

variable {w u w' : World} {this x y : Value} {i j n : Nat}

def HasItem (w : World) (this : Value) (i : Nat) : Prop := ∀ q, this = .view q → i < (w.shown q).length

theorem IsArrayLike.of_preserves (hthis : IsArrayLike w this) (hu : w.Preserves u) :
    IsArrayLike u this := by
  cases hthis with
  | record r => exact .record r
  | view hq => exact .view (hu.view _ hq).1

theorem HasItem.of_preserves (hi : HasItem w this i) (h : w.Sound) (hthis : IsArrayLike w this)
    (hu : w.Preserves u) : HasItem u this i := by
  rintro q rfl
  cases hthis with
  | view hq =>
    rw [shown_of_preserves h hu hq]
    exact hi q rfl

theorem isInteger_index (i : Nat) : (Value.int i).IsInteger (i : Nat) := .inl rfl

theorem preserves_item (h : w.Sound) (hthis : IsArrayLike w this) (hi : HasItem w this i) :
    w.Preserves (w.after (item this i)) := by
  cases hthis with
  | record r => exact refl_of Preserves w
  | view hq => exact View.preserves_getIndex h hq (isInteger_index i) (hi _ rfl)

theorem readsAs_record {r : Ref .record} (hr : w.records.Has r) (hx : w.ReadsAs (.record r) i x w') :
    x = (w.records.get r).getD (toString i) .undefined := by
  obtain ⟨u, u', hu, hx, -⟩ := hx
  cases hx
  rw [(hu.record r hr).2]

theorem sight_readsAs (hc : w.Closed) (h : w.Sound) (hthis : IsArrayLike w this)
    (hthere : w.backs this = true) (hi : HasItem w this i) (hx : w.ReadsAs this i x w')
    (hy : w.ReadsAs this i y w') : w'.sight x = w'.sight y := by
  cases hthis with
  | record r =>
    have hr : w.records.Has r := of_decide_eq_true hthere
    rw [readsAs_record hr hx, readsAs_record hr hy]
  | view hq =>
    obtain ⟨u₁, v₁, h₁, hx, hz₁⟩ := hx
    obtain ⟨u₂, v₂, h₂, hy, hz₂⟩ := hy
    exact View.sight_getIndex hc h hq (isInteger_index i) (hi _ rfl) h₁ h₂ hx hy hz₁ hz₂

theorem sight_items (hc : w.Closed) (h : w.Sound) (hthis : IsArrayLike w this)
    (hthere : w.backs this = true) {is : List Nat} (his : ∀ i ∈ is, HasItem w this i) {xs ys : List Value}
    (hxs : List.Forall₂ (fun x i => w.ReadsAs this i x w') xs is)
    (hys : List.Forall₂ (fun y i => w.ReadsAs this i y w') ys is) :
    List.Forall₂ (fun x y => w'.sight x = w'.sight y) xs ys := by
  induction hxs generalizing ys with
  | nil =>
    cases hys
    exact .nil
  | @cons x i xs is hx _ ih =>
    obtain ⟨y, ys, hy, hrest, rfl⟩ := List.forall₂_cons_right_iff.mp hys
    refine .cons (sight_readsAs hc h hthis hthere (his i List.mem_cons_self) hx hy) ?_
    exact ih (fun j hj => his j (List.mem_cons_of_mem i hj)) hrest

theorem items_record {r : Ref .record} (hr : w.records.Has r) {is : List Nat} {xs : List Value}
    (hxs : List.Forall₂ (fun x i => w.ReadsAs (.record r) i x w') xs is) :
    xs = is.map fun i => (w.records.get r).getD (toString i) .undefined := by
  rw [← List.forall₂_eq_eq_eq, List.forall₂_map_right_iff]
  exact hxs.imp fun x i hx => readsAs_record hr hx

theorem succeeds_item_iff (h : w.Sound) (hthis : IsArrayLike w this) (hu : w.Preserves u)
    (hj : HasItem w this j)
    (hp : ∀ q, this = .view q → (View.Presentable u q j ↔ View.Presentable w q j)) :
    Succeeds (item this j) u ↔ Succeeds (item this j) w := by
  cases hthis with
  | record r => exact iff_of_true ⟨_, u, rfl⟩ ⟨_, w, rfl⟩
  | @view q hq =>
    have hj' : j < (u.shown q).length := (hj.of_preserves h (.view hq) hu) q rfl
    calc Succeeds (item (.view q) j) u
      _ ↔ View.Presentable u q j :=
        View.succeeds_getIndex_iff (hu.reads h).1 (hu.view q hq).1 (isInteger_index j) hj'
      _ ↔ View.Presentable w q j := hp q rfl
      _ ↔ Succeeds (item (.view q) j) w :=
        (View.succeeds_getIndex_iff h hq (isInteger_index j) (hj q rfl)).symm

theorem succeeds_item_iff_of_inUse (h : w.Sound) (hthis : IsArrayLike w this) (vs : List Value)
    (hj : HasItem w this j) :
    Succeeds (item this j) { w with inUse := vs } ↔ Succeeds (item this j) w :=
  succeeds_item_iff h hthis (preserves_inUse w vs) hj fun _ _ => Iff.rfl

theorem succeeds_item_iff_of_item (h : w.Sound) (hthis : IsArrayLike w this) (hi : HasItem w this i)
    (hx : item this i w = .ok x u) (hj : HasItem w this j) :
    Succeeds (item this j) u ↔ Succeeds (item this j) w := by
  have hu : w.Preserves u := after_of_ok hx ▸ preserves_item h hthis hi
  refine succeeds_item_iff h hthis hu hj ?_
  rintro q rfl
  cases hthis with
  | view hq => exact View.presentable_iff_of_getIndex h hq (isInteger_index i) (hi q rfl) hx j

theorem succeeds_item_iff_of_preserves (hc : w.Closed) (h : w.Sound) (hthis : IsArrayLike w this)
    (hu : w.Preserves u) (hj : HasItem w this j) :
    Succeeds (item this j) u ↔ Succeeds (item this j) w := by
  refine succeeds_item_iff h hthis hu hj ?_
  rintro q rfl
  cases hthis with
  | view hq => exact View.presentable_iff_of_preserves hc h hu hq (hj q rfl)

theorem holding_item (h : w.Sound) (hthis : IsArrayLike w this) (hi : HasItem w this i)
    {earlier : List Value} (hx : holding earlier (item this i) w = .ok x u) :
    ∃ u', item this i { w with inUse := earlier ++ w.inUse } = .ok x u' ∧
      u = { u' with inUse := w.inUse } ∧ w.Preserves u ∧ u'.Preserves u := by
  cases hitem : item this i { w with inUse := earlier ++ w.inUse } with
  | error f u' =>
    rw [holding_of_error hitem] at hx
    cases hx
  | ok y u' =>
    rw [holding_of_ok hitem] at hx
    cases hx
    have hheld := preserves_inUse w (earlier ++ w.inUse)
    have hread := preserves_item (hheld.reads h).1 (hthis.of_preserves hheld)
      (hi.of_preserves h hthis hheld)
    rw [after_of_ok hitem] at hread
    have hfree := preserves_inUse u' w.inUse
    exact ⟨u', rfl, rfl, trans_of Preserves hheld (trans_of Preserves hread hfree), hfree⟩

theorem succeeds_holding_iff (h : w.Sound) (hthis : IsArrayLike w this) (earlier : List Value)
    (hi : HasItem w this i) : Succeeds (holding earlier (item this i)) w ↔ Succeeds (item this i) w := by
  rw [← succeeds_item_iff_of_inUse h hthis (earlier ++ w.inUse) hi]
  cases hitem : item this i { w with inUse := earlier ++ w.inUse } with
  | error f u =>
    rw [Succeeds, Succeeds, holding_of_error hitem, hitem]
  | ok x u => exact iff_of_true ⟨x, _, holding_of_ok hitem⟩ ⟨x, u, hitem⟩

theorem succeeds_item_iff_of_holding (h : w.Sound) (hthis : IsArrayLike w this) (hi : HasItem w this i)
    {earlier : List Value} (hx : holding earlier (item this i) w = .ok x u) (hj : HasItem w this j) :
    Succeeds (item this j) u ↔ Succeeds (item this j) w := by
  have hheld := (preserves_inUse w (earlier ++ w.inUse))
  have hthis' := hthis.of_preserves hheld
  have hi' := hi.of_preserves h hthis hheld
  have hj' := hj.of_preserves h hthis hheld
  obtain ⟨u', hitem, rfl, hu, hfree⟩ := holding_item h hthis hi hx
  have hread : World.Preserves { w with inUse := earlier ++ w.inUse } u' :=
    after_of_ok hitem ▸ preserves_item (hheld.reads h).1 hthis' hi'
  have hsound := (hread.reads (hheld.reads h).1).1
  calc Succeeds (item this j) { u' with inUse := w.inUse }
    _ ↔ Succeeds (item this j) u' := succeeds_item_iff_of_inUse hsound
      (hthis'.of_preserves hread) w.inUse
      (hj'.of_preserves (hheld.reads h).1 hthis' hread)
    _ ↔ Succeeds (item this j) { w with inUse := earlier ++ w.inUse } :=
      succeeds_item_iff_of_item (hheld.reads h).1 hthis' hi' hitem hj'
    _ ↔ Succeeds (item this j) w := succeeds_item_iff_of_inUse h hthis _ hj

section

variable {α β γ : Type} {hold : α → List Value} {next : α → Value → α}
  {out : World → Value → Except HostFault β} {is : List Nat}

/-- Read the items at some indices in order, each while what is kept of the earlier ones is held, and
take something from each in the world in which it is there. -/
def readEach (this : Value) (hold : α → List Value) (next : α → Value → α)
    (out : World → Value → Except HostFault β) : (kept : α) → (indices : List Nat) → Action (List β)
  | _, [] => return []
  | kept, i :: rest => do
    let v ← holding (hold kept) (item this i)
    let b ← orFail (out (← get) v)
    return b :: (← readEach this hold next out (next kept v) rest)

theorem readEach_cons_of_ok {kept : α} {i : Nat}
    (hx : holding (hold kept) (item this i) w = .ok x u) :
    readEach this hold next out kept (i :: is) w = (orFail (out u x) >>= fun b =>
      readEach this hold next out (next kept x) is >>= fun bs => pure (b :: bs)) u := by
  rw [readEach, bind_apply_of_ok _ hx, get_bind_apply]

theorem readEach_ok (h : w.Sound) (hthis : IsArrayLike w this) (his : ∀ i ∈ is, HasItem w this i)
    {kept : α} {bs : List β} (hbs : readEach this hold next out kept is w = .ok bs w') :
    w.Preserves w' ∧ List.Forall₂ (fun b i => ∃ x u, w.ReadsAs this i x u ∧ w.Preserves u ∧
      u.Preserves w' ∧ out u x = .ok b) bs is := by
  -- each item is read in a world of its own, to which the earlier items were added
  induction is generalizing w kept bs with
  | nil =>
    cases hbs
    exact ⟨refl_of Preserves _, .nil⟩
  | cons i is ih =>
    cases hx : holding (hold kept) (item this i) w with
    | error f u =>
      rw [readEach, bind_apply_of_error _ hx] at hbs
      cases hbs
    | ok x u =>
      rw [readEach_cons_of_ok hx] at hbs
      cases hout : out u x with
      | error f =>
        rw [hout] at hbs
        cases hbs
      | ok b =>
        rw [hout, orFail_bind_apply] at hbs
        obtain ⟨cs, v, hcs, hlast⟩ := bind_eq_ok.mp hbs
        cases hlast
        obtain ⟨u', hitem, -, hu, hu'⟩ := holding_item h hthis (his i List.mem_cons_self) hx
        obtain ⟨hv, hall⟩ := ih (hu.reads h).1 (hthis.of_preserves hu)
          (fun j hj => (his j (List.mem_cons_of_mem i hj)).of_preserves h hthis hu) hcs
        refine ⟨trans_of Preserves hu hv, .cons ?_ ?_⟩
        · exact ⟨x, u, ⟨_, u', preserves_inUse w _, hitem, hu'⟩, hu, hv, hout⟩
        · refine hall.imp fun b j hb => ?_
          obtain ⟨y, z, hy, hz, hlast, hb⟩ := hb
          exact ⟨y, z, hy.widen hu (refl_of Preserves z), trans_of Preserves hu hz, hlast, hb⟩

/-- What was taken from several items was read. -/
theorem succeeds_item_of_readEach (h : w.Sound) (hthis : IsArrayLike w this)
    (his : ∀ i ∈ is, HasItem w this i) {kept : α}
    (hs : Succeeds (readEach this hold next out kept is) w) : ∀ i ∈ is, Succeeds (item this i) w := by
  induction is generalizing w kept with
  | nil => exact fun i hi => absurd hi List.not_mem_nil
  | cons i is ih =>
    have hi := his i List.mem_cons_self
    have his' := fun j hj => his j (List.mem_cons_of_mem i hj)
    obtain ⟨bs, v, hbs⟩ := hs
    cases hx : holding (hold kept) (item this i) w with
    | error f u =>
      rw [readEach, bind_apply_of_error _ hx] at hbs
      cases hbs
    | ok x u =>
      rw [readEach_cons_of_ok hx] at hbs
      obtain ⟨b, u', hb, hrest⟩ := bind_eq_ok.mp hbs
      obtain ⟨cs, v', hcs, -⟩ := bind_eq_ok.mp hrest
      have hsame : u' = u := by
        cases hout : out u x with
        | error f => rw [hout] at hb; cases hb
        | ok b => rw [hout] at hb; cases hb; rfl
      subst hsame
      obtain ⟨-, -, -, hu, -⟩ := holding_item h hthis hi hx
      have htail := ih (hu.reads h).1 (hthis.of_preserves hu)
        (fun j hj => (his' j hj).of_preserves h hthis hu) ⟨cs, v', hcs⟩
      rw [List.forall_mem_cons]
      refine ⟨(succeeds_holding_iff h hthis _ hi).mp ⟨x, _, hx⟩, fun j hj => ?_⟩
      exact (succeeds_item_iff_of_holding h hthis hi hx (his' j hj)).mp (htail j hj)

/-- What is taken from several items that can be read, if it is settled for each item: all of it, or
the fault of the first item from which it cannot be taken. -/
theorem readEach_outcome (hold : α → List Value) (next : α → Value → α)
    (out : World → Value → Except HostFault β) (h : w.Sound) (hthis : IsArrayLike w this)
    (his : ∀ i ∈ is, HasItem w this i) (hread : ∀ i ∈ is, Succeeds (item this i) w) (g : β → γ)
    (outcome : Nat → Except HostFault γ)
    (hout : ∀ i ∈ is, ∀ u x, w.Preserves u → w.ReadsAs this i x u → (out u x).map g = outcome i)
    (kept : α) : ∃ u, w.Preserves u ∧ match is.mapM outcome with
      | .ok cs => ∃ bs, readEach this hold next out kept is w = .ok bs u ∧ bs.map g = cs
      | .error f => readEach this hold next out kept is w = .error (.host f) u := by
  induction is generalizing w kept with
  | nil => exact ⟨w, refl_of Preserves w, [], rfl, rfl⟩
  | cons i is ih =>
    have hi := his i List.mem_cons_self
    have his' := fun j hj => his j (List.mem_cons_of_mem i hj)
    obtain ⟨x, u, hx⟩ := (succeeds_holding_iff h hthis (hold kept) hi).mpr (hread i List.mem_cons_self)
    obtain ⟨u', hitem, -, hu, hu'⟩ := holding_item h hthis hi hx
    have hhere := hout i List.mem_cons_self u x hu ⟨_, u', preserves_inUse w _, hitem, hu'⟩
    rw [readEach_cons_of_ok hx, List.mapM_cons, ← hhere]
    cases hb : out u x with
    | error f => exact ⟨u, hu, rfl⟩
    | ok b =>
      rw [orFail_bind_apply]
      obtain ⟨v, hv, hrest⟩ := ih (hu.reads h).1 (hthis.of_preserves hu)
        (fun j hj => (his' j hj).of_preserves h hthis hu)
        (fun j hj => (succeeds_item_iff_of_holding h hthis hi hx (his' j hj)).mpr
          (hread j (List.mem_cons_of_mem i hj)))
        (fun j hj z y hz hy => hout j (List.mem_cons_of_mem i hj) z y (trans_of Preserves hu hz)
          (hy.widen hu (refl_of Preserves z)))
        (next kept x)
      refine ⟨v, trans_of Preserves hu hv, ?_⟩
      cases hm : is.mapM outcome with
      | error f =>
        rw [hm] at hrest
        exact bind_apply_of_error _ hrest
      | ok cs =>
        rw [hm] at hrest
        obtain ⟨bs, hbs, rfl⟩ := hrest
        exact ⟨b :: bs, bind_apply_of_ok _ hbs, rfl⟩

theorem itemsAt_eq_readEach (this : Value) (earlier : List Value) (is : List Nat) :
    itemsAt this earlier is = readEach this id (fun vs v => v :: vs) (fun _ v => .ok v) earlier is := by
  induction is generalizing earlier with
  | nil => rfl
  | cons i is ih =>
    rw [itemsAt, readEach]
    simp only [ih]
    rfl

theorem itemsAt_ok (h : w.Sound) (hthis : IsArrayLike w this) (his : ∀ i ∈ is, HasItem w this i)
    {earlier xs : List Value} (hxs : itemsAt this earlier is w = .ok xs w') :
    w.Preserves w' ∧ List.Forall₂ (fun x i => w.ReadsAs this i x w') xs is := by
  rw [itemsAt_eq_readEach] at hxs
  obtain ⟨hw', hall⟩ := readEach_ok h hthis his hxs
  refine ⟨hw', hall.imp fun x i hx => ?_⟩
  obtain ⟨y, u, hy, -, hu, ⟨⟩⟩ := hx
  exact hy.widen (refl_of Preserves w) hu

theorem succeeds_itemsAt_iff (h : w.Sound) (hthis : IsArrayLike w this)
    (his : ∀ i ∈ is, HasItem w this i) (earlier : List Value) :
    Succeeds (itemsAt this earlier is) w ↔ ∀ i ∈ is, Succeeds (item this i) w := by
  rw [itemsAt_eq_readEach]
  refine ⟨succeeds_item_of_readEach h hthis his, fun hread => ?_⟩
  obtain ⟨u, -, hok⟩ := readEach_outcome id (fun vs v => v :: vs) (fun _ v => .ok v) h hthis
    his hread (fun _ => ()) (fun _ => .ok ()) (fun _ _ _ _ _ _ => rfl) earlier
  have hall : is.mapM (fun _ => (.ok () : Except HostFault Unit)) = .ok (is.map fun _ => ()) :=
    List.mapM_pure
  rw [hall] at hok
  obtain ⟨xs, hxs, -⟩ := hok
  exact ⟨xs, u, hxs⟩

end

theorem length_eq_ok_iff (h : w.Sound) (hthis : IsArrayLike w this) {u : World} :
    length this w = .ok n u ↔
      ∃ x, w.numberOf (lengthEntry w this) = .ok x ∧ x.asLength = n ∧ u = w := by
  rw [length_eq h hthis]
  cases hx : w.numberOf (lengthEntry w this) with
  | error f =>
    have hfails : numberOf (lengthEntry w this) w = .error (.host f) w := by rw [numberOf, hx]
    rw [bind_apply_of_error _ hfails]
    constructor
    · intro hok
      cases hok
    · rintro ⟨x, hok, -⟩
      cases hok
  | ok x =>
    have hok : numberOf (lengthEntry w this) w = .ok x w := by rw [numberOf, hx]
    rw [bind_apply_of_ok _ hok]
    constructor
    · rintro ⟨⟩
      exact ⟨x, rfl, rfl, rfl⟩
    · rintro ⟨_, ⟨⟩, rfl, rfl⟩
      rfl

theorem hasItem_of_length (h : w.Sound) (hthis : IsArrayLike w this) (hn : length this w = .ok n w)
    (hi : i < n) : HasItem w this i := by
  rintro q rfl
  cases hthis with
  | view hq =>
    obtain ⟨x, hx, rfl, -⟩ := (length_eq_ok_iff h (.view hq)).mp hn
    have hnumber : Double.ofInt? (w.shown q).length = .ok x := hx
    rw [Double.ofInt?] at hnumber
    split at hnumber
    · cases hnumber
      exact Nat.lt_of_lt_of_le hi (Double.asLength_ofInt_le _)
    · cases hnumber

theorem length_of_preserves (hc : w.Closed) (h : w.Sound) (hthis : IsArrayLike w this)
    (hthere : w.backs this = true) (hu : w.Preserves u) (hn : length this w = .ok n w) :
    length this u = .ok n u := by
  obtain ⟨x, hx, hlength, -⟩ := (length_eq_ok_iff h hthis).mp hn
  refine (length_eq_ok_iff (hu.reads h).1 (hthis.of_preserves hu)).mpr ⟨x, ?_, hlength, rfl⟩
  cases hthis with
  | record r =>
    have hr : w.records.Has r := of_decide_eq_true hthere
    rw [lengthEntry, (hu.record r hr).2]
    exact (hu.numberOf_eq hc h (hc.backs_entry r "length" rfl)).trans hx
  | view hq =>
    rw [lengthEntry, shown_of_preserves h hu hq]
    exact hx

end Receiver
end ScriptedArrays
