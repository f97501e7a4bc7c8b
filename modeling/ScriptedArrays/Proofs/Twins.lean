import ScriptedArrays.Proofs.KnownViews
import ScriptedArrays.Proofs.Refusals
import ScriptedArrays.Proofs.TextSlots
import ScriptedArrays.Proofs.Traces

/-!
Twin views. A view that was made for one scope shows the same array as a view that was made for
another one, so whatever is read or written by an index ends alike through both. The two worlds stay
alike but for scopes and prototypes, also where views in one of them are handed out again that are
made anew in the other one.
-/

namespace ScriptedArrays

open World

/-- The views differ at most in their scopes and in what they know of their prototypes. -/
def View.Twins (x y : View) : Prop := y = { x with scope := y.scope, prototype := y.prototype }

theorem View.Twins.alike {x y : View} (h : x.Twins y) : y.array = x.array ∧ y.length = x.length ∧
    y.slot = x.slot ∧ y.presenter = x.presenter ∧ y.truncates = x.truncates := by
  rw [View.Twins] at h
  rw [h]
  exact ⟨rfl, rfl, rfl, rfl, rfl⟩

/-- Two actions end alike: well, with related results, or with the same fault. The worlds are related
in either case. -/
inductive Together {α β : Type} (R : World → World → Prop) (V : World → World → α → β → Prop) :
    EStateM.Result Fault World α → EStateM.Result Fault World β → Prop
  | ok {w u : World} {a : α} {b : β} (h : R w u) (hv : V w u a b) : Together R V (.ok a w) (.ok b u)
  | error {w u : World} {f : Fault} (h : R w u) : Together R V (.error f w) (.error f u)

section

variable {α β γ δ : Type} {R : World → World → Prop} {V : World → World → α → β → Prop}
  {V' : World → World → γ → δ → Prop} {w u : World}

theorem Together.bind {x : Action α} {x' : Action β} {f : α → Action γ} {f' : β → Action δ}
    (hx : Together R V (x w) (x' u))
    (hf : ∀ {a b w u}, R w u → V w u a b → Together R V' (f a w) (f' b u)) :
    Together R V' ((x >>= f) w) ((x' >>= f') u) := by
  generalize hresult : x w = result at hx
  generalize hresult' : x' u = result' at hx
  cases hx with
  | ok h hv =>
    rw [bind_apply_of_ok _ hresult, bind_apply_of_ok _ hresult']
    exact hf h hv
  | error h =>
    rw [bind_apply_of_error _ hresult, bind_apply_of_error _ hresult']
    exact .error h

theorem Together.mono {V' : World → World → α → β → Prop} {x : EStateM.Result Fault World α}
    {x' : EStateM.Result Fault World β} (h : Together R V x x')
    (hv : ∀ {w u a b}, V w u a b → V' w u a b) : Together R V' x x' := by
  cases h with
  | ok h hval => exact .ok h (hv hval)
  | error h => exact .error h

end

structure TwinViews (st st' : Store .view View) (r q : Ref .view) : Prop where
  left : st.Has r
  right : st'.Has q
  twins : (st.get r).Twins (st'.get q)

theorem TwinViews.of_eq {st st' t t' : Store .view View} {r q : Ref .view} (h : TwinViews st st' r q)
    (ht : st.Has r → t.Has r ∧ t.get r = st.get r) (ht' : st'.Has q → t'.Has q ∧ t'.get q = st'.get q) :
    TwinViews t t' r q := by
  obtain ⟨hhas, hget⟩ := ht h.left
  obtain ⟨hhas', hget'⟩ := ht' h.right
  refine ⟨hhas, hhas', ?_⟩
  rw [hget, hget']
  exact h.twins

theorem Store.has_get_push {s : Species} {α : Type} [Inhabited α] (st : Store s α) (x : α) {r : Ref s}
    (hr : st.Has r) : (st.push x).Has r ∧ (st.push x).get r = st.get r :=
  ⟨has_push_of_has st x hr, get_push_of_ne st x (st.ne_next_of_has hr)⟩

namespace Value.IsPrimitive

variable {v : Value}

theorem same_numberOf (h : v.IsPrimitive) (w u : World) : u.numberOf v = w.numberOf v := by
  cases v <;> first | rfl | exact h.elim

theorem same_textValue (h : v.IsPrimitive) (w u : World) : u.textValue v = w.textValue v := by
  cases v <;> first | rfl | exact h.elim

theorem same_quote (h : v.IsPrimitive) (w u : World) :
    u.quoteOperand? (.plain v) = w.quoteOperand? (.plain v) := by
  cases v <;> first | rfl | exact h.elim

theorem opened (h : v.IsPrimitive) : v.opened = v := by
  cases v with
  | scalar t x => exact h.elim
  | kept id x => exact h.elim
  | member owner name x => exact h.elim
  | _ => rfl

theorem hostValue (h : v.IsPrimitive) (w : World) : w.hostValue v = v :=
  hostValue_eq_self h.isWrapper

theorem same_wholeNumber (h : v.IsPrimitive) (w u : World) (given : Value) (cell : CellType) :
    Conversion.wholeNumber u given v cell = Conversion.wholeNumber w given v cell := by
  unfold Conversion.wholeNumber
  rw [h.same_numberOf w u]

theorem same_cellText (h : v.IsPrimitive) (w u : World) (given : Value) (cell : CellType) :
    Conversion.cellText u given v cell = Conversion.cellText w given v cell := by
  cases v <;> first | rfl | exact h.elim

theorem same_toCell (h : v.IsPrimitive) (w u : World) (truncates : Bool) (cell : CellType) :
    Conversion.toCell u truncates cell v = Conversion.toCell w truncates cell v := by
  unfold Conversion.toCell
  simp only [h.hostValue, h.item]
  cases cell.content with
  | int signed bytes =>
    dsimp only
    rw [Conversion.toInteger, Conversion.toInteger, h.same_wholeNumber w u]
  | real p =>
    dsimp only
    unfold Conversion.toReal
    rw [h.same_numberOf w u]
  | text n | bytes n =>
    dsimp only
    rw [h.same_cellText w u]
  | _ => rfl

theorem same_sameText (h : v.IsPrimitive) (w u : World) (x : Value) :
    u.sameText v x = w.sameText v x := by
  unfold World.sameText
  simp only [h.hostValue, h.same_textValue w u]

end Value.IsPrimitive

section

variable {v : Value}

theorem exists_refuseWith {α : Type} {r : Refusal} (hv : v.IsPrimitive)
    (hr : ∀ given target reason, r = .unfit given target reason → given = .plain v) :
    ∃ f, ∀ w, ∃ l, (refuseWith r : Action α) w = .error f { w with log := l } := by
  cases r with
  | host f => exact ⟨.host f, fun w => ⟨w.log, rfl⟩⟩
  | unfit given target reason =>
    obtain rfl := hr given target reason rfl
    cases hq : World.empty.quoteOperand? (.plain v) with
    | error f =>
      refine ⟨.host f, fun w => ⟨w.log, ?_⟩⟩
      rw [refuseWith, get_bind_apply, hv.same_quote World.empty w, hq]
      rfl
    | ok t =>
      refine ⟨.cannotConvert t target reason, fun w => ?_⟩
      obtain ⟨l, hl⟩ := logEvent_eq (.conversionFailed t target reason) w
      refine ⟨l, ?_⟩
      have htext : (orFail (.ok t) : Action String) w = .ok t w := rfl
      rw [refuseWith, get_bind_apply, hv.same_quote World.empty w, hq, bind_apply_of_ok _ htext,
        bind_apply_of_ok _ hl]
      rfl

/-- A primitive is converted alike in every world. -/
theorem convert_of_isPrimitive (hv : v.IsPrimitive) (truncates : Bool) (slot : SlotType) :
    (∃ f, ∀ w, ∃ l, convert truncates slot v w = .error f { w with log := l }) ∨
    (slot.isNested = false ∧ ∃ x, (∀ w, convert truncates slot v w = .ok x w) ∧
      (slot.cell.isObject = true → x = v)) := by
  by_cases hn : slot.isNested = true
  · obtain ⟨cell, shape⟩ := slot
    cases shape with
    | nil => cases hn
    | cons n shape =>
      have hitem : ∀ w : World, (w.hostValue v).item.IsPrimitive := fun w => by
        rw [hv.hostValue, hv.item]
        exact hv
      obtain ⟨f, hf⟩ := exists_refuseWith (α := Value)
        (r := .unfit (.plain v) (SlotType.name ⟨cell, n :: shape⟩) "array expected") hv
        (by rintro _ _ _ ⟨⟩; rfl)
      refine .inl ⟨f, fun w => ?_⟩
      rw [convert_of_refused hn (Conversion.toCells_of_isPrimitive (hitem w))]
      exact hf w
  · cases hc : Conversion.toCell World.empty truncates slot.cell v with
    | error r =>
      obtain ⟨f, hf⟩ := exists_refuseWith (α := Value) (r := r) hv
        (by rintro given target reason rfl; exact (Conversion.blames_toCell.unfit _ _ _ hc).1)
      refine .inl ⟨f, fun w => ?_⟩
      rw [convert_plain_refused hn ((hv.same_toCell World.empty w truncates _).trans hc)]
      exact hf w
    | ok c =>
      refine .inr ⟨by simpa using hn, if slot.cell.isObject then c else World.empty.sameText v c,
        fun w => ?_, fun ho => ?_⟩
      · rw [convert_plain hn ((hv.same_toCell World.empty w truncates _).trans hc),
          hv.same_sameText World.empty w]
      · have hcontent : slot.cell.content = .object := by simpa [CellType.isObject] using ho
        rw [if_pos ho]
        rw [Conversion.toCell, hcontent, hv.hostValue, hv.item, hv.opened] at hc
        dsimp only at hc
        rw [if_neg fun h => by rw [h] at hv; exact hv] at hc
        exact (Except.ok.inj hc).symm

end

/-- What a primitive is stored as is no view. -/
theorem not_view_stored {w : World} {truncates : Bool} {slot : SlotType} {v x y : Value}
    (hv : v.IsPrimitive) (hw : w.Sound) (hp : slot.cell.content.IsProper) (hn : slot.isNested = false)
    (hx : convert truncates slot v w = .ok x w) (ho : slot.cell.isObject = true → x = v)
    (hy : y.content = x.content) : ∀ r, (slot.cell.stored y).opened.content ≠ .view r := by
  have hprimitive : (slot.cell.stored y).content.IsPrimitive := by
    by_cases hobject : slot.cell.isObject = true
    · rw [CellType.stored, if_pos hobject, hy, ho hobject, hv.content]
      exact hv
    · have ho' : slot.cell.isObject = false := by simpa using hobject
      rw [stored_of_content ho' hy]
      rcases convert_cases truncates v hw hp with
        ⟨f, l, hf⟩ | ⟨-, z, hz, hacc⟩ | ⟨hn', -⟩
      · cases hx.symm.trans hf
      · cases hx.symm.trans hz
        have hstored := isPrimitive_of_admits ho' hacc.1
        rw [hstored.content]
        exact hstored
      · cases hn.symm.trans hn'
  generalize slot.cell.stored y = c at hprimitive
  intro r hr
  rw [Value.opened] at hr
  split at hr
  · rename_i t z hc
    rw [hc] at hprimitive
    exact hprimitive
  · rw [hr] at hprimitive
    exact hprimitive

namespace World

/-- The values are paired if they are views, and otherwise the same. -/
inductive Twinned (P : Ref .view → Ref .view → Prop) : Value → Value → Prop
  | view {r q : Ref .view} (h : P r q) : Twinned P (.view r) (.view q)
  | same {v : Value} (h : ∀ r, v ≠ .view r) : Twinned P v v

def TwinnedIn (w u : World) : Value → Value → Prop := Twinned (TwinViews w.views u.views)

/-- The worlds differ in views, of which some are paired as twins, in what presenters know of them,
and in the scopes of boxes. Cells hold no views but such as are their own twins. -/
structure Parallels (P : Ref .view → Ref .view → Prop) (w u : World) : Prop where
  lists : u.lists = w.lists
  tuples : u.tuples = w.tuples
  records : u.records = w.records
  buffers : u.buffers = w.buffers
  arrays : u.arrays = w.arrays
  functions : u.functions = w.functions
  scopes : u.scopes = w.scopes
  kept : u.kept = w.kept
  boxCount : u.boxes.size = w.boxes.size
  boxes : ∀ b, u.boxes.get b = { w.boxes.get b with scope := (u.boxes.get b).scope }
  presenters : ∀ p, u.presenters.get p = { w.presenters.get p with known := none }
  pairs : ∀ r q, P r q → TwinViews w.views u.views r q
  cells : ∀ b, ∀ c ∈ w.buffers.get b, ∀ r, c.opened.content = .view r → P r r

variable {P : Ref .view → Ref .view → Prop} {w u : World}

namespace Parallels

theorem freshView (h : Parallels P w u) (p : Ref .presenter) (a : Ref .array) (s s' : Value) :
    (w.freshView p a s).Twins (u.freshView p a s') := by
  rw [View.Twins, World.freshView, World.freshView, h.arrays, h.presenters p]

/-- Presenters hand out twins. -/
theorem viewOf (h : Parallels P w u) (hw : World.empty.Moves w) (p : Ref .presenter) {a : Ref .array}
    (s s' : Value) (hs : (w.arrays.get a).shape ≠ []) :
    Together (Parallels P) (fun w u => TwinViews w.views u.views) (Presenter.viewOf p a s w)
      (Presenter.viewOf p a s' u) := by
  have hs' : (u.arrays.get a).shape ≠ [] := by rwa [h.arrays]
  have hoff : (u.presenters.get p).known = none := by rw [h.presenters p]
  have hfresh := h.freshView p a s s'
  rcases Presenter.viewOf_cases u p s' hs' with
    ⟨known, q, hknown, -⟩ | ⟨l', ps', hu, ⟨-, rfl⟩ | ⟨known, hknown, -⟩⟩
  · cases hoff.symm.trans hknown
  · rw [hu]
    -- the second presenter always makes a view, the first one may know one
    rcases Presenter.viewOf_cases w p s hs with
      ⟨known, q, hknown, hq, hv⟩ | ⟨l, ps, hv, hps⟩
    · rw [hv]
      refine .ok { h with pairs := fun r q hp => ?_ } ⟨?_, Store.has_push_next _ _, ?_⟩
      · exact (h.pairs r q hp).of_eq (fun hr => ⟨hr, rfl⟩) (Store.has_get_push _ _)
      · obtain ⟨⟨k, hmem⟩, -⟩ := Presenter.known?_eq_some hq
        exact (hw.leads sound_empty).1.known p known hknown _ hmem
      · have hknownView := view_of_known? hw hknown hq s
        dsimp only
        rw [Store.get_push_next]
        show u.freshView p a s' = { w.views.get q with scope := s', prototype := none }
        rw [hknownView]
        exact hfresh
    · rw [hv]
      refine .ok { h with presenters := fun p' => ?_, pairs := fun r q hp => ?_ }
        ⟨Store.has_push_next _ _, Store.has_push_next _ _, ?_⟩
      · rcases hps with ⟨-, rfl⟩ | ⟨known, -, -, rfl⟩
        · exact h.presenters p'
        · dsimp only
          rw [h.presenters p', Store.get_set]
          split
          · rename_i hp
            rw [hp.1]
          · rfl
      · exact (h.pairs r q hp).of_eq (Store.has_get_push _ _) (Store.has_get_push _ _)
      · dsimp only
        rw [Store.get_push_next, Store.get_push_next]
        exact hfresh
  · cases hoff.symm.trans hknown

theorem keep (h : Parallels P w u) (v : Value) : Together (Parallels P)
    (fun z _ x y => x = y ∧ x.content = v.content ∧ z.arrays = w.arrays)
    (ScriptedArrays.keep v w) (ScriptedArrays.keep v u) := by
  by_cases hv : v.isObject = true
  · have hkeep : ∀ z, ScriptedArrays.keep v z = .ok v z := fun z => by
      simp only [ScriptedArrays.keep, modifyGet, MonadStateOf.modifyGet, EStateM.modifyGet, if_pos hv]
    rw [hkeep, hkeep]
    exact .ok h ⟨rfl, rfl, rfl⟩
  · have hkeep : ∀ z, ScriptedArrays.keep v z = .ok (.kept z.kept v) { z with kept := z.kept + 1 } :=
      fun z => by
        simp only [ScriptedArrays.keep, modifyGet, MonadStateOf.modifyGet, EStateM.modifyGet, if_neg hv]
    rw [hkeep, hkeep]
    refine .ok { h with kept := congrArg (· + 1) h.kept }
      ⟨congrArg (Value.kept · v) h.kept.symm, ?_, rfl⟩
    show v = v.content
    exact (content_of_not_isObject (by simpa using hv)).symm

theorem newBox (h : Parallels P w u) (s s' v : Value) (p : Ref .presenter) :
    Together (Parallels P) (fun _ _ b c => b = c) (ScriptedArrays.newBox s v p none w)
      (ScriptedArrays.newBox s' v p none u) := by
  refine (h.keep v).bind ?_
  rintro x y w u h ⟨rfl, -⟩
  have hnext : w.boxes.next = u.boxes.next := congrArg Ref.mk h.boxCount.symm
  refine .ok { h with boxCount := ?_, boxes := fun b => ?_ } hnext
  · simp only [Store.size, Store.push, Array.size_push]
    exact congrArg (· + 1) h.boxCount
  · dsimp only
    by_cases hb : b = w.boxes.next
    · rw [hb, Store.get_push_next, hnext, Store.get_push_next, h.presenters p]
    · rw [Store.get_push_of_ne _ _ hb, Store.get_push_of_ne _ _ (hnext ▸ hb)]
      exact h.boxes b

theorem cell_pairs (h : Parallels P w u) (win : Window) (k : Nat) :
    ∀ r, (w.cell win k).opened.content = .view r → P r r := by
  intro r hr
  rw [World.cell] at hr
  cases hc : (w.buffers.get win.buffer)[win.start + k]? with
  | none =>
    rw [hc] at hr
    cases hr
  | some c =>
    rw [hc] at hr
    exact h.cells _ c (Array.mem_of_getElem? hc) r hr

theorem itemValue_pairs (h : Parallels P w u) (win : Window) (k : Nat) :
    ∀ r, (win.type.itemValue (w.cell win k)).opened.content = .view r → P r r := by
  intro r hr
  refine h.cell_pairs win k r ?_
  rw [CellType.itemValue] at hr
  split at hr
  · exact hr
  · generalize w.cell win k = c at hr ⊢
    change c.content = .view r at hr
    rw [Value.opened, hr]
    exact hr

theorem presentFrom (h : Parallels P w u) (hw : World.empty.Moves w) (p : Ref .presenter)
    (s s' : Value) (fuel : Nat) {v : Value} (hv : ∀ r, v.opened.content = .view r → P r r) :
    Together (Parallels P) TwinnedIn (Presenter.presentFrom p s fuel v w)
      (Presenter.presentFrom p s' fuel v u) := by
  induction fuel generalizing v with
  | zero => exact .error h
  | succ fuel ih =>
    have hkeep : ∀ x : Value, (∀ r, x.content ≠ .view r) →
        Together (Parallels P) TwinnedIn (ScriptedArrays.keep x w) (ScriptedArrays.keep x u) := by
      intro x hx
      refine (h.keep x).mono ?_
      rintro w u y z ⟨rfl, hy, -⟩
      refine .same fun r hr => hx r ?_
      rw [← hy, hr]
      rfl
    have hbox : Together (Parallels P) TwinnedIn
        ((ScriptedArrays.newBox s v.opened p none >>= fun r => (pure (.box r) : Action Value)) w)
        ((ScriptedArrays.newBox s' v.opened p none >>= fun r => (pure (.box r) : Action Value)) u) := by
      refine (h.newBox s s' v.opened p).bind ?_
      rintro b c w u h rfl
      exact .ok h (.same fun _ => Value.noConfusion)
    rw [Presenter.presentFrom, Presenter.presentFrom]
    dsimp only
    cases hc : v.opened.content with
    | null => exact .ok h (.same fun _ => Value.noConfusion)
    | array r =>
      dsimp only
      rw [get_bind_apply, get_bind_apply, h.arrays]
      by_cases hs : (w.arrays.get r).shape = []
      · simp only [hs, List.isEmpty_nil, if_true]
        have hcell : u.cell (w.arrays.get r) 0 = w.cell (w.arrays.get r) 0 := by
          rw [World.cell, World.cell, h.buffers]
        rw [hcell]
        exact ih (h.cell_pairs _ _)
      · have hne : ¬ (w.arrays.get r).shape.isEmpty = true := by simpa using hs
        simp only [if_neg hne]
        refine (h.viewOf hw p s s' hs).bind ?_
        intro q q' w u h hq
        exact .ok h (.view hq)
    | bytes b => exact hkeep _ fun _ => Value.noConfusion
    | bool b | int i | number x | text t =>
      refine hkeep _ fun r hr => ?_
      cases hc.symm.trans hr
    | view r => exact .ok h (.view (h.pairs r r (hv r hc)))
    | box b => exact .ok h (.same fun _ => Value.noConfusion)
    | _ => exact hbox

theorem present (h : Parallels P w u) (hw : World.empty.Moves w) (p : Ref .presenter) (s s' : Value)
    {v : Value} (hv : ∀ r, v.opened.content = .view r → P r r) :
    Together (Parallels P) TwinnedIn (Presenter.present p v s w) (Presenter.present p v s' u) := by
  rw [Presenter.present, Presenter.present, get_bind_apply, get_bind_apply, h.arrays]
  exact h.presentFrom hw p s s' _ hv

/-- Twins read the same slot alike. -/
theorem getIndex (h : Parallels P w u) (hw : World.empty.Moves w) (hu : u.Sound) {r q : Ref .view}
    (hp : TwinViews w.views u.views r q) (i : Int) :
    Together (Parallels P) TwinnedIn (View.getIndex r (.int i) w) (View.getIndex q (.int i) u) := by
  have hsound : w.Sound := (hw.leads sound_empty).1
  have hi : (Value.int i).IsInteger i := .inl rfl
  obtain ⟨hr, hq, htwins⟩ := hp
  obtain ⟨harray, -, -, hpresenter, -⟩ := htwins.alike
  have hshown : u.shown q = w.shown r := by rw [World.shown, World.shown, h.arrays, harray]
  by_cases hin : 0 ≤ i ∧ i < (w.shown r).length
  · lift i to Nat using hin.1
    have hk : i < (w.shown r).length := Int.ofNat_lt.mp hin.2
    rw [View.getIndex_of_in hsound hr hi hk, View.getIndex_of_in hu hq hi (hshown ▸ hk), hshown,
      hpresenter]
    by_cases hn : (w.shown r).rowShape = []
    · rw [bind_apply_of_ok _ (slotValue_plain hn i w), bind_apply_of_ok _ (slotValue_plain hn i u)]
      have hcell : u.cell (w.shown r) i = w.cell (w.shown r) i := by
        rw [World.cell, World.cell, h.buffers]
      rw [hcell]
      exact h.present hw _ _ _ (h.itemValue_pairs _ _)
    · have hn' : ¬ (w.shown r).rowShape.isEmpty = true := by simpa using hn
      have hslot : ∀ z : World, slotValue (w.shown r) i z = .ok (.array z.arrays.next)
          { z with arrays := z.arrays.push ((w.shown r).row i) } := fun z => by
        rw [slotValue, if_neg hn']
        rfl
      have hmoved : World.empty.Moves { w with arrays := w.arrays.push ((w.shown r).row i) } := by
        refine .trans hw ?_
        rw [← after_of_ok (hslot w)]
        exact .other (fun hs => ⟨(reads_slotValue (hsound.shows _) hk hs).1,
          (reads_slotValue (hsound.shows _) hk hs).2.1⟩) (spares_slotValue _ _ w)
      have hnext : u.arrays.next = w.arrays.next := congrArg Store.next h.arrays
      rw [bind_apply_of_ok _ (hslot w), bind_apply_of_ok _ (hslot u), hnext]
      refine Parallels.present ?_ hmoved _ _ _ fun _ => Value.noConfusion
      exact { h with arrays := congrArg (Store.push · _) h.arrays }
  · rw [View.getIndex_beyond hsound hr hi hin, View.getIndex_beyond hu hq hi (hshown ▸ hin)]
    exact .ok h (.same fun _ => Value.noConfusion)

theorem of_log (h : Parallels P w u) (l l' : Array Event) :
    Parallels P { w with log := l } { u with log := l' } := { h with }

theorem setCells (h : Parallels P w u) (win : Window) {cells : List Value}
    (hc : ∀ c ∈ cells, ∀ r, c.opened.content ≠ .view r) :
    Parallels P (w.setCells win cells) (u.setCells win cells) := by
  refine { h with buffers := ?_, cells := fun b c hmem r hr => ?_ }
  · rw [World.setCells, World.setCells, h.buffers]
  · dsimp only [World.setCells] at hmem
    rw [Store.get_set] at hmem
    split at hmem
    · obtain ⟨k, hk, hget⟩ := Array.mem_iff_getElem.mp hmem
      have hget' := Array.getElem?_eq_getElem hk
      rw [hget, getElem?_overwrite] at hget'
      split at hget'
      · exact absurd hr (hc c (List.mem_of_mem_take (List.mem_of_getElem? hget')) r)
      · exact h.cells _ c (Array.mem_of_getElem? hget') r hr
    · exact h.cells b c hmem r hr

theorem setIndex_beyond (h : Parallels P w u) {r q : Ref .view} {i : Int}
    (hlength : (u.views.get q).length = (w.views.get r).length)
    (hin : ¬ (0 ≤ i ∧ i < (w.views.get r).length)) (v : Value) :
    Together (Parallels P) (fun _ _ _ _ => True) (View.setIndex r (.int i) v w)
      (View.setIndex q (.int i) v u) := by
  have hi : (Value.int i).IsInteger i := .inl rfl
  have hout : ∀ z : World, z.inBounds (.int i) (w.views.get r).length = .ok false := fun z =>
    (inBounds_integer z hi _).trans (congrArg _ (decide_eq_false hin))
  obtain ⟨l, hl⟩ := logEvent_eq (.writeRejected i (w.views.get r).length) w
  obtain ⟨l', hl'⟩ := logEvent_eq (.writeRejected i (w.views.get r).length) u
  rw [View.setIndex_of_out (hout w), View.setIndex_of_out (hlength ▸ hout u), hlength,
    bind_apply_of_ok _ ((View.logRejected_eq hi _ w).trans hl),
    bind_apply_of_ok _ ((View.logRejected_eq hi _ u).trans hl'), get_bind_apply, get_bind_apply,
    View.indexText?_integer hi, View.indexText?_integer hi]
  cases Display.written (Display.isWritten (.int i)) (toString i) with
  | ok t => exact .error (h.of_log l l')
  | error f => exact .error (h.of_log l l')

/-- Twins take the same primitives. -/
theorem setIndex (h : Parallels P w u) (hw : w.Sound) {r q : Ref .view}
    (hp : TwinViews w.views u.views r q) (i : Int) {v : Value} (hv : v.IsPrimitive) :
    Together (Parallels P) (fun _ _ _ _ => True) (View.setIndex r (.int i) v w)
      (View.setIndex q (.int i) v u) := by
  have hi : (Value.int i).IsInteger i := .inl rfl
  obtain ⟨hr, hq, htwins⟩ := hp
  obtain ⟨harray, hlength, hslot, -, htruncates⟩ := htwins.alike
  by_cases hin : 0 ≤ i ∧ i < (w.views.get r).length
  · have hbounds : ∀ z : World, z.inBounds (.int i) (w.views.get r).length = .ok true := fun z =>
      (inBounds_integer z hi _).trans (congrArg _ (decide_eq_true hin))
    lift i to Nat using hin.1
    rw [View.setIndex_of_in (hbounds w), View.setIndex_of_in (hlength ▸ hbounds u), hslot, htruncates]
    rcases convert_of_isPrimitive hv (w.views.get r).truncates (w.views.get r).slot with
      ⟨f, hf⟩ | ⟨hn, x, hx, ho⟩
    · obtain ⟨l, hl⟩ := hf w
      obtain ⟨l', hl'⟩ := hf u
      rw [bind_apply_of_error _ hl, bind_apply_of_error _ hl']
      exact .error (h.of_log l l')
    · -- both store the same value, which is no view
      rw [bind_apply_of_ok _ (hx w), bind_apply_of_ok _ (hx u)]
      refine (h.keep x).bind ?_
      rintro y y' z z' hz ⟨rfl, hy, ha⟩
      have hput : ∀ z : World, View.put (w.views.get r).slot (w.shown r) (.int i) y z =
          .ok () (z.setCells ((w.shown r).row i) [(w.views.get r).slot.cell.stored y]) := fun z => by
        have hselect := select_integer z hi (hw.length_shown hr ▸ Int.ofNat_lt.mp hin.2)
        rw [View.put_of_slot hselect, rowCells_single hn]
      have hshown : z.arrays.get (w.views.get r).array = w.shown r := by rw [ha, World.shown]
      rw [get_bind_apply, get_bind_apply, harray, hz.arrays, hshown, hput, hput]
      refine .ok (hz.setCells _ fun c hc => ?_) trivial
      rw [List.mem_singleton.mp hc]
      exact not_view_stored hv hw (hw.cell_slot r ▸ (hw.regular _).2) hn (hx w) ho hy
  · exact h.setIndex_beyond hlength hin v

end Parallels
end World
end ScriptedArrays
