import ScriptedArrays.Proofs.MethodCalls

/-! Consistency of views. Whatever is done to a view, to other views of its array or to anything
else, the view keeps the array, the length and the slot type that it was made with, and its keys,
its iteration and its indexed reads agree with each other. -/

namespace ScriptedArrays

open World

/-- What may happen to views: calls of their protocol methods, iterations, searches, and methods of
script arrays whose callback does nothing else, one after the other, and whatever other operations
hosts and scripts ask for. Any of these may fail. A method whose callback fails ends in the world in
which the callback was called, so the worlds between two calls are reached as well. -/
inductive Run : World → World → Prop
  | refl (w : World) : Run w w
  | trans {u v w : World} (first : Run u v) (rest : Run v w) : Run u w
  | protocol (w : World) (r : Ref .view) (name : String) (args : List Value) :
      Run w (w.after (BoundMethod.ofView r name args))
  | iterate (w : World) (r : Ref .view) : Run w (w.after (View.elements r))
  | search (w : World) (kind : SearchKind) (array : Ref .array) (test : SlotTest)
      (args : List Value) : Run w (w.after (Search.call kind array test args))
  | method (w : World) (call : ArrayMethod.Caller)
      (callback : ∀ u callee this args, Run u (u.after (call callee this args))) (m : ArrayMethod)
      (prototype : Ref .record) (this : Value) (args : List Value) :
      Run w (w.after (ArrayMethod.run call m prototype this args))
  | other {w w' : World} (s : Step w w') : Run w w'

theorem Run.moves {w w' : World} (h : Run w w') : w.Moves w' := by
  induction h with
  | refl w => exact .refl w
  | trans _ _ ih ih' => exact .trans ih ih'
  | protocol w r name args => exact BoundMethod.moves_ofView r name args w
  | iterate w r => exact View.moves_elements r w
  | search w kind array test args => exact Search.moves_call kind array test args w
  | method w call _ m prototype this args ih =>
    have hsane : ArrayMethod.Sane call := fun callee this args u => ih u callee this args
    exact ArrayMethod.moves_run hsane m prototype this args w
  | other s => exact s.moves

theorem Run.leads {w w' : World} (h : Run w w') : w.Leads w' := h.moves.leads

namespace View

variable {w : World} {r : Ref .view} {i : Value} {k : Nat}

/-- What a slot holds can be presented: a row, or anything but an array without axes that holds
itself. -/
def Presentable (w : World) (r : Ref .view) (k : Nat) : Prop :=
  (w.shown r).rowShape ≠ [] ∨ w.Presentable ((w.shown r).type.itemValue (w.cell (w.shown r) k))

theorem getIndex_of_out (hb : w.inBounds i (w.views.get r).length = .ok false) :
    getIndex r i w = .ok .undefined w := by
  rw [getIndex, look_bind_apply, get_bind_apply, hb]
  rfl

theorem getIndex_beyond (h : w.Sound) (hr : w.views.Has r) {n : Int} (hi : i.IsInteger n)
    (hn : ¬ (0 ≤ n ∧ n < (w.shown r).length)) : getIndex r i w = .ok .undefined w := by
  have hb : w.inBounds i (w.views.get r).length = .ok false := by
    rw [inBounds_integer w hi, h.length_shown hr, decide_eq_false hn]
  exact getIndex_of_out hb

theorem getIndex_ne_undefined (h : w.Sound) (hr : w.views.Has r) (hi : i.IsInteger k)
    (hk : k < (w.shown r).length) (u : World) : getIndex r i w ≠ .ok .undefined u := by
  intro hget
  by_cases hn : (w.shown r).rowShape = []
  · rw [getIndex_plain h hr hi hk hn, Presenter.present, get_bind_apply] at hget
    exact (Presenter.ne_of_presentFrom hget).1 rfl
  · obtain ⟨q, u', hview, -⟩ := getIndex_nested h hr hi hk hn
    rw [hview] at hget
    cases hget

theorem succeeds_getIndex_iff (h : w.Sound) (hr : w.views.Has r) (hi : i.IsInteger k)
    (hk : k < (w.shown r).length) : Succeeds (getIndex r i) w ↔ Presentable w r k := by
  by_cases hn : (w.shown r).rowShape = []
  · rw [Succeeds, getIndex_plain h hr hi hk hn]
    constructor
    · rintro ⟨x, u, hx⟩
      refine .inr ?_
      by_contra hno
      rw [Presenter.present, get_bind_apply, Presenter.presentFrom_of_not_presentable _ hno] at hx
      cases hx
    · rintro (hne | hp)
      · exact absurd hn hne
      · exact Presenter.succeeds_present h _ _ hp
  · obtain ⟨q, u, hview, -⟩ := getIndex_nested h hr hi hk hn
    exact ⟨fun _ => .inl hn, fun _ => ⟨_, u, hview⟩⟩

theorem reads_getIndex (hr : w.views.Has r) (hi : i.IsInteger k) (hk : k < (w.shown r).length) :
    w.Reads (w.after (getIndex r i)) := by
  intro h
  by_cases hn : (w.shown r).rowShape = []
  · rw [World.after, getIndex_plain h hr hi hk hn, ← World.after]
    exact Presenter.reads_present _ _ _ w h
  · obtain ⟨q, u, hview, hsound, hext, hbuf, -⟩ := getIndex_nested h hr hi hk hn
    rw [after_of_ok hview]
    exact ⟨hsound, hext, hbuf⟩

theorem hasIndex_integer (h : w.Sound) (hr : w.views.Has r) {n : Int} (hi : i.IsInteger n) :
    ∃ x, hasIndex r i w = .ok x w ∧ x.item = .bool (decide (0 ≤ n ∧ n < (w.shown r).length)) := by
  obtain ⟨v, hv, htells⟩ := bounds_integer w hi (w.views.get r).length
  rw [h.length_shown hr] at htells
  obtain ⟨x, hx, hitem⟩ := htells.value w
  refine ⟨x, ?_, hitem⟩
  rw [hasIndex, get_bind_apply, look_bind_apply, hv]
  exact hx

theorem presentable_iff_of_getIndex (h : w.Sound) (hr : w.views.Has r) (hi : i.IsInteger k)
    (hk : k < (w.shown r).length) {x : Value} {u : World} (hx : getIndex r i w = .ok x u) (j : Nat) :
    Presentable u r j ↔ Presentable w r j := by
  have hreads := reads_getIndex hr hi hk
  rw [after_of_ok hx] at hreads
  have hshown : u.shown r = w.shown r := (hreads h).2.1.shown h hr
  rw [Presentable, Presentable, hshown]
  by_cases hn : (w.shown r).rowShape = []
  · rw [getIndex_plain h hr hi hk hn] at hx
    have hgrows : w.Grows u := after_of_ok hx ▸ Presenter.grows_present _ _ _ w
    have hcell : u.cell (w.shown r) j = w.cell (w.shown r) j := by
      rw [World.cell, World.cell, hgrows.buffers]
    rw [hcell, hgrows.presentable]
  · exact iff_of_true (.inl hn) (.inl hn)

theorem reads_held (hr : w.views.Has r) (hi : i.IsInteger k) (hk : k < (w.shown r).length)
    {held : List Value} {x : Value} {u : World} (hx : getIndex r i { w with inUse := held } = .ok x u) :
    w.Reads { u with inUse := w.inUse } := by
  have hheld : w.Reads { w with inUse := held } := reads_of_eq rfl rfl rfl rfl
  have hread := reads_getIndex (w := { w with inUse := held }) hr hi hk
  rw [after_of_ok hx] at hread
  have hfree : u.Reads { u with inUse := w.inUse } := reads_of_eq rfl rfl rfl rfl
  exact trans_of Reads hheld (trans_of Reads hread hfree)

/-- An iteration over some slots reads them in order and writes nothing. -/
theorem elementsFrom_ok (h : w.Sound) (hr : w.views.Has r) {is : List Nat}
    (his : ∀ k ∈ is, k < (w.shown r).length) {earlier vs : List Value} {w' : World}
    (hvs : elementsFrom r earlier (is.map fun k : Nat => .int k) w = .ok vs w') :
    List.Forall₂ (fun x (k : Nat) => ∃ u u', w.Reads u ∧ getIndex r (.int k) u = .ok x u') vs is := by
  induction is generalizing w earlier vs with
  | nil =>
    cases hvs
    exact .nil
  | cons k is ih =>
    have hint : (Value.int k).IsInteger (k : Nat) := .inl rfl
    have hk : k < (w.shown r).length := his k List.mem_cons_self
    rw [List.map_cons, elementsFrom] at hvs
    obtain ⟨x, u, hx, hrest⟩ := bind_eq_ok.mp hvs
    obtain ⟨xs, v, hxs, hlast⟩ := bind_eq_ok.mp hrest
    cases hlast
    cases hget : getIndex r (.int k) { w with inUse := earlier ++ w.inUse } with
    | error f u' =>
      rw [holding_of_error hget] at hx
      cases hx
    | ok y u' =>
      rw [holding_of_ok hget] at hx
      cases hx
      have hnext := reads_held hr hint hk hget
      obtain ⟨hsound, hext, -⟩ := hnext h
      have hshown := hext.shown h hr
      have hlater : ∀ j ∈ is, j < (World.shown { u' with inUse := w.inUse } r).length := by
        intro j hj
        rw [hshown]
        exact his j (List.mem_cons_of_mem k hj)
      refine .cons ⟨{ w with inUse := earlier ++ w.inUse }, u', reads_of_eq rfl rfl rfl rfl, hget⟩ ?_
      refine (ih hsound (hext.hasView r hr) hlater hxs).imp fun y j ⟨v, v', hv, hy⟩ => ?_
      exact ⟨v, v', trans_of Reads hnext hv, hy⟩

/-- An iteration ends if all slots can be presented. -/
theorem succeeds_elementsFrom (h : w.Sound) (hr : w.views.Has r) {is : List Nat}
    (his : ∀ k ∈ is, k < (w.shown r).length ∧ Presentable w r k) (earlier : List Value) :
    Succeeds (elementsFrom r earlier (is.map fun k : Nat => .int k)) w := by
  induction is generalizing w earlier with
  | nil => exact succeeds_pure [] w
  | cons k is ih =>
    have hint : (Value.int k).IsInteger (k : Nat) := .inl rfl
    obtain ⟨hk, hp⟩ := his k List.mem_cons_self
    have hheld : w.Reads { w with inUse := earlier ++ w.inUse } := reads_of_eq rfl rfl rfl rfl
    have hsound := (hheld h).1
    obtain ⟨x, u, hx⟩ :=
      (succeeds_getIndex_iff (w := { w with inUse := earlier ++ w.inUse }) hsound hr hint hk).mpr hp
    obtain ⟨hsound', hext, -⟩ := reads_held hr hint hk hx h
    have hlater : ∀ j ∈ is, j < (World.shown { u with inUse := w.inUse } r).length ∧
        Presentable { u with inUse := w.inUse } r j := by
      intro j hj
      obtain ⟨hlt, hpj⟩ := his j (List.mem_cons_of_mem k hj)
      rw [hext.shown h hr]
      exact ⟨hlt, (presentable_iff_of_getIndex (w := { w with inUse := earlier ++ w.inUse }) hsound
        hr hint hk hx j).mpr hpj⟩
    obtain ⟨xs, v, hxs⟩ := ih hsound' (hext.hasView r hr) hlater (x :: earlier)
    rw [List.map_cons, elementsFrom]
    exact succeeds_bind (holding_of_ok hx) (succeeds_bind hxs (succeeds_pure _ v))

/-- A view in one world still shows what it showed in an earlier one, and its length, its keys, its
iteration and its indexed reads agree. -/
structure Consistent (w₀ w : World) (r : Ref .view) : Prop where
  /-- The array has the shape, the type and the place of its cells that it had. -/
  shown : w.shown r = w₀.shown r
  slot : (w.views.get r).slot = (w₀.views.get r).slot ∧
    (w.views.get r).slot = (w.shown r).slotType
  length : (w.views.get r).length = (w₀.views.get r).length ∧
    (w.views.get r).length = (w.shown r).length
  read : ∃ x, Property.read (.view r) "length" w = .ok x w ∧ x.content = .int (w.shown r).length
  keys : indices w r = (List.range (w.shown r).length).map fun k : Nat => .int k
  /-- What an iteration yields is what the keys are read as, one after the other. -/
  iterated : ∀ vs w', elements r w = .ok vs w' → List.Forall₂
    (fun x i => ∃ u u', w.Reads u ∧ getIndex r i u = .ok x u') vs (indices w r)
  iterable : (∀ k < (w.shown r).length, Presentable w r k) → Succeeds (elements r) w
  /-- An integer is an index if and only if it is a key, and if and only if it is not read as
  undefined. -/
  index : ∀ {i : Value} {n : Int}, i.IsInteger n →
    (∃ x, hasIndex r i w = .ok x w ∧ x.item = .bool (decide (.int n ∈ indices w r))) ∧
    (.int n ∈ indices w r ↔ ∀ w', getIndex r i w ≠ .ok .undefined w')
  /-- A key is read as something unless its slot cannot be presented. -/
  key : ∀ {i : Value} {k : Nat}, i.IsInteger k → .int k ∈ indices w r →
    (Succeeds (getIndex r i) w ↔ Presentable w r k)

end View

/-- Views are consistent in every world that a run leads to from a reachable one. -/
theorem Run.consistent {w₀ w : World} (h₀ : Reachable w₀) {r : Ref .view} (hr : w₀.views.Has r)
    (hrun : Run w₀ w) : View.Consistent w₀ w r := by
  obtain ⟨h, hext⟩ := hrun.leads h₀.sound
  have hhas := hext.hasView r hr
  have hview := hext.view r hr
  have hkeys : View.indices w r = (List.range (w.shown r).length).map fun k : Nat => .int k := by
    rw [View.indices, h.length_shown hhas]
  have hmem : ∀ n : Int, .int n ∈ View.indices w r ↔ 0 ≤ n ∧ n < (w.shown r).length := by
    intro n
    rw [hkeys, List.mem_map]
    constructor
    · rintro ⟨k, hk, hn⟩
      cases hn
      have hlt := List.mem_range.mp hk
      omega
    · rintro ⟨h0, hn⟩
      exact ⟨n.toNat, List.mem_range.mpr (by omega), by rw [Int.toNat_of_nonneg h0]⟩
  refine {
    shown := hext.shown h₀.sound hr
    slot := ⟨by rw [hview], h.slot r hhas⟩
    length := ⟨by rw [hview], h.length_shown hhas⟩
    read := View.read_length h hhas
    keys := hkeys
    iterated := ?_
    iterable := ?_
    index := ?_
    key := ?_ }
  · intro vs w' hvs
    rw [View.elements, look_bind_apply, hkeys] at hvs
    rw [hkeys, List.forall₂_map_right_iff]
    exact View.elementsFrom_ok h hhas (fun k hk => List.mem_range.mp hk) hvs
  · intro hp
    rw [View.elements, Succeeds, look_bind_apply, hkeys]
    exact View.succeeds_elementsFrom h hhas
      (fun k hk => ⟨List.mem_range.mp hk, hp k (List.mem_range.mp hk)⟩) []
  · intro i n hi
    obtain ⟨x, hx, hitem⟩ := View.hasIndex_integer h hhas hi
    simp only [hmem]
    refine ⟨⟨x, hx, hitem⟩, ?_⟩
    by_cases hn : 0 ≤ n ∧ n < (w.shown r).length
    · obtain ⟨k, rfl⟩ := Int.eq_ofNat_of_zero_le hn.1
      exact iff_of_true hn (View.getIndex_ne_undefined h hhas hi (by omega))
    · refine iff_of_false hn fun hne => ?_
      exact hne w (View.getIndex_beyond h hhas hi hn)
  · intro i k hi hk
    have hlt := ((hmem k).mp hk).2
    exact View.succeeds_getIndex_iff h hhas hi (by omega)

def blanks : World := World.empty.afterAll [
  .newPresenter .standard,
  .buildArray (.native .object) [2] [.undefined, .null],
  .newView .null ⟨1⟩ ⟨0⟩ none false]

theorem reachable_blanks : Reachable blanks := by
  apply Reachable.start.afterAll
  simp [Operation.IsProper, CellType.native, Content.IsProper]

def writeBack : ArrayMethod.Caller := fun _ _ args =>
  BoundMethod.ofView ⟨0⟩ "set_index" (args.take 2).reverse

/-- The view is consistent after a loop that writes through it. -/
theorem Run.consistent_after_forEach : View.Consistent blanks
    (blanks.after (ArrayMethod.run writeBack .forEach ⟨0⟩ (.view ⟨0⟩) [])) ⟨0⟩ := by
  have hcallback : ∀ u callee this args, Run u (u.after (writeBack callee this args)) :=
    fun u _ _ args => .protocol u ⟨0⟩ "set_index" (args.take 2).reverse
  exact Run.consistent reachable_blanks (by decide)
    (.method blanks writeBack hcallback .forEach ⟨0⟩ (.view ⟨0⟩) [])

end ScriptedArrays
