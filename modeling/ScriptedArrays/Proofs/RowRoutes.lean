import ScriptedArrays.Proofs.MethodCalls
import ScriptedArrays.Proofs.RowForms

/-! Routes of a row through a script. A script reads a row as a view, lists it by the method of the
host or takes a slice of it by the method of script arrays, and writes any of the three to another
slot. All of them carry the cells of the row, so they leave the same cells behind. -/

namespace ScriptedArrays

open World

namespace View

variable {w : World} {q : Ref .view}

/-- The host lists the array of a view, and the script gets the list in a box. -/
theorem tolist_carries (h : w.Sound) (hq : w.views.Has q)
    (hs : w.cells (w.shown q) ≠ [] → (w.shown q).type.content.IsScalar)
    (hexposed : "tolist" ∈ (w.views.get q).exposed) :
    ∃ b l w', callMethod (.view q) "tolist" [] w = .ok (.box b) w' ∧ w.Retains w' ∧
      w'.hostValue (.box b) = .list l ∧
      ∀ x, x = .box b ∨ x = .list l →
        w'.Carries (w.shown q).type (w.shown q).shape x (w.cells (w.shown q)) := by
  let view := w.views.get q
  let u := w.boundHost q "tolist"
  have hu : w.Retains u := retains_of_eq rfl rfl rfl rfl rfl rfl
  have hown : hasOwn w q "tolist" = true := by
    have hmember : w.member? (.array view.array) "tolist" = some .method := rfl
    simp [hasOwn, exposes, hexposed, hmember, view]
  have hwithin : w.Within (w.shown q) := (h.shows _).within
  obtain ⟨x, v, hx, hv, hcarries, hlist⟩ := HostMethod.nested_carries u
    (length_cells (h.encloses _ (h.array q hq))) fun c hc =>
      ⟨hs (List.ne_nil_of_mem hc), (hwithin.accepts_cells h c hc).1⟩
  obtain ⟨l, rfl⟩ := hlist (h.shape q hq)
  obtain ⟨w', hb, hw', hhas, hkept⟩ :=
    Presenter.newBox_spec view.scope (.list l) view.presenter none v
  have hvalue : (w'.boxes.get v.boxes.next).value = .list l := hkept.same rfl
  refine ⟨v.boxes.next, l, w', ?_, trans_of Retains hu (trans_of Retains hv hw'), hvalue, ?_⟩
  · have hrun : BoundMethod.run (callTo 63) (.array view.array) "tolist" [] u = .ok (.list l) v := hx
    rw [callMethod_host (fun _ => rfl) hown (by decide)]
    show (BoundMethod.run (callTo 63) (.array view.array) "tolist" [] >>= fun answer =>
      Presenter.present view.presenter answer view.scope) u = _
    rw [bind_apply_of_ok _ hrun]
    show (newBox view.scope (.list l) view.presenter none >>= fun b => pure (Value.box b)) v = _
    rw [bind_apply_of_ok _ hb]
    rfl
  · have hlist := hcarries.of_retains hw'
    rintro x (rfl | rfl)
    · exact hlist.boxed hhas hkept rfl
    · exact hlist

end View

namespace Receiver

variable {w : World} {q : Ref .view}

theorem length_view (h : w.Sound) (hq : w.views.Has q) (hn : (w.shown q).length ≤ greatestLength) :
    length (.view q) w = .ok (w.shown q).length w := by
  obtain ⟨x, hread, hcontent⟩ := View.read_length h hq
  have hnumber : numberOf x w = .ok (Double.ofInt (w.shown q).length) w := by
    rw [numberOf, numberOf_length w hcontent hn]
  show (Property.read (.view q) "length" >>= fun v => numberOf v >>= fun x =>
    (pure x.asLength : Action Nat)) w = _
  rw [bind_apply_of_ok _ hread, bind_apply_of_ok _ hnumber, Double.asLength_ofInt hn]
  rfl

theorem length_of_itemsAt {v : Value} {earlier xs : List Value} {indices : List Nat} {w' : World}
    (hxs : itemsAt v earlier indices w = .ok xs w') : xs.length = indices.length := by
  induction indices generalizing w earlier xs with
  | nil =>
    cases hxs
    rfl
  | cons i indices ih =>
    obtain ⟨x, u, -, hrest⟩ := bind_eq_ok.mp hxs
    obtain ⟨ys, u', hys, hlast⟩ := bind_eq_ok.mp hrest
    cases hlast
    rw [List.length_cons, List.length_cons, ih hys]

end Receiver

namespace ArrayMethod

variable {w : World} {q : Ref .view}

theorem scriptArray_of_runSlice {prototype : Ref .record} {v x : Value} {w' : World}
    (hx : runSlice prototype v [] w = .ok x w') :
    ∃ r items, x = .record r ∧ w'.ScriptArray r items ∧ items.length ≤ greatestLength := by
  obtain ⟨n, u, hn, hitems⟩ := bind_eq_ok.mp hx
  obtain ⟨xs, u', hxs, hmake⟩ := bind_eq_ok.mp
    (show (Receiver.itemsAt v [] (List.range' 0 n) >>= fun items => makeArray prototype items) u =
      .ok x w' from hitems)
  have hle : xs.length ≤ greatestLength := by
    rw [Receiver.length_of_itemsAt hxs, List.length_range']
    exact Receiver.length_le hn
  obtain ⟨r, w'', ys, hr, -, hkept, hys⟩ := makeArray_spec prototype xs u' hle
  rw [hr] at hmake
  cases hmake
  exact ⟨r, ys, rfl, hys, hkept.length_eq ▸ hle⟩

/-- A slice without bounds is a script array that is laid out like the array of the view. -/
theorem runSlice_mirrors (h : w.Sound) (hq : w.views.Has q)
    (hs : (w.shown q).rowShape = [] → w.cells (w.shown q) ≠ [] → (w.shown q).type.content.IsScalar)
    (hn : (w.shown q).length ≤ greatestLength) (prototype : Ref .record) :
    ∃ r w', runSlice prototype (.view q) [] w = .ok (.record r) w' ∧ w.Retains w' ∧
      w'.Mirrors (w.shown q).type (w.shown q).shape (.record r) (w.cells (w.shown q)) := by
  have hslot : ∀ i ∈ List.range' 0 (w.shown q).length, i < (w.shown q).length ∧
      ((w.shown q).rowShape = [] → (w.shown q).type.content.IsScalar) := by
    intro i hi
    have hlt : i < (w.shown q).length := by simpa using hi
    refine ⟨hlt, fun hrow => hs hrow fun hnone => ?_⟩
    have hsize : (w.cells (w.shown q)).length = (w.shown q).length * (w.shown q).rowSize :=
      (length_cells (h.encloses _ (h.array q hq))).trans
        (Window.size_eq_length_mul_rowSize (h.shape q hq))
    rw [hnone, Window.rowSize, hrow, List.length_nil, cellCount_nil, Nat.mul_one] at hsize
    omega
  obtain ⟨xs, u, hxs, hu, hall⟩ := Receiver.itemsAt_carries h hq _ hslot []
  have hcount : xs.length = (w.shown q).length := by
    rw [hall.length_eq, List.length_range']
  obtain ⟨r, w', ys, hr, hw', hkept, hys⟩ := makeArray_spec prototype xs u (by rwa [hcount])
  refine ⟨r, w', ?_, trans_of Retains hu hw', ?_⟩
  · rw [runSlice, bind_apply_of_ok _ (Receiver.length_view h hq hn)]
    show (Receiver.itemsAt (.view q) [] (List.range' 0 (w.shown q).length) >>= fun items =>
      makeArray prototype items) w = _
    rw [bind_apply_of_ok _ hxs, hr]
  · have hne : (w.shown q).shape ≠ [] := h.shape q hq
    have hshape : (w.shown q).shape = xs.length :: (w.shown q).rowShape := by
      obtain ⟨n, shape, hshape⟩ := List.exists_cons_of_ne_nil hne
      rw [hcount, Window.length, Window.rowShape, hshape]
      rfl
    rw [w.cells_eq_rows hne, hshape, List.range_eq_range']
    refine mirrors_of_items (.inr ⟨r, rfl, hys⟩) hkept (List.forall₂_map_right_iff.mpr ?_)
    exact hall.imp fun x i hx => hx.of_retains hw'

end ArrayMethod

namespace View

variable {w : World} {q : Ref .view}

theorem callMethod_slice (hq : w.views.Has q) {s : Ref .scope} {c g : Ref .function}
    {prototype : Ref .record} (hoffers : w.Offers s .slice c g prototype)
    (hp : (w.views.get q).prototype = none) (hscope : (w.views.get q).scope = .scope s) :
    ∃ u, w.Reads u ∧
      callMethod (.view q) "slice" [] w = ArrayMethod.runSlice prototype (.view q) [] u := by
  obtain ⟨u, hgrows, hread⟩ :
      ∃ u, w.Grows u ∧ Property.read (.view q) "slice" w = .ok (.function g) u :=
    Property.read_of_prototype hq (hoffers.rooted hscope) (hasOwn_method w q .slice)
      (hoffers.resolved? hp hscope) (by decide) hoffers.entry Value.noConfusion
  have hleads : w.Leads u := after_of_ok hread ▸ (Property.moves_read _ _ w).leads
  have hmethod : u.functions.get g = w.functions.get g := (hgrows.function g hoffers.hasMethod).2
  refine ⟨u, reads_of_grows hleads hgrows, ?_⟩
  rw [callMethod_of_read hread (by rw [hmethod, hoffers.plainMethod]), callNesting, callTo,
    look_bind_apply, hmethod, hoffers.body]
  rfl

theorem slice_mirrors (h : w.Sound) (hq : w.views.Has q)
    (hs : (w.shown q).rowShape = [] → w.cells (w.shown q) ≠ [] → (w.shown q).type.content.IsScalar)
    (hn : (w.shown q).length ≤ greatestLength) {s : Ref .scope} {c g : Ref .function}
    {prototype : Ref .record} (hoffers : w.Offers s .slice c g prototype)
    (hp : (w.views.get q).prototype = none) (hscope : (w.views.get q).scope = .scope s) :
    ∃ r w', callMethod (.view q) "slice" [] w = .ok (.record r) w' ∧ w.Reads w' ∧
      w'.Mirrors (w.shown q).type (w.shown q).shape (.record r) (w.cells (w.shown q)) := by
  obtain ⟨u, hu, hslice⟩ := callMethod_slice hq hoffers hp hscope
  obtain ⟨hsound, hext, -⟩ := hu h
  have hshown : u.shown q = w.shown q := hext.shown h hq
  have hcells : u.cells (w.shown q) = w.cells (w.shown q) := hu.cells h _
  obtain ⟨r, w', hr, hw', hmirrors⟩ := ArrayMethod.runSlice_mirrors hsound (hext.hasView q hq)
    (by rwa [hshown, hcells]) (by rwa [hshown]) prototype
  rw [hshown, hcells] at hmirrors
  exact ⟨r, w', hslice.trans hr, trans_of Reads hu hw'.reads, hmirrors⟩

theorem setIndex_ne_ok_of_length {r : Ref .view} {i x : Value} {k n : Nat} {shape : List Nat}
    (h : w.Sound) (hr : w.views.Has r) (hi : i.IsInteger k) (hk : k < (w.shown r).length)
    (hshape : (w.shown r).rowShape = n :: shape) {a : Ref .record} {items : List Value}
    (ha : (w.hostValue x).item = .record a) (hitems : w.ScriptArray a items)
    (hn : items.length ≠ n) (w' : World) : setIndex r i x w ≠ .ok () w' := by
  have hslot : (w.views.get r).slot.shape = n :: shape := by
    rw [h.slot r hr, ← hshape]
    rfl
  have hnested : (w.views.get r).slot.isNested = true := by
    rw [h.isNested hr, hshape]
    rfl
  obtain ⟨e, he⟩ : ∃ e, Conversion.toCells w (w.views.get r).truncates (w.views.get r).slot.cell
      (w.views.get r).slot.shape (.plain x) = .error e := by
    rw [hslot, Conversion.toCells_of_scriptArray n shape ha hitems, if_neg hn]
    exact ⟨_, rfl⟩
  obtain ⟨f, u, hf⟩ := convert_fails hnested he
  intro hok
  rw [setIndex_refused h hr hi hk hf] at hok
  cases hok

theorem setIndex_slice_ne_ok {r : Ref .view} {j x : Value} {m n : Nat} {shape : List Nat} {u : World}
    (h : w.Sound) (hr : w.views.Has r) (hj : j.IsInteger m) (hm : m < (w.shown r).length)
    (hshape : (w.shown r).rowShape = n :: shape) (hlong : greatestLength < n)
    (hq : w.views.Has q) {s : Ref .scope} {c g : Ref .function} {prototype : Ref .record}
    (hoffers : w.Offers s .slice c g prototype) (hp : (w.views.get q).prototype = none)
    (hscope : (w.views.get q).scope = .scope s)
    (hx : callMethod (.view q) "slice" [] w = .ok x u) (w' : World) :
    setIndex r j x u ≠ .ok () w' := by
  have hleads : w.Leads u := after_of_ok hx ▸ (moves_callMethod (.view q) "slice" [] w).leads
  obtain ⟨hsound, hext⟩ := hleads h
  have hshown : u.shown r = w.shown r := hext.shown h hr
  obtain ⟨v, -, hslice⟩ := callMethod_slice hq hoffers hp hscope
  rw [hslice] at hx
  obtain ⟨a, items, rfl, hitems, hle⟩ := ArrayMethod.scriptArray_of_runSlice hx
  exact setIndex_ne_ok_of_length hsound (hext.hasView r hr) hj (by rwa [hshown])
    (by rw [hshown, hshape]) rfl hitems (by omega) w'

end View

namespace View

variable {w : World} {r : Ref .view} {i : Value} {k : Nat}

/-- The view that a row is read as has the scope of the view that it is read from, the settings of
the presenter, and no prototype yet. -/
theorem getIndex_rowView (h : w.Sound) (hr : w.views.Has r) (hi : i.IsInteger k)
    (hk : k < (w.shown r).length) (hn : (w.shown r).rowShape ≠ []) :
    ∃ q u, getIndex r i w = .ok (.view q) u ∧ w.Reads u ∧ u.views.Has q ∧
      u.shown q = (w.shown r).row k ∧
      (u.scopes = w.scopes ∧ u.records = w.records ∧ u.functions = w.functions) ∧
      (u.views.get q).prototype = none ∧ (u.views.get q).scope = (w.views.get r).scope ∧
      (u.views.get q).exposed = (w.presenters.get (w.views.get r).presenter).exposed := by
  obtain ⟨ps, l, hget⟩ := getIndex_fresh h hr hi hk hn
  obtain ⟨q, u, hget', hsound, hext, hbuf, hq, hshown⟩ := getIndex_nested h hr hi hk hn
  have hview : ∃ array, { rowWorld w r k with presenters := ps, log := l }.views.get w.views.next =
      World.freshView { w with arrays := w.arrays.push ((w.shown r).row k) }
        (w.views.get r).presenter array (w.views.get r).scope :=
    ⟨w.arrays.next, Store.get_push_next _ _⟩
  obtain ⟨array, hview⟩ := hview
  rw [hget] at hget'
  cases hget'
  refine ⟨w.views.next, _, hget, fun _ => ⟨hsound, hext, hbuf⟩, hq, hshown, ⟨rfl, rfl, rfl⟩, ?_, ?_, ?_⟩
  · rw [hview, freshView]
  · rw [hview, freshView]
  · rw [hview, freshView]

/-- Written to one slot, the value leaves the cells of another one there and nothing else changes. -/
structure Copies (w u : World) (r : Ref .view) (k : Nat) (j : Value) (m : Nat) (x : Value)
    (w' : World) : Prop where
  written : setIndex r j x u = .ok () w'
  writes : w.Writes w' ((w.shown r).row m) (w.cells ((w.shown r).row k))

end View

/-- A row survives the trip through a script. The view that a row is read as is written to another
slot as the very cells of the row, whatever the cells are but objects. So are the list that its
method `tolist` returns, in the box of the script or as the host has it, and the script array that
the method `slice` returns, if there is a conversion for the single values in them, and the cells of
all arrays are afterwards the same on the three routes. A slice is no longer than script arrays may
be, so no slice of a longer row is accepted. -/
theorem View.row_routes {w : World} (hw : Reachable w) {r : Ref .view} (hr : w.views.Has r)
    (ho : (w.shown r).type.isObject = false) (hn : (w.shown r).rowShape ≠ [])
    (hexposed : "tolist" ∈ (w.presenters.get (w.views.get r).presenter).exposed)
    {s : Ref .scope} (hscope : (w.views.get r).scope = .scope s) {c g : Ref .function}
    {prototype : Ref .record} (hoffers : w.Offers s .slice c g prototype) {i j : Value} {k m : Nat}
    (hi : i.IsInteger k) (hj : j.IsInteger m) (hk : k < (w.shown r).length)
    (hm : m < (w.shown r).length) :
    ∃ q u w₁, getIndex r i w = .ok (.view q) u ∧ Copies w u r k j m (.view q) w₁ ∧
      ((w.cells ((w.shown r).row k) ≠ [] → (w.shown r).type.content.IsScalar) →
        ∃ b l u₂, callMethod (.view q) "tolist" [] u = .ok (.box b) u₂ ∧
          u₂.hostValue (.box b) = .list l ∧ ∀ x, x = .box b ∨ x = .list l →
            ∃ w₂, Copies w u₂ r k j m x w₂ ∧
              ∀ b, w.buffers.Has b → w₂.buffers.get b = w₁.buffers.get b) ∧
      (((w.shown r).rowShape.tail = [] → w.cells ((w.shown r).row k) ≠ [] →
          (w.shown r).type.content.IsScalar) →
        ((w.shown r).row k).length ≤ greatestLength →
        ∃ a u₃ w₃, callMethod (.view q) "slice" [] u = .ok (.record a) u₃ ∧
          Copies w u₃ r k j m (.record a) w₃ ∧
          ∀ b, w.buffers.Has b → w₃.buffers.get b = w₁.buffers.get b) ∧
      (greatestLength < ((w.shown r).row k).length →
        ∀ x u₃ w₃, callMethod (.view q) "slice" [] u = .ok x u₃ → setIndex r j x u₃ ≠ .ok () w₃) := by
  have h := hw.sound
  have hencloses : w.Encloses ((w.shown r).row m) := (h.encloses _ (h.array r hr)).row hm
  obtain ⟨q, u, hget, hu, hq, hshown, ⟨hscopes, hrecords, hfunctions⟩, hproto, hscope', hexposed'⟩ :=
    getIndex_rowView h hr hi hk hn
  obtain ⟨hsound, hext, -⟩ := hu h
  have hcells : u.cells (u.shown q) = w.cells ((w.shown r).row k) := by
    rw [hshown, hu.cells h]
  have hcopy : ∀ x v, u.Reads v →
      v.Mirrors (u.shown q).type (u.shown q).shape x (u.cells (u.shown q)) →
      ∃ w', Copies w v r k j m x w' := by
    intro x v hv hx
    rw [hcells, hshown] at hx
    obtain ⟨w', hset, hwrites⟩ := setIndex_of_reads h hr ho hj hm (trans_of Reads hu hv) hx
    exact ⟨w', hset, hwrites⟩
  obtain ⟨w₁, hfirst⟩ := hcopy (.view q) u (refl_of Reads u)
    (carries_view hsound hq (hsound.shape q hq)).mirrors
  have hsame : ∀ x v w', Copies w v r k j m x w' →
      ∀ b, w.buffers.Has b → w'.buffers.get b = w₁.buffers.get b :=
    fun x v w' hx b hb => hx.writes.buffers_eq hfirst.writes hencloses hb
  have hmethod : u.Offers s .slice c g prototype := hoffers.of_eq hscopes hrecords hfunctions
  refine ⟨q, u, w₁, hget, hfirst, fun hs => ?_, fun hs hlen => ?_, fun hlong x u₃ w₃ hx => ?_⟩
  · rw [← hcells] at hs
    obtain ⟨b, l, u₂, hlist, hu₂, hvalue, hcarries⟩ :=
      tolist_carries hsound hq (by rwa [hshown] at hs ⊢) (by rwa [hexposed'])
    refine ⟨b, l, u₂, hlist, hvalue, fun x hx => ?_⟩
    obtain ⟨w₂, hsecond⟩ := hcopy x u₂ hu₂.reads (hcarries x hx).mirrors
    exact ⟨w₂, hsecond, hsame x u₂ w₂ hsecond⟩
  · rw [← hcells] at hs
    obtain ⟨a, u₃, hslice, hu₃, hmirrors⟩ := slice_mirrors hsound hq (by rwa [hshown] at hs ⊢)
      (by rwa [hshown]) hmethod hproto (by rw [hscope', hscope])
    obtain ⟨w₃, hthird⟩ := hcopy (.record a) u₃ hu₃ hmirrors
    exact ⟨a, u₃, w₃, hslice, hthird, hsame (.record a) u₃ w₃ hthird⟩
  · have hshown' : u.shown r = w.shown r := hext.shown h hr
    obtain ⟨n, shape, hshape⟩ := List.exists_cons_of_ne_nil hn
    have hlength : ((w.shown r).row k).length = n := by
      rw [Window.length, Window.shape_row, hshape]
      rfl
    exact setIndex_slice_ne_ok hsound (hext.hasView r hr) hj (by rwa [hshown'])
      (by rw [hshown', hshape]) (hlength ▸ hlong) hq hmethod hproto (by rw [hscope', hscope]) hx w₃

def verses : World := World.empty.afterAll [
  .createEnvironment .standard,
  .buildArray (.native (.text 3)) [2, 2] [.text "one", .text "", .text "two", .text "six"],
  .newView (.scope ⟨0⟩) ⟨1⟩ ⟨0⟩ none false]

theorem reachable_verses : Reachable verses := by
  apply Reachable.start.afterAll
  simp [Operation.IsProper, CellType.native, Content.IsProper]

theorem offers_verses : verses.Offers ⟨0⟩ .slice ⟨0⟩ ⟨6⟩ ⟨1⟩ where
  bound := by decide +kernel
  hasConstructor := by decide +kernel
  plainConstructor := by decide +kernel
  entry := by decide +kernel
  hasMethod := by decide +kernel
  plainMethod := by decide +kernel
  body := by decide +kernel

theorem type_verses : (verses.shown ⟨0⟩).type = .native (.text 3) := by decide +kernel

/-- The first row takes three routes to the second one. -/
theorem View.text_row_routes : ∃ q u w₁, getIndex ⟨0⟩ (.int 0) verses = .ok (.view q) u ∧
    Copies verses u ⟨0⟩ 0 (.int 1) 1 (.view q) w₁ ∧
    (∃ b u₂ w₂, callMethod (.view q) "tolist" [] u = .ok (.box b) u₂ ∧
      Copies verses u₂ ⟨0⟩ 0 (.int 1) 1 (.box b) w₂) ∧
    ∃ a u₃ w₃, callMethod (.view q) "slice" [] u = .ok (.record a) u₃ ∧
      Copies verses u₃ ⟨0⟩ 0 (.int 1) 1 (.record a) w₃ := by
  have hfirst : (Value.int 0).IsInteger (0 : Nat) := .inl rfl
  have hsecond : (Value.int 1).IsInteger (1 : Nat) := .inl rfl
  obtain ⟨q, u, w₁, hget, hrow, hlist, hslice, -⟩ := View.row_routes
    reachable_verses (r := ⟨0⟩) (by decide +kernel)
    (by rw [type_verses]; rfl) (by decide +kernel) (by decide +kernel) (s := ⟨0⟩)
    (by decide +kernel) offers_verses hfirst hsecond
    (by decide +kernel) (by decide +kernel)
  obtain ⟨b, l, u₂, hlist, -, hcopy⟩ := hlist (by rw [type_verses]; exact fun _ => True.intro)
  obtain ⟨w₂, hcopy, -⟩ := hcopy (.box b) (.inl rfl)
  obtain ⟨a, u₃, w₃, hslice, hcopy', -⟩ :=
    hslice (by rw [type_verses]; exact fun _ _ => True.intro) (by decide +kernel)
  exact ⟨q, u, w₁, hget, hrow, ⟨b, u₂, w₂, hlist, hcopy⟩, a, u₃, w₃, hslice, hcopy'⟩

def calendar : World := World.empty.afterAll [
  .createEnvironment .standard,
  .buildArray (.native (.date "D")) [2, 1] [.int 0, .int 1],
  .newView (.scope ⟨0⟩) ⟨1⟩ ⟨0⟩ none false]

theorem reachable_calendar : Reachable calendar := by
  apply Reachable.start.afterAll
  simp [Operation.IsProper, CellType.native, Content.IsProper]

theorem offers_calendar : calendar.Offers ⟨0⟩ .slice ⟨0⟩ ⟨6⟩ ⟨1⟩ where
  bound := by decide +kernel
  hasConstructor := by decide +kernel
  plainConstructor := by decide +kernel
  entry := by decide +kernel
  hasMethod := by decide +kernel
  plainMethod := by decide +kernel
  body := by decide +kernel

theorem View.faults_calendar : (match getIndex ⟨0⟩ (.int 0) calendar with
    | .ok (.view q) u =>
      match callMethod (.view q) "tolist" [] u, callMethod (.view q) "slice" [] u with
      | .ok (.box b) v, .ok (.record a) z =>
        match setIndex ⟨0⟩ (.int 1) (.box b) v, setIndex ⟨0⟩ (.int 1) (.record a) z with
        | .error f _, .error g _ => [f, g]
        | _, _ => []
      | _, _ => []
    | _ => []) = [.cannotConvert "datetime.date(1970, 1, 1)" "datetime64[D]"
      "unsupported element kind 'M'", .cannotConvert "<HostObject datetime.date(1970, 1, 1)>"
      "datetime64[D]" "unsupported element kind 'M'"] := by
  decide +kernel

/-- There is no conversion of a single value to a date, so neither the list of a row of dates nor a
slice of it can be written to a row. -/
theorem View.date_row_refused : Reachable calendar ∧ calendar.views.Has ⟨0⟩ ∧
    (calendar.shown ⟨0⟩).type = .native (.date "D") ∧ (calendar.shown ⟨0⟩).shape = [2, 1] ∧
    "tolist" ∈ (calendar.presenters.get (calendar.views.get ⟨0⟩).presenter).exposed ∧
    (calendar.views.get ⟨0⟩).scope = .scope ⟨0⟩ ∧ calendar.Offers ⟨0⟩ .slice ⟨0⟩ ⟨6⟩ ⟨1⟩ ∧
    ∃ q u b v v' a z z', getIndex ⟨0⟩ (.int 0) calendar = .ok (.view q) u ∧
      callMethod (.view q) "tolist" [] u = .ok (.box b) v ∧
      setIndex ⟨0⟩ (.int 1) (.box b) v = .error (.cannotConvert "datetime.date(1970, 1, 1)"
        "datetime64[D]" "unsupported element kind 'M'") v' ∧
      callMethod (.view q) "slice" [] u = .ok (.record a) z ∧
      setIndex ⟨0⟩ (.int 1) (.record a) z =
        .error (.cannotConvert "<HostObject datetime.date(1970, 1, 1)>" "datetime64[D]"
          "unsupported element kind 'M'") z' := by
  have hfaults := faults_calendar
  refine ⟨reachable_calendar, by decide +kernel, by decide +kernel, by decide +kernel,
    by decide +kernel, by decide +kernel, offers_calendar, ?_⟩
  split at hfaults
  · rename_i q u hget
    split at hfaults
    · rename_i b v a z hlist hslice
      split at hfaults
      · rename_i f v' g z' hf hg
        cases hfaults
        exact ⟨q, u, b, v, v', a, z, z', hget, hlist, hf, hslice, hg⟩
      · cases hfaults
    · cases hfaults
  · cases hfaults

end ScriptedArrays
