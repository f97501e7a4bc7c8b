import ScriptedArrays.Proofs.Rows

/-! Rows of one array in a run. Views of the array and of its rows are taken and written in any
order, between any other operations. Each of them keeps showing the row to which its path leads,
so what one writes the others read. -/

namespace ScriptedArrays

open World

def World.cellAt (w : World) (win : Window) (indices : List Nat) : Value :=
  w.cell (win.below indices) 0

/-- A run in which views of an array and its rows are taken, each with the path to its row. -/
inductive RowRun (a : Ref .array) : World → List (Ref .view × List Nat) → Prop
  | start {w : World} (h : Reachable w) (ha : w.arrays.Has a)
      (hs : 2 ≤ (w.arrays.get a).shape.length) : RowRun a w []
  | whole {w : World} {taken : List (Ref .view × List Nat)} (h : RowRun a w taken) {q : Ref .view}
      (hq : w.views.Has q) (ha : (w.views.get q).array = a) : RowRun a w ((q, []) :: taken)
  | row {w w' : World} {taken : List (Ref .view × List Nat)} (h : RowRun a w taken) {r q : Ref .view}
      {path : List Nat} (hr : (r, path) ∈ taken) {i : Value} {k : Nat} (hi : i.IsInteger k)
      (hk : InRange (path ++ [k]) (w.arrays.get a).shape)
      (hn : path.length + 1 < (w.arrays.get a).shape.length)
      (hq : View.getIndex r i w = .ok (.view q) w') : RowRun a w' ((q, path ++ [k]) :: taken)
  | other {w w' : World} {taken : List (Ref .view × List Nat)} (h : RowRun a w taken)
      (s : Step w w') : RowRun a w' taken

/-- A view shows the row of an array to which a path leads, and that has a further axis. -/
structure World.ShowsRow (w : World) (a : Ref .array) (r : Ref .view) (path : List Nat) : Prop where
  has : w.views.Has r
  inRange : InRange path (w.arrays.get a).shape
  axis : path.length < (w.arrays.get a).shape.length
  shown : w.shown r = (w.arrays.get a).below path

theorem showsRow_whole {w : World} (h : w.Sound) {q : Ref .view} (hq : w.views.Has q) :
    w.ShowsRow (w.views.get q).array q [] where
  has := hq
  inRange := True.intro
  axis := List.length_pos_iff.mpr (h.shape q hq)
  shown := rfl

theorem World.ShowsRow.of_extends {w w' : World} {a : Ref .array} {r : Ref .view} {path : List Nat}
    (h : w.ShowsRow a r path) (hs : w.Sound) (ha : w.arrays.Has a) (he : w.Extends w') :
    w'.ShowsRow a r path := by
  have harray := he.array a ha
  refine ⟨he.hasView r h.has, ?_, ?_, ?_⟩
  · rw [harray]
    exact h.inRange
  · rw [harray]
    exact h.axis
  · rw [he.shown hs h.has, harray]
    exact h.shown

namespace View

section Reads

variable {w : World} {a : Ref .array} {r : Ref .view} {path : List Nat} {i : Value}

theorem length_of_showsRow (hr : w.ShowsRow a r path) {k : Nat} :
    k < (w.shown r).length ↔ InRange (path ++ [k]) (w.arrays.get a).shape := by
  rw [inRange_append, hr.shown, Window.length, Window.shape_below]
  cases hd : (w.arrays.get a).shape.drop path.length with
  | nil =>
    have := hr.axis
    have := congrArg List.length hd
    simp at this
    omega
  | cons n shape => simp [hr.inRange, InRange]

theorem rowShape_of_showsRow (hr : w.ShowsRow a r path) :
    (w.shown r).rowShape = (w.arrays.get a).shape.drop (path.length + 1) := by
  rw [hr.shown, Window.rowShape, Window.shape_below, ← List.drop_one, List.drop_drop]

theorem getIndex_row (h : w.Sound) (hr : w.ShowsRow a r path) {k : Nat} (hi : i.IsInteger k)
    (hk : InRange (path ++ [k]) (w.arrays.get a).shape)
    (hn : path.length + 1 < (w.arrays.get a).shape.length) :
    ∃ q w', getIndex r i w = .ok (.view q) w' ∧ w'.Sound ∧ w.Extends w' ∧ w'.buffers = w.buffers ∧
      w'.views.Has q ∧ w'.shown q = (w.arrays.get a).below (path ++ [k]) := by
  have hrow : (w.shown r).rowShape ≠ [] := by
    rw [rowShape_of_showsRow hr]
    intro hd
    have := List.drop_eq_nil_iff.mp hd
    omega
  rw [Window.below_concat, ← hr.shown]
  exact getIndex_nested h hr.has hi ((length_of_showsRow hr).mpr hk) hrow

end Reads
end View

namespace RowRun

variable {a : Ref .array} {w : World} {taken : List (Ref .view × List Nat)}

theorem reachable (h : RowRun a w taken) : Reachable w := by
  induction h with
  | start h _ _ => exact h
  | whole _ _ _ ih => exact ih
  | @row w w' taken _ r q path _ i k _ _ _ hq ih =>
    have hstep : w.after (Operation.getIndex r i).run = w' := after_of_ok (bind_apply_of_ok _ hq)
    exact hstep ▸ ih.step (.operation w (.getIndex r i) True.intro)
  | other _ s ih => exact ih.step s

theorem hasArray (h : RowRun a w taken) : w.arrays.Has a ∧ 2 ≤ (w.arrays.get a).shape.length := by
  induction h with
  | start _ ha hs => exact ⟨ha, hs⟩
  | whole _ _ _ ih => exact ih
  | @row w w' taken h r q path _ i k _ _ _ hq ih =>
    have hlead := leads_of_moves (View.moves_getIndex r i) w h.reachable.sound
    rw [after_of_ok hq] at hlead
    rw [hlead.2.array a ih.1]
    exact ⟨hlead.2.hasArray a ih.1, ih.2⟩
  | other h s ih =>
    have he := h.reachable.extends s
    rw [he.array a ih.1]
    exact ⟨he.hasArray a ih.1, ih.2⟩

/-- Throughout the run each view shows its row. -/
theorem showsRow (h : RowRun a w taken) : ∀ e ∈ taken, w.ShowsRow a e.1 e.2 := by
  induction h with
  | start => exact fun e he => absurd he List.not_mem_nil
  | @whole w taken h q hq ha ih =>
    intro e he
    rcases List.mem_cons.mp he with rfl | he
    · exact ha ▸ showsRow_whole h.reachable.sound hq
    · exact ih e he
  | @row w w' taken h r q path hr i k hi hk hn hq ih =>
    have hsound := h.reachable.sound
    obtain ⟨q', u, hget, -, hext, -, hhas, hshown⟩ :=
      View.getIndex_row hsound (ih _ hr) hi hk hn
    rw [hget] at hq
    cases hq
    have harray := hext.array a h.hasArray.1
    intro e he
    rcases List.mem_cons.mp he with rfl | he
    · refine ⟨hhas, by rw [harray]; exact hk, ?_, by rw [harray]; exact hshown⟩
      rw [harray]
      simpa using hn
    · exact (ih e he).of_extends hsound h.hasArray.1 hext
  | other h s ih =>
    exact fun e he => (ih e he).of_extends h.reachable.sound h.hasArray.1 (h.reachable.extends s)

end RowRun

/-- What a view of a row reads at each index: below it the current cells, and nothing beyond. -/
structure World.Reflects (w : World) (a : Ref .array) (r : Ref .view) (path : List Nat) : Prop where
  row : ∀ i (k : Nat), i.IsInteger k → InRange (path ++ [k]) (w.arrays.get a).shape →
    path.length + 1 < (w.arrays.get a).shape.length →
    ∃ q w', View.getIndex r i w = .ok (.view q) w' ∧ w'.buffers = w.buffers ∧
      w'.shown q = (w.arrays.get a).below (path ++ [k]) ∧
      w'.cells (w'.shown q) = w.cells ((w.arrays.get a).below (path ++ [k]))
  cell : ∀ i (k : Nat), i.IsInteger k → InRange (path ++ [k]) (w.arrays.get a).shape →
    path.length + 1 = (w.arrays.get a).shape.length →
    let content := (w.arrays.get a).type.itemValue (w.cellAt (w.arrays.get a) (path ++ [k]))
    View.getIndex r i w =
        Presenter.present (w.views.get r).presenter content (w.views.get r).scope w ∧
      ((w.arrays.get a).type.content.IsScalar ∨ w.Presentable content →
        Succeeds (View.getIndex r i) w)
  beyond : ∀ i (n : Int), i.IsInteger n →
    (∀ k : Nat, n = k → ¬ InRange (path ++ [k]) (w.arrays.get a).shape) →
    View.getIndex r i w = .ok .undefined w

/-- Of the cells of an array those whose indices start with the path were replaced, by the
given ones in their order, and no other. -/
structure World.Replaces (w w' : World) (win : Window) (path : List Nat) (cells : List Value) :
    Prop where
  below : ∀ rest, InRange (path ++ rest) win.shape → (path ++ rest).length = win.shape.length →
    cells[place (win.shape.drop path.length) rest]? = some (w'.cellAt win (path ++ rest))
  others : ∀ indices, InRange indices win.shape → indices.length = win.shape.length →
    ¬ path <+: indices → w'.cellAt win indices = w.cellAt win indices

section Cells

variable {w w' : World} {win : Window}

theorem encloses_below (h : w.Encloses win) {path : List Nat} (hp : InRange path win.shape) :
    w.Encloses (win.below path) := by
  obtain ⟨-, hend⟩ := Window.below_within hp
  refine ⟨(Window.buffer_below win path).symm ▸ h.1, ?_⟩
  rw [Window.buffer_below]
  exact Nat.le_trans hend h.2

/-- The cells below a path are those whose indices start with it. -/
theorem getElem?_cells_below (h : w.Encloses win) {path rest : List Nat}
    (hr : InRange (path ++ rest) win.shape) (hl : (path ++ rest).length = win.shape.length) :
    (w.cells (win.below path))[place (win.shape.drop path.length) rest]? =
      some (w.cellAt win (path ++ rest)) := by
  obtain ⟨hpath, hrest⟩ := inRange_append.mp hr
  have hshape := Window.shape_below win path
  have hlt : place (win.shape.drop path.length) rest < (win.below path).size := by
    rw [Window.size_below]
    apply place_lt hrest
    rw [List.length_append] at hl
    rw [List.length_drop]
    omega
  have hstart : ((win.below path).below rest).start =
      (win.below path).start + place (win.shape.drop path.length) rest := by
    rw [Window.start_below _ (by rw [hshape]; exact hrest), hshape]
  have hend := (encloses_below h hpath).2
  have hin : (win.below path).start + place (win.shape.drop path.length) rest <
      (w.buffers.get win.buffer).size := by
    rw [Window.buffer_below] at hend
    omega
  rw [getElem?_cells (encloses_below h hpath) hlt, World.cellAt, World.cell, Window.below_append,
    Nat.add_zero, Window.buffer_below, hstart, Window.buffer_below, Window.buffer_below,
    Array.getElem?_eq_getElem hin]
  rfl

theorem replaces_of_writes (h : w.Encloses win) {path : List Nat} (hp : InRange path win.shape)
    {cells : List Value} (hw : w.Writes w' (win.below path) cells) :
    w.Replaces w' win path cells := by
  have h' : w'.Encloses win :=
    ⟨hw.extends_.hasBuffer _ h.1, by rw [hw.extends_.size _ h.1]; exact h.2⟩
  constructor
  · intro rest hr hl
    rw [← hw.written]
    exact getElem?_cells_below h' hr hl
  · intro indices hi hl hno
    have hback : ¬ indices <+: path := by
      intro hpre
      have hlen := hpre.length_le
      have := hp.length_le
      have heq : indices = path := hpre.eq_of_length (by omega)
      exact hno (heq ▸ List.prefix_refl path)
    have hone : (win.below indices).size = 1 := by
      rw [Window.size_below, hl, List.drop_length]
      rfl
    have hcell := hw.others win.buffer h.1 (win.below indices).start (by
      intro _
      rcases Window.below_apart hp hi hno hback with hd | hd
      · exact .inr hd
      · left
        omega)
    rw [World.cellAt, World.cellAt, World.cell, World.cell, Window.buffer_below, Nat.add_zero, hcell]

end Cells

/-- A view of a row reads the current cells below its path. -/
theorem reflects_of_showsRow {w : World} (h : w.Sound) {a : Ref .array} {r : Ref .view}
    {path : List Nat} (hr : w.ShowsRow a r path) : w.Reflects a r path := by
  constructor
  · intro i k hi hk hn
    obtain ⟨q, w', hget, -, -, hb, -, hshown⟩ := View.getIndex_row h hr hi hk hn
    refine ⟨q, w', hget, hb, hshown, ?_⟩
    rw [hshown, World.cells, hb]
    rfl
  · intro i k hi hk hn
    have hlt := (View.length_of_showsRow hr).mpr hk
    have hrow : (w.shown r).rowShape = [] := by
      rw [View.rowShape_of_showsRow hr, hn, List.drop_length]
    have hcell : w.cell (w.shown r) k = w.cellAt (w.arrays.get a) (path ++ [k]) := by
      rw [World.cellAt, Window.below_concat, ← hr.shown, World.cell, World.cell, Window.buffer_row,
        Window.row, Window.rowSize, hrow]
      simp
    have htype : (w.shown r).type = (w.arrays.get a).type := by
      rw [hr.shown, Window.type_below]
    have hget := View.getIndex_plain h hr.has hi hlt hrow
    rw [hcell, htype] at hget
    refine ⟨hget, fun hp => ?_⟩
    rw [Succeeds, hget]
    apply Presenter.succeeds_present h _ _
    rcases hp with hs | hp
    · refine presentable_itemValue hs ?_ w
      have henc := h.encloses _ (h.array r hr.has)
      have hmem : w.cell (w.shown r) k ∈ w.buffers.get (w.shown r).buffer := by
        have hsize := henc.2
        have hrows := Window.size_eq_length_mul_rowSize (h.shape r hr.has)
        have hin : (w.shown r).start + k < (w.buffers.get (w.shown r).buffer).size := by
          have hone : (w.shown r).rowSize = 1 := by
            rw [Window.rowSize, hrow]
            rfl
          rw [World.shown] at hone hlt ⊢
          rw [hone, Nat.mul_one] at hrows
          omega
        rw [World.cell, Array.getElem?_eq_getElem hin]
        exact Array.getElem_mem hin
      have hacc := (h.accepts _ _ hmem).1
      rw [hcell] at hacc
      exact htype ▸ hacc
    · exact hp
  · intro i n hi hno
    have hb : w.inBounds i (w.views.get r).length = .ok false := by
      rw [inBounds_integer w hi, h.length_shown hr.has, decide_eq_false]
      rintro ⟨h0, hlt⟩
      obtain ⟨k, rfl⟩ := Int.eq_ofNat_of_zero_le h0
      exact hno k rfl ((View.length_of_showsRow hr).mp (by exact_mod_cast hlt))
    rw [View.getIndex, look_bind_apply, get_bind_apply, hb]
    rfl

theorem replaces_of_setIndex {w w' : World} (h : w.Sound) {a : Ref .array} (ha : w.arrays.Has a)
    {r : Ref .view} {path : List Nat} (hr : w.ShowsRow a r path) {i v : Value} {n : Int}
    (hi : i.IsInteger n) (hset : View.setIndex r i v w = .ok () w') :
    ∃ k : Nat, n = k ∧ InRange (path ++ [k]) (w.arrays.get a).shape ∧ ∃ cells,
      w.Converts r v cells ∧ w.Replaces w' (w.arrays.get a) (path ++ [k]) cells := by
  rcases View.setIndex_cases h hr.has hi v with ⟨f, l, hf⟩ | ⟨k, rfl, hk, cells, u, hu, -, hc, hw⟩
  · rw [hf] at hset
    cases hset
  · rw [hu] at hset
    cases hset
    have hin := (View.length_of_showsRow hr).mp hk
    rw [hr.shown, ← Window.below_concat] at hw
    exact ⟨k, rfl, hin, cells, hc, replaces_of_writes (h.encloses a ha) hin hw⟩

/-- A row that has the type and the shape of a slot is taken over as it is. -/
theorem convert_row {w : World} (h : w.Sound) (truncates : Bool) {slot : SlotType} {s : Ref .view}
    (hn : slot.isNested = true) (hcell : slot.cell = (w.shown s).type)
    (hshape : slot.shape = (w.shown s).shape) :
    convert truncates slot (.view s) w = .ok (.array (w.views.get s).array) w := by
  have hregular : slot.cell.IsRegular := hcell ▸ h.regular _
  have hsafe : (w.shown s).type.content.castsSafely slot.cell.content = true := by
    rw [hcell]
    exact Content.castsSafely_self _
  have hcells : (w.cells (w.shown s)).mapM (Conversion.castCell (w.shown s).type slot.cell.content) =
      .ok (w.cells (w.shown s)) := by
    rw [hcell]
    have hwithin : w.Within (w.shown s) := (h.shows _).within
    exact Conversion.mapM_castCell_self (hwithin.accepts_cells h)
  have hto : Conversion.toCells w truncates slot.cell slot.shape (.plain (.view s)) =
      .ok (w.cells (w.shown s)) := by
    cases hs : slot.shape with
    | nil => simp [SlotType.isNested, hs] at hn
    | cons n shape =>
      have hcontent : w.contentOf (.plain (.view s)) = .window (w.shown s) := rfl
      rw [Conversion.toCells, hcontent]
      dsimp only
      have hne : ¬ (w.shown s).shape ≠ n :: shape := by rw [← hs, hshape]; exact not_not.mpr rfl
      rw [if_neg hne, Content.castsWithinKind_of_castsSafely hsafe, hsafe, hcells]
      rfl
  apply convert_of_reusable hn hto
  rw [rowType_of_regular hregular]
  have hcontent : (w.hostValue (.view s)).item = .array (w.views.get s).array := rfl
  simp only [World.reusable?]
  rw [hcontent]
  dsimp only
  rw [if_pos]
  rw [hcell, hshape, World.shown, beq_self_eq_true, beq_self_eq_true]
  rfl

/-- What may happen after a row was copied: writes below its path, and operations that leave
the cells of its array as they are. -/
inductive WritesBelow (a : Ref .array) (source : List Nat) : World → World → Prop
  | refl (w : World) : WritesBelow a source w w
  | write {u w : World} (h : WritesBelow a source u w) {r : Ref .view} {path : List Nat}
      (hr : w.ShowsRow a r path) {i : Value} {k : Nat} (hi : i.IsInteger k)
      (hp : source <+: path ++ [k]) (v : Value) :
      WritesBelow a source u (w.after (View.setIndex r i v))
  | other {u w w' : World} (h : WritesBelow a source u w) (s : Step w w')
      (hb : w'.buffers.get (w.arrays.get a).buffer = w.buffers.get (w.arrays.get a).buffer) :
      WritesBelow a source u w'

/-- Writes below a path leave any other row of that depth alone. -/
theorem WritesBelow.kept {a : Ref .array} {source path : List Nat} {u w : World}
    (h : WritesBelow a source u w) (hs : u.Sound) (ha : u.arrays.Has a)
    (hp : InRange path (u.arrays.get a).shape) (hl : path.length = source.length)
    (hne : path ≠ source) :
    w.Sound ∧ u.Extends w ∧
      w.cells ((u.arrays.get a).below path) = u.cells ((u.arrays.get a).below path) := by
  induction h with
  | refl => exact ⟨hs, .refl u, rfl⟩
  | @write w _ r q hr i k hi hsource v ih =>
    obtain ⟨hsw, he, hcells⟩ := ih
    have harray : w.arrays.get a = u.arrays.get a := he.array a ha
    obtain ⟨hsw', he'⟩ := View.leads_setIndex r i v w hsw
    refine ⟨hsw', he.trans he', ?_⟩
    rw [← hcells]
    rcases View.setIndex_cases hsw hr.has hi v with
      ⟨f, l, hf⟩ | ⟨k', hk', hlt, written, w', hw', -, -, hwrites⟩
    · rw [after_of_error hf]
      rfl
    · rw [after_of_ok hw']
      have hkk : k = k' := by exact_mod_cast hk'
      subst hkk
      have hin := (View.length_of_showsRow hr).mp hlt
      rw [harray] at hin
      rw [hr.shown, ← Window.below_concat, harray] at hwrites
      have henc : w.Encloses (u.arrays.get a) := harray ▸ hsw.encloses a (he.hasArray a ha)
      refine hwrites.cells_of_apart (encloses_below henc hp) fun _ => ?_
      refine Window.below_apart hp hin ?_ ?_
      · intro hpre
        exact hne ((List.prefix_of_prefix_length_le hpre hsource hl.le).eq_of_length hl)
      · intro hpre
        exact hne ((hsource.trans hpre).eq_of_length hl.symm).symm
  | @other w w' _ s hb ih =>
    obtain ⟨hsw, he, hcells⟩ := ih
    obtain ⟨hsw', he'⟩ := s.leads hsw
    refine ⟨hsw', he.trans he', ?_⟩
    rw [← hcells, World.cells, World.cells, Window.buffer_below]
    rw [he.array a ha] at hb
    rw [hb]

/-- A row that is written to another place of its array is copied there. -/
theorem setIndex_copies {w : World} (h : w.Sound) {a : Ref .array} (ha : w.arrays.Has a)
    {r s : Ref .view} {path source : List Nat} (hr : w.ShowsRow a r path)
    (hs : w.ShowsRow a s source) {i : Value} {k : Nat} (hi : i.IsInteger k)
    (hk : InRange (path ++ [k]) (w.arrays.get a).shape) (hl : source.length = path.length + 1) :
    ∃ w', View.setIndex r i (.view s) w = .ok () w' ∧ w'.Sound ∧ w.Extends w' ∧
      w'.cells ((w.arrays.get a).below (path ++ [k])) = w.cells ((w.arrays.get a).below source) := by
  have hslot : (w.views.get r).slot = (w.shown r).slotType := h.slot r hr.has
  have haxis := hs.axis
  have hrow : (w.shown r).rowShape = (w.shown s).shape := by
    rw [View.rowShape_of_showsRow hr, hs.shown, Window.shape_below, hl]
  have hn : (w.views.get r).slot.isNested = true := by
    rw [h.isNested hr.has, View.rowShape_of_showsRow hr]
    have hdrop : (w.arrays.get a).shape.drop (path.length + 1) ≠ [] := by
      intro hd
      have := List.drop_eq_nil_iff.mp hd
      omega
    simpa using hdrop
  have hcell : (w.views.get r).slot.cell = (w.shown s).type := by
    rw [hslot, Window.slotType, hr.shown, hs.shown, Window.type_below, Window.type_below]
  have hshape : (w.views.get r).slot.shape = (w.shown s).shape := by
    rw [hslot]
    exact hrow
  have hconvert := convert_row h (w.views.get r).truncates hn hcell hshape
  obtain ⟨y, m, -, ho, hset⟩ :=
    View.setIndex_convert h hr.has hi ((View.length_of_showsRow hr).mpr hk) hconvert
  have hy : y = .array (w.views.get s).array := ho rfl
  have hcells : w.rowCells (w.views.get r).slot y = w.cells (w.shown s) := by
    rw [hy, World.rowCells_array hn]
    rfl
  have henc : w.Encloses ((w.arrays.get a).below (path ++ [k])) :=
    encloses_below (h.encloses a ha) hk
  have hsize : (w.cells (w.shown s)).length = ((w.arrays.get a).below (path ++ [k])).size := by
    have hencloses : w.Encloses (w.shown s) := h.encloses _ (h.array s hs.has)
    rw [length_cells hencloses, Window.size, ← hrow, View.rowShape_of_showsRow hr,
      Window.size_below, List.length_append, List.length_singleton]
  have hlead := View.leads_setIndex r i (.view s) w h
  rw [after_of_ok hset] at hlead
  refine ⟨_, hset, hlead.1, hlead.2, ?_⟩
  rw [hcells, hr.shown, ← Window.below_concat, ← hs.shown]
  exact cells_setCells_self henc hsize

/-- Rows are windows on one store. Throughout a run every view that was taken along a path
reads at every index what its array holds below that path, views of one path show one row, a
successful write replaces the cells below its path and index and no other, and a row that is
written to another place stays there whatever is then written to the source. -/
theorem RowRun.rows_are_windows {a : Ref .array} {w : World} {taken : List (Ref .view × List Nat)}
    (run : RowRun a w taken) :
    (∀ e ∈ taken, w.Reflects a e.1 e.2) ∧
    (∀ e ∈ taken, ∀ e' ∈ taken, e.2 = e'.2 → w.shown e.1 = w.shown e'.1) ∧
    (∀ e ∈ taken, ∀ i (n : Int) v w', i.IsInteger n → View.setIndex e.1 i v w = .ok () w' →
      ∃ k : Nat, n = k ∧ InRange (e.2 ++ [k]) (w.arrays.get a).shape ∧ ∃ cells,
        w.Converts e.1 v cells ∧ w.Replaces w' (w.arrays.get a) (e.2 ++ [k]) cells) ∧
    (∀ e ∈ taken, ∀ s ∈ taken, ∀ i (k : Nat), i.IsInteger k →
      InRange (e.2 ++ [k]) (w.arrays.get a).shape → s.2.length = e.2.length + 1 →
      e.2 ++ [k] ≠ s.2 →
      ∃ w', View.setIndex e.1 i (.view s.1) w = .ok () w' ∧ ∀ w'', WritesBelow a s.2 w' w'' →
        w''.cells ((w.arrays.get a).below (e.2 ++ [k])) = w.cells ((w.arrays.get a).below s.2)) := by
  have hsound := run.reachable.sound
  have ha := run.hasArray.1
  refine ⟨?_, ?_, ?_, ?_⟩
  · exact fun e he => reflects_of_showsRow hsound (run.showsRow e he)
  · intro e he e' he' hpath
    rw [(run.showsRow e he).shown, (run.showsRow e' he').shown, hpath]
  · intro e he i n v w' hi hset
    exact replaces_of_setIndex hsound ha (run.showsRow e he) hi hset
  · intro e he s hs i k hi hk hl hne
    obtain ⟨w', hset, hsound', hext, hcells⟩ :=
      setIndex_copies hsound ha (run.showsRow e he) (run.showsRow s hs) hi hk hl
    refine ⟨w', hset, fun w'' later => ?_⟩
    have harray : w'.arrays.get a = w.arrays.get a := hext.array a ha
    have hin : InRange (e.2 ++ [k]) (w'.arrays.get a).shape := by rwa [harray]
    obtain ⟨-, -, hkept⟩ :=
      later.kept hsound' (hext.hasArray a ha) hin (by simpa using hl.symm) hne
    rw [harray] at hkept
    rw [hkept, hcells]

theorem rowRun_square : RowRun ⟨1⟩ (square.after (View.getIndex ⟨0⟩ (.int 0)))
    [(⟨1⟩, [0]), (⟨0⟩, [])] := by
  have hwhole : RowRun ⟨1⟩ square [(⟨0⟩, [])] :=
    .whole (.start reachable_square (by decide) (by decide)) (by decide) rfl
  have hfirst : (Value.int 0).IsInteger (0 : Nat) := .inl rfl
  have hget : View.getIndex ⟨0⟩ (.int 0) square =
      .ok (.view ⟨1⟩) (square.after (View.getIndex ⟨0⟩ (.int 0))) := rfl
  exact hwhole.row List.mem_cons_self hfirst ⟨by decide, True.intro⟩ (by decide) hget

/-- The first row is copied to the second one and stays there. -/
theorem RowRun.row_copy_outlasts_writes :
    ∃ w', View.setIndex ⟨0⟩ (.int 1) (.view ⟨1⟩) (square.after (View.getIndex ⟨0⟩ (.int 0))) = .ok () w' ∧
      ∀ w'', WritesBelow ⟨1⟩ [0] w' w'' →
        w''.cells ((square.arrays.get ⟨1⟩).below [1]) =
          (square.after (View.getIndex ⟨0⟩ (.int 0))).cells ((square.arrays.get ⟨1⟩).below [0]) := by
  obtain ⟨-, -, -, hcopy⟩ := RowRun.rows_are_windows rowRun_square
  exact hcopy (⟨0⟩, []) (by simp) (⟨1⟩, [0]) (by simp) (.int 1) 1 (.inl rfl)
    ⟨by decide, True.intro⟩ rfl (by decide)

end ScriptedArrays
