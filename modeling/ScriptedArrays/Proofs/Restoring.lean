import ScriptedArrays.Proofs.RowCasts

/-! Values that stand for cells. A cell content may go out as a primitive, as text for bytes or
in a box, and a row as a view, as a list or as a script array. Whatever form it has, a slot of
the type from which it came takes it back as the very cells that it was. -/

namespace ScriptedArrays

open World

def World.StandsFor (w : World) (x c : Value) : Prop := comparable (w.hostValue x) = comparable c

theorem item_of_comparable {v u : Value} (h : comparable v = u) (hu : ∀ s, u ≠ .text s) :
    v.item = u := by
  rw [comparable] at h
  split at h
  · exact absurd h.symm (hu _)
  · exact h

theorem cellText_of_comparable {w : World} {given v : Value} {cell : CellType} {s : String}
    (h : comparable v = .text s) : Conversion.cellText w given v.item cell = .ok s := by
  rw [comparable] at h
  split at h
  · rename_i b hb
    cases h
    rw [hb]
    rfl
  · rw [h]
    rfl

namespace CellType

variable {t : CellType} {c : Value}

theorem item_single (h : c.IsPrimitive) : (t.single c).item = c := by
  rcases single_cases t c with hc | hc <;> rw [hc]
  · exact h.item
  · rfl

theorem hasRoomFor_of_accepts (h : t.Accepts c) : t.content.HasRoomFor c := by
  obtain ⟨hadmits, hheld⟩ := h
  cases ht : t.content with
  | text n =>
    obtain ⟨s, rfl⟩ := ht ▸ hadmits
    exact length_of_held_text ht hheld
  | bytes n =>
    obtain ⟨b, rfl⟩ := ht ▸ hadmits
    exact length_of_held_bytes ht hheld
  | _ => exact True.intro

/-- An accepted content is stored as it is. -/
theorem stored_single (hs : t.content.IsScalar) (h : t.Accepts c) : t.stored (t.single c) = c := by
  have hroom := hasRoomFor_of_accepts h
  obtain ⟨hadmits, hheld⟩ := h
  have ho : t.isObject = false := isObject_of_isScalar hs
  have hitem : (t.single c).item = c := item_single (isPrimitive_of_admits ho hadmits)
  cases ht : t.content with
  | text n =>
    rw [ht] at hadmits hroom
    obtain ⟨s, rfl⟩ := hadmits
    have hcut : t.held (.text s) = .text (dropNuls s) := by
      simp only [held, ht, cutText_of_le hroom]
    rw [stored, if_neg (by simp [ho])]
    exact hcut.symm.trans hheld
  | bytes n =>
    rw [ht] at hadmits hroom
    obtain ⟨b, rfl⟩ := hadmits
    have hcut : t.held (.bytes b) = .bytes (dropNulBytes b) := by
      simp only [held, ht, cutBytes_of_le hroom]
    rw [stored, if_neg (by simp [ho])]
    exact hcut.symm.trans hheld
  | object | raw n =>
    rw [ht] at hs
    exact hs.elim
  | _ =>
    rw [stored_of_not_text ho, hitem] <;> rw [hitem]
    · exact hadmits.ne_text (by simp [ht]) (by simp [ht])
    · exact hadmits.ne_bytes (by simp [ht]) (by simp [ht]) (by simp [ht])

end CellType

namespace Conversion

variable {w : World} {truncates : Bool} {cell : CellType} {x c : Value}

/-- A value that stands for a content that the cell admits and has room for is converted to it. -/
theorem toCell_of_admits (truncates : Bool) (hs : cell.content.IsScalar)
    (hc : cell.content.Admits c) (hroom : cell.content.HasRoomFor c) (hx : w.StandsFor x c) :
    toCell w truncates cell x = .ok (cell.single c) := by
  rw [World.StandsFor] at hx
  cases ht : cell.content with
  | bool =>
    obtain ⟨b, rfl⟩ := ht ▸ hc
    have hitem : (w.hostValue x).item = .bool b := item_of_comparable hx fun _ => Value.noConfusion
    rw [toCell, ht, hitem]
    rfl
  | int signed width =>
    rw [ht] at hc
    obtain ⟨n, rfl, hn⟩ := hc
    have hitem : (w.hostValue x).item = .int n := item_of_comparable hx fun _ => Value.noConfusion
    have hrange : Content.least signed width ≤ n ∧ n ≤ Content.greatest signed width :=
      of_decide_eq_true hn
    rw [toCell, ht, hitem]
    show (if Content.least signed width ≤ n ∧ n ≤ Content.greatest signed width then
      Except.ok (Value.scalar (.native cell.content) (.int n))
      else refuse x cell _) = _
    rw [if_pos hrange]
    rfl
  | real p =>
    rw [ht] at hc
    obtain ⟨y, rfl, hy⟩ := hc
    have hitem : (w.hostValue x).item = .number y := item_of_comparable hx fun _ => Value.noConfusion
    rw [toCell, ht, hitem]
    show (Except.ok (Value.scalar (.native cell.content) (.number (y.narrow p.format))) :
      Except Refusal Value) = _
    rw [Double.narrow_eq_self hy]
    rfl
  | complex p =>
    rw [ht] at hc
    obtain ⟨re, im, rfl, hre, him⟩ := hc
    have hitem : (w.hostValue x).item = .complex re im :=
      item_of_comparable hx fun _ => Value.noConfusion
    rw [toCell, ht, hitem]
    show (Except.ok (Value.scalar (.native cell.content)
      (.complex (re.narrow p.format) (im.narrow p.format))) : Except Refusal Value) = _
    rw [Double.narrow_eq_self hre, Double.narrow_eq_self him]
    rfl
  | text n =>
    rw [ht] at hc hroom
    obtain ⟨s, rfl⟩ := hc
    have htext : cellText w x (w.hostValue x).item cell = .ok s := cellText_of_comparable hx
    rw [toCell, ht]
    dsimp only
    rw [htext]
    show (fitText truncates x cell n s >>= _) = _
    rw [fitText_of_le hroom]
    rfl
  | bytes n =>
    rw [ht] at hc hroom
    obtain ⟨b, rfl⟩ := hc
    have htext : cellText w x (w.hostValue x).item cell = .ok (Latin.decode b) :=
      cellText_of_comparable hx
    have hlen : (Latin.decode b).length ≤ n := by
      rw [Latin.length_decode]
      exact hroom
    rw [toCell, ht]
    dsimp only
    rw [htext]
    show (fitText truncates x cell n (Latin.decode b) >>= _) = _
    rw [fitText_of_le hlen]
    dsimp only [bind, Except.bind]
    rw [Latin.encode?_decode]
    rfl
  | _ =>
    rw [ht] at hs
    exact hs.elim

theorem toCell_of_standsFor (truncates : Bool) (hs : cell.content.IsScalar) (hc : cell.Accepts c)
    (hx : w.StandsFor x c) :
    ∃ z, toCell w truncates cell x = .ok z ∧ cell.stored z = c :=
  ⟨_, toCell_of_admits truncates hs hc.1 (CellType.hasRoomFor_of_accepts hc) hx,
    CellType.stored_single hs hc⟩

end Conversion

namespace World

structure ScriptArray (w : World) (r : Ref .record) (items : List Value) : Prop where
  length : ∃ v y, (w.records.get r).get? "length" = some v ∧ w.numberOf v = .ok y ∧
    y.truncate? = some (items.length : Int) ∧ y.less .zero = false
  entries : ∀ i, ∀ h : i < items.length,
    (w.records.get r).getD (toString i) .undefined = items[i]

def Itemizes (w : World) (x : Value) (items : List Value) : Prop :=
  (∃ r, (w.hostValue x).item = .list r ∧ w.lists.get r = items) ∨
    ∃ r, (w.hostValue x).item = .record r ∧ w.ScriptArray r items

/-- The value is laid out like a row with these cells: it is an array of them, or it consists of
what is laid out like the rows of the row. Single values are converted to scalar types only. -/
def Mirrors (w : World) (t : CellType) : (shape : List Nat) → Value → List Value → Prop
  | [], x, cells => ∃ c, cells = [c] ∧ t.content.IsScalar ∧ w.StandsFor x c
  | n :: shape, x, cells =>
    (∃ win, w.contentOf (.plain x) = .window win ∧ win.type = t ∧ win.shape = n :: shape ∧
      w.cells win = cells) ∨
    ∃ items rows, w.Itemizes x items ∧ items.length = n ∧
      List.Forall₂ (fun y row => w.Mirrors t shape y row) items rows ∧ cells = rows.flatten

end World

namespace Conversion

variable {w : World} {truncates : Bool} {cell : CellType} {x : Value} {cells : List Value}

theorem placed_of_regular (hr : cell.IsRegular) (v : Value) : placed cell v = v := by
  obtain ⟨ht, hb⟩ := CellType.ne_empty_of_regular hr
  simp only [placed]
  split
  · rename_i hc
    exact absurd hc ht
  · rename_i hc
    exact absurd hc hb
  · rfl

theorem each_plain {convert : Operand → Except Refusal (List Value)} {items : List Value}
    {rows : List (List Value)}
    (h : List.Forall₂ (fun y row => convert (.plain y) = .ok row) items rows) :
    each convert (items.map .plain) = .ok rows.flatten := by
  induction h with
  | nil => rfl
  | cons hy _ ih =>
    rw [List.map_cons, each, hy, ih]
    rfl

/-- A script array that is as long as the row is converted item by item, and no other one is
accepted. -/
theorem toCells_of_scriptArray {items : List Value} {r : Ref .record} (n : Nat) (shape : List Nat)
    (hr : (w.hostValue x).item = .record r) (hitems : w.ScriptArray r items) :
    toCells w truncates cell (n :: shape) (.plain x) =
      if items.length = n then
        (do .ok ((← each (toCells w truncates cell shape) (items.map .plain)).map (placed cell)))
      else refuseRow (.plain x) ⟨cell, n :: shape⟩
        ("length " ++ toString items.length ++ " != " ++ toString n) := by
  obtain ⟨⟨v, y, hv, hy, htrunc, hless⟩, hentries⟩ := hitems
  have hcontent : w.contentOf (.plain x) = .plain (.record r) := by
    rw [World.contentOf, hr]
    rfl
  rw [toCells, hcontent]
  dsimp only
  rw [hv]
  dsimp only
  rw [hy]
  dsimp only [lift, bind, Except.bind]
  rw [htrunc]
  dsimp only
  rw [if_neg (by simp [hless]), Int.toNat_natCast]
  split
  · rename_i hn
    have hnumbered : numberedItems (w.records.get r) n = items.map .plain := by
      apply List.ext_getElem
      · rw [numberedItems, List.length_map, List.length_range, List.length_map, hn]
      · intro i h _
        rw [numberedItems, List.length_map, List.length_range, ← hn] at h
        simp only [numberedItems, List.getElem_map, List.getElem_range]
        rw [hentries i h]
    have hlength : (numberedItems (w.records.get r) n).length = n := by
      rw [hnumbered, List.length_map, hn]
    rw [if_pos hlength, hnumbered]
  · rfl

theorem toCells_of_itemizes {items : List Value} {n : Nat} (shape : List Nat)
    (hx : w.Itemizes x items) (hn : items.length = n) :
    toCells w truncates cell (n :: shape) (.plain x) =
      (do .ok ((← each (toCells w truncates cell shape) (items.map .plain)).map (placed cell))) := by
  rcases hx with ⟨r, hr, rfl⟩ | ⟨r, hr, hitems⟩
  · have hcontent : w.contentOf (.plain x) = .plain (.list r) := by
      rw [World.contentOf, hr]
      rfl
    rw [toCells, hcontent]
    dsimp only
    rw [if_pos (by rwa [List.length_map])]
  · rw [toCells_of_scriptArray n shape hr hitems, if_pos hn]

/-- A value that is laid out like a row is converted to its cells. -/
theorem toCells_of_mirrors (hr : cell.IsRegular) {shape : List Nat}
    (hx : w.Mirrors cell shape x cells) (hc : ∀ c ∈ cells, cell.Accepts c) :
    toCells w truncates cell shape (.plain x) = .ok cells := by
  induction shape generalizing x cells with
  | nil =>
    obtain ⟨c, rfl, hs, hstands⟩ := hx
    obtain ⟨z, hz, hstored⟩ := toCell_of_standsFor truncates hs (hc c List.mem_cons_self) hstands
    rw [toCells, hz]
    show Except.ok [cell.stored z] = _
    rw [hstored]
  | cons n shape ih =>
    rcases hx with ⟨win, hwin, rfl, hshape, rfl⟩ | ⟨items, rows, hitems, hn, hrows, rfl⟩
    · rw [toCells_of_safe hwin hshape (Content.castsSafely_self _), mapM_castCell_self hc]
      rfl
    · have hconvert : List.Forall₂
          (fun y row => toCells w truncates cell shape (.plain y) = .ok row) items rows := by
        have hmem : ∀ row ∈ rows, ∀ c ∈ row, cell.Accepts c := fun row hrow c hcell =>
          hc c (List.mem_flatten.mpr ⟨row, hrow, hcell⟩)
        have hboth := (List.forall₂_and_left _ _).mpr ⟨hmem, hrows.flip⟩
        refine List.Forall₂.flip (hboth.imp fun row y hy => ?_)
        exact ih hy.2 hy.1
      rw [toCells_of_itemizes shape hitems hn, each_plain hconvert]
      show Except.ok (rows.flatten.map (placed cell)) = _
      rw [List.map_congr_left fun c _ => placed_of_regular hr c, List.map_id']

end Conversion

theorem eq_of_sameContent {t : CellType} (ho : t.isObject = false) {xs ys : List Value}
    (hx : ∀ c ∈ xs, t.Accepts c) (hy : ∀ c ∈ ys, t.Accepts c) (h : List.Forall₂ SameContent xs ys) :
    xs = ys := by
  have hplain : ∀ zs : List Value, (∀ c ∈ zs, t.Accepts c) → zs.map Value.content = zs := by
    intro zs hz
    rw [List.map_congr_left fun c hc => (isPrimitive_of_admits ho (hz c hc).1).content, List.map_id']
  rw [← hplain xs hx, ← hplain ys hy, forall₂_sameContent_iff.mp h]

namespace View

variable {w : World} {r : Ref .view} {i x : Value} {k : Nat} {cells : List Value}

/-- What is laid out like a row is written as its cells. -/
theorem setIndex_of_mirrors_nested (h : w.Sound) (hr : w.views.Has r)
    (ho : (w.shown r).type.isObject = false) (hi : i.IsInteger k) (hk : k < (w.shown r).length)
    (hn : (w.shown r).rowShape ≠ []) (hx : w.Mirrors (w.shown r).type (w.shown r).rowShape x cells)
    (hc : ∀ c ∈ cells, (w.shown r).type.Accepts c) :
    ∃ w', setIndex r i x w = .ok () w' ∧ w.Writes w' ((w.shown r).row k) cells := by
  have hslot : (w.views.get r).slot = (w.shown r).slotType := h.slot r hr
  have hnested : (w.views.get r).slot.isNested = true := by
    rw [h.isNested hr]
    simpa using hn
  have hregular : (w.views.get r).slot.cell.IsRegular := h.cell_slot r ▸ h.regular _
  have hto : Conversion.toCells w (w.views.get r).truncates (w.views.get r).slot.cell
      (w.views.get r).slot.shape (.plain x) = .ok cells := by
    rw [hslot] at hregular ⊢
    exact Conversion.toCells_of_mirrors hregular hx hc
  obtain ⟨a, u, hu, htype, -, hcells⟩ := convert_of_cells h hnested hregular hto
  obtain ⟨hsound, hadds⟩ := convert_ok h hregular.2 hu
  obtain ⟨y, m, -, hy, hset⟩ := setIndex_convert h hr hi hk hu
  have hcell : (w.views.get r).slot.cell = (w.shown r).type := h.cell_slot r
  have hsame : u.rowCells (w.views.get r).slot y = cells := by
    have hrow : u.rowCells (w.views.get r).slot y = u.cells (u.arrays.get a) := by
      rw [hy rfl, World.rowCells_array hnested]
    have hheld : cells.map (w.views.get r).slot.cell.held = cells := by
      rw [hcell, List.map_congr_left fun c hmem => (hc c hmem).2, List.map_id']
    have haccepts : ∀ c ∈ u.cells (u.arrays.get a), (w.shown r).type.Accepts c := by
      have hwithin : u.Within (u.arrays.get a) := (hsound.shows a).within
      rw [← hcell, ← htype]
      exact hwithin.accepts_cells hsound
    rw [hheld] at hcells
    rw [hrow]
    exact eq_of_sameContent ho haccepts hc hcells
  have hlength : cells.length = ((w.shown r).row k).size := by
    have hplain : w.ShowsOperand (.plain x) := True.intro
    rw [Conversion.length_of_toCells h hplain hto, hslot]
    rfl
  have hencloses : w.Encloses ((w.shown r).row k) := (h.encloses _ (h.array r hr)).row hk
  rw [hsame] at hset
  exact ⟨_, hset, hadds.writes_setCells hencloses hlength m⟩

/-- What is converted for a single cell is written as the cell stores it. -/
theorem setIndex_of_toCell (h : w.Sound) (hr : w.views.Has r)
    (ho : (w.shown r).type.isObject = false) (hi : i.IsInteger k) (hk : k < (w.shown r).length)
    (hn : (w.shown r).rowShape = []) {z : Value}
    (hz : Conversion.toCell w (w.views.get r).truncates (w.shown r).type x = .ok z) :
    ∃ w', setIndex r i x w = .ok () w' ∧
      w.Writes w' ((w.shown r).row k) [(w.shown r).type.stored z] := by
  have hplain : ¬ (w.views.get r).slot.isNested = true := by
    rw [h.isNested hr, hn]
    exact Bool.false_ne_true
  have hcell : (w.views.get r).slot.cell = (w.shown r).type := h.cell_slot r
  have hnot : ¬ (w.views.get r).slot.cell.isObject = true := by simp [hcell, ho]
  rw [← hcell] at hz ho ⊢
  have hconvert := convert_plain hplain hz
  rw [if_neg hnot] at hconvert
  obtain ⟨y, m, hy, -, hset⟩ := setIndex_convert h hr hi hk hconvert
  have hcells : w.rowCells (w.views.get r).slot y = [(w.views.get r).slot.cell.stored z] := by
    rw [World.rowCells_single (by simpa using hplain), stored_of_content ho hy, CellType.stored, if_neg hnot, item_sameText, CellType.stored,
      if_neg hnot]
  have hlength : [(w.views.get r).slot.cell.stored z].length = ((w.shown r).row k).size := by
    rw [Window.size, Window.shape_row, hn]
    rfl
  have hencloses : w.Encloses ((w.shown r).row k) := (h.encloses _ (h.array r hr)).row hk
  have hadds : w.Adds w := .refl w
  rw [hcells] at hset
  exact ⟨_, hset, hadds.writes_setCells hencloses hlength m⟩

theorem setIndex_of_standsFor (h : w.Sound) (hr : w.views.Has r)
    (hs : (w.shown r).type.content.IsScalar) (hi : i.IsInteger k) (hk : k < (w.shown r).length)
    (hn : (w.shown r).rowShape = []) {c : Value} (hx : w.StandsFor x c)
    (hc : (w.shown r).type.Accepts c) :
    ∃ w', setIndex r i x w = .ok () w' ∧ w.Writes w' ((w.shown r).row k) [c] := by
  obtain ⟨z, hz, hstored⟩ :=
    Conversion.toCell_of_standsFor (w.views.get r).truncates hs hc hx
  rw [← hstored]
  exact setIndex_of_toCell h hr (isObject_of_isScalar hs) hi hk hn hz

theorem setIndex_of_mirrors (h : w.Sound) (hr : w.views.Has r)
    (ho : (w.shown r).type.isObject = false) (hi : i.IsInteger k) (hk : k < (w.shown r).length)
    (hx : w.Mirrors (w.shown r).type (w.shown r).rowShape x cells)
    (hc : ∀ c ∈ cells, (w.shown r).type.Accepts c) :
    ∃ w', setIndex r i x w = .ok () w' ∧ w.Writes w' ((w.shown r).row k) cells := by
  by_cases hn : (w.shown r).rowShape = []
  · rw [hn] at hx
    obtain ⟨c, rfl, hs, hstands⟩ := hx
    exact setIndex_of_standsFor h hr hs hi hk hn hstands (hc c List.mem_cons_self)
  · exact setIndex_of_mirrors_nested h hr ho hi hk hn hx hc

end View
end ScriptedArrays
