import ScriptedArrays.Proofs.MethodCalls
import ScriptedArrays.Proofs.SlotCopies

/-! Searches for what was read. Two slots are equal if their cells agree one by one, and what a slot
is read as is compared like the slot itself. So a search for it finds the first slot that is equal
to the one from which it was read. -/

namespace ScriptedArrays

open World

def Content.agree (t : Content) (c d : Value) : Bool :=
  match t, c, d with
  | .real _, .number x, .number y => x.equal y
  | .complex _, .complex re im, .complex re' im' => re.equal re' && im.equal im'
  | _, c, d => c == d

def Value.holdsNaN : Value → Bool
  | .number x => x.isNaN
  | .complex re im => re.isNaN || im.isNaN
  | _ => false

def Content.agreeCells (t : Content) (c d : Value) : Bool := t.agree c d && c != .null

def Content.agreeAll (t : Content) (cells others : List Value) : Bool :=
  (cells.zip others).all fun p => t.agreeCells p.1 p.2

theorem CellType.ne_object {t : CellType} (ho : t.isObject = false) : t.content ≠ .object := by
  simpa [isObject] using ho

section Cells

variable {t : Content} {c d : Value}

theorem zero_equal_zero : Double.zero.equal .zero = true := Double.equal_self rfl

theorem Double.equal_self_eq (x : Double) : x.equal x = !x.isNaN := by
  cases x <;> simp [equal, isNaN]

theorem commonPrecision_real (p : Precision) : (Content.real p).commonPrecision (.real p) = p := by
  cases p <;> rfl

theorem commonPrecision_complex (p : Precision) :
    (Content.complex p).commonPrecision (.complex p) = p := by
  cases p <;> rfl

/-- A content agrees with itself unless it is no number. -/
theorem Content.agree_self (ho : t ≠ .object) (hc : t.Admits c) : t.agree c c = !c.holdsNaN := by
  cases t with
  | bool =>
    obtain ⟨b, rfl⟩ := hc
    exact beq_self_eq_true _
  | int signed width =>
    obtain ⟨n, rfl, -⟩ := hc
    exact beq_self_eq_true _
  | real p =>
    obtain ⟨x, rfl, -⟩ := hc
    exact Double.equal_self_eq x
  | complex p =>
    obtain ⟨x, y, rfl, -⟩ := hc
    show (x.equal x && y.equal y) = !(x.isNaN || y.isNaN)
    rw [Double.equal_self_eq, Double.equal_self_eq, Bool.not_or]
  | text n =>
    obtain ⟨s, rfl⟩ := hc
    exact beq_self_eq_true _
  | bytes n =>
    obtain ⟨b, rfl⟩ := hc
    exact beq_self_eq_true _
  | raw n =>
    obtain ⟨b, rfl⟩ := hc
    exact beq_self_eq_true _
  | date unit => rcases hc with rfl | ⟨d, rfl⟩ <;> exact beq_self_eq_true _
  | duration unit => rcases hc with rfl | ⟨s, rfl⟩ <;> exact beq_self_eq_true _
  | object => exact absurd rfl ho

theorem Content.agreeAll_self (ho : t ≠ .object) {cells : List Value} (hc : ∀ c ∈ cells, t.Admits c) :
    t.agreeAll cells cells = cells.all fun c => !c.holdsNaN && c != .null := by
  induction cells with
  | nil => rfl
  | cons c cells ih =>
    have htail := ih fun d hd => hc d (List.mem_cons_of_mem c hd)
    show (t.agree c c && c != .null && t.agreeAll cells cells) = _
    rw [agree_self ho (hc c List.mem_cons_self), htail, List.all_cons]

/-- The host compares two numbers of one type by their values. -/
theorem relateTyped_of_admits (hc : t.Admits c) (hd : t.Admits d) (hn : t.isNumeric = true) :
    ∃ p q, c.quantity? = some p ∧ d.quantity? = some q ∧
      Quantity.relateTyped .equal (some t) (some t) p q = .ok (t.agree c d) := by
  cases t with
  | bool =>
    obtain ⟨p, rfl⟩ := hc
    obtain ⟨q, rfl⟩ := hd
    refine ⟨_, _, rfl, rfl, ?_⟩
    cases p <;> cases q <;> rfl
  | int signed width =>
    obtain ⟨i, rfl, -⟩ := hc
    obtain ⟨j, rfl, -⟩ := hd
    refine ⟨_, _, rfl, rfl, ?_⟩
    simp [Quantity.relateTyped, Quantity.jointPrecision?, Content.isInteger, relate?_int,
      Relation.ints, Relation.judge, Content.agree]
  | real p =>
    obtain ⟨x, rfl, hx⟩ := hc
    obtain ⟨y, rfl, hy⟩ := hd
    refine ⟨_, _, rfl, rfl, ?_⟩
    simp [Quantity.relateTyped, Quantity.jointPrecision?, Content.isInteger, Relation.pairs,
      Quantity.narrow, Quantity.isBeyondDoubles, commonPrecision_real, Double.narrow_eq_self hx,
      Double.narrow_eq_self hy, zero_equal_zero, Content.agree]
  | complex p =>
    obtain ⟨a, b, rfl, ha, hb⟩ := hc
    obtain ⟨x, y, rfl, hx, hy⟩ := hd
    refine ⟨_, _, rfl, rfl, ?_⟩
    simp [Quantity.relateTyped, Quantity.jointPrecision?, Content.isInteger, Relation.pairs,
      Quantity.narrow, Quantity.isBeyondDoubles, commonPrecision_complex, Double.narrow_eq_self ha,
      Double.narrow_eq_self hb, Double.narrow_eq_self hx, Double.narrow_eq_self hy, Content.agree]
  | _ => cases hn

theorem relateTexts?_equal (c d : Value) : (relateTexts? .equal c d).getD (c == d) = (c == d) := by
  unfold relateTexts?
  split
  · exact (Function.Injective.beq_eq fun _ _ => Value.text.inj).symm
  · exact (Function.Injective.beq_eq fun _ _ => Value.bytes.inj).symm
  · exact (Function.Injective.beq_eq fun _ _ => Value.date.inj).symm
  · exact (Function.Injective.beq_eq fun _ _ => Value.duration.inj).symm
  · rfl

/-- The host compares two cells of arrays of one type by their contents. -/
theorem relateCells_of_admits (ho : t ≠ .object) (hc : t.Admits c) (hd : t.Admits d)
    (objects : Value → Value → Except HostFault Bool) {g h : Grid} (hg : g.type = some t)
    (hh : h.type = some t) : Grid.relateCells objects .equal g h c d = .ok (t.agreeCells c d) := by
  have hthere : c ≠ .null → t.agreeCells c d = t.agree c d := by
    intro hne
    rw [Content.agreeCells, bne_iff_ne.mpr hne, Bool.and_true]
  have hnumbers : t.isNumeric = true → cellMode (some t) (some t) = .numbers → c ≠ .null →
      Grid.relateCells objects .equal g h c d = .ok (t.agreeCells c d) := by
    intro hn hmode hne
    obtain ⟨p, q, hp, hq, hrelate⟩ := relateTyped_of_admits hc hd hn
    rw [Grid.relateCells, hg, hh, hmode, hthere hne]
    simp only [hp, hq, hrelate]
  have htexts : cellMode (some t) (some t) = .texts →
      (relateTexts? .equal c d).getD false = t.agreeCells c d →
      Grid.relateCells objects .equal g h c d = .ok (t.agreeCells c d) := by
    intro hmode hagree
    rw [Grid.relateCells, hg, hh, hmode]
    exact congrArg Except.ok hagree
  cases t with
  | bool =>
    obtain ⟨p, rfl⟩ := hc
    exact hnumbers rfl rfl nofun
  | int signed width =>
    obtain ⟨i, rfl, -⟩ := hc
    exact hnumbers (by cases signed <;> rfl) (by cases signed <;> rfl) nofun
  | real p =>
    obtain ⟨x, rfl, -⟩ := hc
    exact hnumbers rfl rfl nofun
  | complex p =>
    obtain ⟨x, y, rfl, -⟩ := hc
    exact hnumbers rfl rfl nofun
  | text n =>
    obtain ⟨s, rfl⟩ := hc
    obtain ⟨s', rfl⟩ := hd
    exact htexts rfl ((relateTexts?_equal (.text s) (.text s')).trans (hthere nofun).symm)
  | bytes n | raw n =>
    obtain ⟨b, rfl⟩ := hc
    obtain ⟨b', rfl⟩ := hd
    exact htexts rfl ((relateTexts?_equal (.bytes b) (.bytes b')).trans (hthere nofun).symm)
  | date unit =>
    rcases hc with rfl | ⟨i, rfl⟩ <;> rcases hd with rfl | ⟨j, rfl⟩
    · exact htexts rfl rfl
    · exact htexts rfl rfl
    · exact htexts rfl rfl
    · exact htexts rfl ((relateTexts?_equal (.date i) (.date j)).trans (hthere nofun).symm)
  | duration unit =>
    rcases hc with rfl | ⟨i, rfl⟩ <;> rcases hd with rfl | ⟨j, rfl⟩
    · exact htexts rfl rfl
    · exact htexts rfl rfl
    · exact htexts rfl rfl
    · exact htexts rfl ((relateTexts?_equal (.duration i) (.duration j)).trans (hthere nofun).symm)
  | object => exact absurd rfl ho

/-- Values that are compared like two contents are equal if the contents agree. -/
theorem scalarsEqual_of_admits (ho : t ≠ .object) (hc : t.Admits c) (hd : t.Admits d) {w : World}
    {a b : Value} (ha : comparable a = comparable c) (hb : comparable b = comparable d) :
    w.scalarsEqual a b = .ok (t.agree c d) := by
  have hbytes : ∀ s s' : List UInt8,
      (Latin.decode s == Latin.decode s') = (Value.bytes s == .bytes s') := by
    intro s s'
    rw [Function.Injective.beq_eq fun _ _ => Latin.decode_injective]
    exact (Function.Injective.beq_eq fun _ _ => Value.bytes.inj).symm
  rw [scalarsEqual, ha, hb]
  cases t with
  | bool =>
    obtain ⟨p, rfl⟩ := hc
    obtain ⟨q, rfl⟩ := hd
    exact congrArg Except.ok (Function.Injective.beq_eq fun _ _ => Value.bool.inj).symm
  | int signed width =>
    obtain ⟨i, rfl, -⟩ := hc
    obtain ⟨j, rfl, -⟩ := hd
    exact congrArg Except.ok (Function.Injective.beq_eq fun _ _ => Value.int.inj).symm
  | real p =>
    obtain ⟨x, rfl, -⟩ := hc
    obtain ⟨y, rfl, -⟩ := hd
    rfl
  | complex p =>
    obtain ⟨a, b, rfl, -⟩ := hc
    obtain ⟨x, y, rfl, -⟩ := hd
    rfl
  | text n =>
    obtain ⟨s, rfl⟩ := hc
    obtain ⟨s', rfl⟩ := hd
    exact congrArg Except.ok (Function.Injective.beq_eq fun _ _ => Value.text.inj).symm
  | bytes n =>
    obtain ⟨s, rfl⟩ := hc
    obtain ⟨s', rfl⟩ := hd
    exact congrArg Except.ok (hbytes s s')
  | raw n =>
    obtain ⟨s, rfl⟩ := hc
    obtain ⟨s', rfl⟩ := hd
    exact congrArg Except.ok (hbytes s s')
  | date unit =>
    rcases hc with rfl | ⟨s, rfl⟩ <;> rcases hd with rfl | ⟨s', rfl⟩ <;> rfl
  | duration unit =>
    rcases hc with rfl | ⟨s, rfl⟩ <;> rcases hd with rfl | ⟨s', rfl⟩ <;> rfl
  | object => exact absurd rfl ho

theorem relate_of_admits (ho : t ≠ .object) (objects : Value → Value → Except HostFault Bool)
    {g h : Grid} (hg : g.type = some t) (hh : h.type = some t) (hshape : h.shape = g.shape)
    (hgl : g.cells.length = cellCount g.shape) (hhl : h.cells.length = cellCount g.shape)
    (hgc : ∀ c ∈ g.cells, t.Admits c) (hhc : ∀ c ∈ h.cells, t.Admits c) :
    Grid.relate objects .equal g h =
      .ok (.cells g.shape ((g.cells.zip h.cells).map fun p => t.agreeCells p.1 p.2)) := by
  have hmode : (cellMode (some t) (some t) == .strangers) = false := by
    cases t with
    | int signed width => cases signed <;> rfl
    | _ => rfl
  have hcells : (g.cells.zip h.cells).mapM (fun p => Grid.relateCells objects .equal g h p.1 p.2) =
      .ok ((g.cells.zip h.cells).map fun p => t.agreeCells p.1 p.2) := by
    refine mapM_of_forall₂ (List.forall₂_map_right_iff.mpr (List.forall₂_same.mpr ?_))
    rintro ⟨c, d⟩ hp
    obtain ⟨hc, hd⟩ := List.of_mem_zip hp
    exact relateCells_of_admits ho (hgc c hc) (hhc d hd) objects hg hh
  rw [Grid.relate, hg, hh, hmode, hshape, Shape.joint?_self]
  dsimp only
  rw [Shape.stretch_self hgl, Shape.stretch_self hhl, hcells]
  rfl

theorem windowsEqual_of_admits {w : World} {a b : Window} (ho : t ≠ .object)
    (ha : a.type.content = t) (hb : b.type.content = t) (hshape : b.shape = a.shape)
    (hae : w.Encloses a) (hbe : w.Encloses b) (hac : ∀ c ∈ w.cells a, t.Admits c)
    (hbc : ∀ c ∈ w.cells b, t.Admits c) :
    w.windowsEqual a b = .ok (t.agreeAll (w.cells a) (w.cells b)) := by
  have hal : (w.windowGrid a).cells.length = cellCount a.shape := length_cells hae
  have hbl : (w.windowGrid b).cells.length = cellCount a.shape := by
    rw [← hshape]
    exact length_cells hbe
  have hsame : (a.shape != b.shape) = false := by
    rw [hshape]
    exact bne_self_eq_false _
  have hrelate := relate_of_admits ho (fun x y => w.relate .equal x y >>= Verdict.truth)
    (g := w.windowGrid a) (h := w.windowGrid b) (congrArg some ha) (congrArg some hb) hshape hal hbl
    hac hbc
  have hcells : w.relateOperands .equal (.window a) (.window b) = _ := hrelate
  rw [windowsEqual, hsame, if_neg Bool.noConfusion, hcells]
  show Except.ok (List.all _ id) = _
  rw [List.all_map]
  rfl

end Cells

namespace World

def slotOperand (w : World) (win : Window) (k : Nat) : Operand :=
  if win.rowShape.isEmpty then .plain (win.type.itemValue (w.cell win k)) else .window (win.row k)

def slotsEqual (w : World) (win : Window) (k m : Nat) : Except HostFault Bool :=
  w.deepEqual (w.slotOperand win k) (w.slotOperand win m)

def slotsAgree (w : World) (win : Window) (k m : Nat) : Bool :=
  if win.rowShape.isEmpty then win.type.content.agree (w.cell win k) (w.cell win m)
  else win.type.content.agreeAll (w.cells (win.row k)) (w.cells (win.row m))

def LikeSlot (w : World) (win : Window) (k : Nat) (o : Operand) : Prop :=
  (win.rowShape = [] ∧ ∃ y, o = .plain y ∧ comparable y = comparable (w.cell win k)) ∨
    (win.rowShape ≠ [] ∧ o = .window (win.row k))

variable {w : World} {r : Ref .view} {k m : Nat} {o : Operand}

theorem operands_eq (w : World) (win : Window) :
    w.operands win = (List.range win.length).map (w.slotOperand win) := rfl

theorem item_itemValue {t : CellType} {c : Value} (ho : t.isObject = false) :
    (t.itemValue c).item = c := by
  rw [CellType.itemValue, if_neg (by simp [ho])]
  rfl

theorem comparable_itemValue {t : CellType} {c : Value} (ho : t.isObject = false)
    (hc : t.content.Admits c) : comparable (t.itemValue c) = comparable c := by
  rw [comparable, comparable, item_itemValue ho, (isPrimitive_of_admits ho hc).item]

theorem likeSlot_slotOperand (h : w.Sound) (hr : w.views.Has r)
    (ho : (w.shown r).type.isObject = false) (hk : k < (w.shown r).length) :
    w.LikeSlot (w.shown r) k (w.slotOperand (w.shown r) k) := by
  by_cases hn : (w.shown r).rowShape = []
  · refine .inl ⟨hn, _, by rw [slotOperand, hn]; rfl, ?_⟩
    exact comparable_itemValue ho (View.accepts_cell h hr hk hn).1
  · exact .inr ⟨hn, if_neg (by simpa using hn)⟩

theorem resolve_slotOperand {win : Window} (ho : win.type.isObject = false) (k : Nat) :
    w.resolve (w.slotOperand win k) = w.slotOperand win k := by
  have hnot : ¬ win.type.isObject = true := by simp [ho]
  unfold slotOperand
  split
  · rw [CellType.itemValue, if_neg hnot]
    rfl
  · rfl

theorem deepEqual_of_likeSlot (h : w.Sound) (hr : w.views.Has r)
    (ho : (w.shown r).type.isObject = false) (hk : k < (w.shown r).length)
    (hm : m < (w.shown r).length) (hlike : w.LikeSlot (w.shown r) k o) :
    w.deepEqual o (w.slotOperand (w.shown r) m) = .ok (w.slotsAgree (w.shown r) k m) := by
  have hne := CellType.ne_object ho
  rcases hlike with ⟨hn, y, rfl, hy⟩ | ⟨hn, rfl⟩
  · have hadmits := fun j hj => (View.accepts_cell h hr (k := j) hj hn).1
    rw [slotsAgree, slotOperand, hn]
    exact scalarsEqual_of_admits hne (hadmits k hk) (hadmits m hm) hy
      (comparable_itemValue ho (hadmits m hm))
  · have hencloses := h.encloses _ (h.array r hr)
    have hempty : ¬ (w.shown r).rowShape.isEmpty = true := by simpa using hn
    rw [slotsAgree, slotOperand, if_neg hempty, if_neg hempty]
    exact windowsEqual_of_admits hne rfl rfl rfl (hencloses.row hk) (hencloses.row hm)
      (fun c hc => (View.accepts_row h r k c hc).1) fun c hc => (View.accepts_row h r m c hc).1

/-- The slot is the first one that is equal to the given slot, which is not before it. -/
structure FirstEqual (w : World) (win : Window) (k j : Nat) : Prop where
  le : j ≤ k
  equal : w.slotsEqual win k j = .ok true
  before : ∀ m < j, w.slotsEqual win k m = .ok false

theorem slotsEqual_eq (h : w.Sound) (hr : w.views.Has r) (ho : (w.shown r).type.isObject = false)
    (hk : k < (w.shown r).length) (hm : m < (w.shown r).length) :
    w.slotsEqual (w.shown r) k m = .ok (w.slotsAgree (w.shown r) k m) :=
  deepEqual_of_likeSlot h hr ho hk hm (likeSlot_slotOperand h hr ho hk)

theorem slotsEqual_self (h : w.Sound) (hr : w.views.Has r) (ho : (w.shown r).type.isObject = false)
    (hk : k < (w.shown r).length) : w.slotsEqual (w.shown r) k k =
      .ok (if (w.shown r).rowShape.isEmpty then !(w.cell (w.shown r) k).holdsNaN
        else (w.cells ((w.shown r).row k)).all fun c => !c.holdsNaN && c != .null) := by
  have hne := CellType.ne_object ho
  rw [slotsEqual_eq h hr ho hk hk, slotsAgree]
  split
  · rename_i hn
    rw [Content.agree_self hne (View.accepts_cell h hr hk (List.isEmpty_iff.mp hn)).1]
  · rw [Content.agreeAll_self hne]
    exact fun c hc => (View.accepts_row h r k c hc).1

theorem slotsEqual_of_reads {u : World} (h : w.Sound) (hr : w.views.Has r)
    (ho : (w.shown r).type.isObject = false) (hk : k < (w.shown r).length)
    (hm : m < (w.shown r).length) (hu : w.Reads u) :
    u.slotsEqual (u.shown r) k m = w.slotsEqual (w.shown r) k m := by
  obtain ⟨hsound, hext, hbuf⟩ := hu h
  have hshown : u.shown r = w.shown r := hext.shown h hr
  rw [slotsEqual_eq h hr ho hk hm, slotsEqual_eq hsound (hext.hasView r hr) (by rwa [hshown])
    (by rwa [hshown]) (by rwa [hshown]), hshown]
  simp only [slotsAgree, World.cells, World.cell, hbuf]

theorem operand_of_standsFor {x c : Value} (hc : c.IsPrimitive) (hx : w.StandsFor x c) :
    w.operand (w.hostValue x) = .plain (w.hostValue x) := by
  rw [StandsFor] at hx
  cases hv : w.hostValue x with
  | array a =>
    rw [hv] at hx
    have hnone : ∀ a, comparable c ≠ .array a := by
      intro a ha
      cases c <;> first | exact hc.elim | cases ha
    exact absurd hx.symm (hnone a)
  | _ => rfl

end World

namespace Search

variable {w : World} {kind : SearchKind} {test : SlotTest} {slots : List Operand}

/-- If every test has an outcome and one is passed, the first that is passed is found. -/
theorem firstFrom_of_passes {passes : Operand → Except HostFault Bool} {p : Nat → Bool}
    (hp : ∀ m slot, slots[m]? = some slot → passes slot = .ok (p m)) {k : Nat}
    (hk : k < slots.length) (hpass : p k = true) (i : Nat) :
    ∃ j, firstFrom passes i slots = .ok (some (i + j)) ∧ j ≤ k ∧ p j = true ∧
      ∀ m < j, p m = false := by
  induction slots generalizing p k i with
  | nil => exact absurd hk (Nat.not_lt_zero k)
  | cons slot rest ih =>
    have hfirst : passes slot = .ok (p 0) := hp 0 slot rfl
    rw [firstFrom, hfirst]
    cases h0 : p 0 with
    | true => exact ⟨0, rfl, Nat.zero_le k, h0, fun m hm => absurd hm (Nat.not_lt_zero m)⟩
    | false =>
      obtain ⟨k, rfl⟩ : ∃ n, k = n + 1 := by
        cases k with
        | zero => exact absurd (h0.symm.trans hpass) Bool.false_ne_true
        | succ n => exact ⟨n, rfl⟩
      obtain ⟨j, hj, hle, hpj, hbefore⟩ := ih (p := fun m => p (m + 1))
        (fun m other hother => hp (m + 1) other hother) (Nat.lt_of_succ_lt_succ hk) hpass (i + 1)
      refine ⟨j + 1, ?_, Nat.succ_le_succ hle, hpj, ?_⟩
      · show firstFrom passes (i + 1) rest = _
        rw [hj, Nat.add_assoc, Nat.add_comm 1 j]
      · intro m hm
        cases m with
        | zero => exact h0
        | succ m => exact hbefore m (Nat.lt_of_succ_lt_succ hm)

theorem scan_eq {array : Ref .array} (hs : (w.arrays.get array).shape ≠ []) {x : Value} {j : Nat}
    (hj : firstFrom (passes w test (w.operand (w.hostValue x))) 0
      ((w.operands (w.arrays.get array)).map w.resolve) = .ok (some j)) :
    scan kind array test [x] w = .ok j w := by
  have hne : ¬ (w.arrays.get array).shape.isEmpty = true := by simpa using hs
  have hstart : start w kind [x] = .ok 0 := rfl
  rw [scan, scanBy, get_bind_apply]
  dsimp only
  rw [hstart]
  show (if (w.arrays.get array).shape.isEmpty = true then failHost .type else
    if (0 : Int) < 0 then _ else _) w = _
  rw [if_neg hne, if_neg (by decide)]
  show (orFail (firstFrom (passes w test (w.operand (w.hostValue x))) 0
    ((w.operands (w.arrays.get array)).map w.resolve)) >>= _) w = _
  rw [hj]
  rfl

end Search

namespace View

variable {w : World} {r : Ref .view} {i : Value} {k : Nat}

theorem callMethod_search {kind : SearchKind} (hkind : kind ≠ .bare) (args : List Value) :
    ∃ u, w.Retains u ∧ callMethod (.view r) (Search.functionName kind) args w =
      Search.call kind (u.views.get r).array .equal args u := by
  let f : Function := ⟨some (Search.functionName kind), .search kind (w.views.get r).array .equal,
    w.records.next, none⟩
  let u : World := { w with
    functions := w.functions.push f
    records := w.records.push [("constructor", .function w.functions.next)] }
  have hfunction : u.functions.get w.functions.next = f := Store.get_push_next _ _
  have hread : Property.read (.view r) (Search.functionName kind) w =
      .ok (.function w.functions.next) u := by
    refine Property.read_of_own (fun has => ?_) nofun
    cases kind with
    | bare => exact absurd rfl hkind
    | indexOf => rfl
    | includes => rfl
  refine ⟨u, retains_of_eq rfl rfl rfl rfl rfl rfl, ?_⟩
  rw [callMethod_of_read hread (by rw [hfunction]; rfl), callNesting, callTo, look_bind_apply,
    hfunction]

theorem getIndex_likeSlot (h : w.Sound) (hr : w.views.Has r)
    (ho : (w.shown r).type.isObject = false) (hi : i.IsInteger k) (hk : k < (w.shown r).length) :
    ∃ x u, getIndex r i w = .ok x u ∧ w.Retains u ∧
      ∀ v, u.Retains v → v.LikeSlot (w.shown r) k (v.operand (v.hostValue x)) := by
  by_cases hn : (w.shown r).rowShape = []
  · obtain ⟨x, u, hx, hu, hstands⟩ := hands_getIndex h hr ho hi hk hn
    have hc := isPrimitive_of_admits ho (accepts_cell h hr hk hn).1
    refine ⟨x, u, hx, hu, fun v hv => .inl ⟨hn, v.hostValue x, ?_, ?_⟩⟩
    · exact operand_of_standsFor hc (hstands v hv)
    · have hcell : v.cell (w.shown r) k = w.cell (w.shown r) k := by
        rw [World.cell, World.cell, ((trans_of Retains hu hv).reads h).2.2]
      rw [hcell]
      exact hstands v hv
  · obtain ⟨q, u, hget, hu, hq, hshown⟩ := getIndex_view h hr hi hk hn
    refine ⟨.view q, u, hget, hu, fun v hv => .inr ⟨hn, ?_⟩⟩
    obtain ⟨hsound, -, -⟩ := hu.reads h
    obtain ⟨-, hext, -⟩ := hv.reads hsound
    rw [← hshown, ← hext.shown hsound hq]
    rfl

/-- A scan for what is compared like a slot finds the first slot that is equal to it. -/
theorem scan_of_likeSlot (h : w.Sound) (hr : w.views.Has r) (ho : (w.shown r).type.isObject = false)
    (hk : k < (w.shown r).length) (hself : w.slotsEqual (w.shown r) k k = .ok true) {x : Value}
    (hx : w.LikeSlot (w.shown r) k (w.operand (w.hostValue x))) (kind : SearchKind) :
    ∃ j : Nat, Search.scan kind (w.views.get r).array .equal [x] w = .ok j w ∧
      w.FirstEqual (w.shown r) k j := by
  let p : Nat → Bool := w.slotsAgree (w.shown r) k
  have hequal : ∀ m < (w.shown r).length, w.slotsEqual (w.shown r) k m = .ok (p m) :=
    fun m hm => slotsEqual_eq h hr ho hk hm
  have hpass : p k = true := Except.ok.inj ((hequal k hk).symm.trans hself)
  have hslots : (w.operands (w.shown r)).map w.resolve =
      (List.range (w.shown r).length).map (w.slotOperand (w.shown r)) := by
    rw [operands_eq, List.map_map]
    exact List.map_congr_left fun m _ => resolve_slotOperand ho m
  have hpasses : ∀ m slot, ((w.operands (w.shown r)).map w.resolve)[m]? = some slot →
      Search.passes w .equal (w.operand (w.hostValue x)) slot = .ok (p m) := by
    intro m slot hm
    rw [hslots, List.getElem?_map, Option.map_eq_some_iff] at hm
    obtain ⟨n, hn, rfl⟩ := hm
    obtain ⟨hlt, rfl⟩ := List.getElem?_eq_some_iff.mp hn
    rw [List.length_range] at hlt
    rw [List.getElem_range]
    exact deepEqual_of_likeSlot h hr ho hk hlt hx
  have hcount : k < ((w.operands (w.shown r)).map w.resolve).length := by
    rwa [hslots, List.length_map, List.length_range]
  obtain ⟨j, hfirst, hle, hpj, hbefore⟩ := Search.firstFrom_of_passes hpasses hcount hpass 0
  rw [Nat.zero_add] at hfirst
  refine ⟨j, Search.scan_eq (h.shape r hr) hfirst, hle, ?_, fun m hm => ?_⟩
  · rw [hequal j (Nat.lt_of_le_of_lt hle hk), hpj]
  · rw [hequal m (by omega), hbefore m hm]

/-- Search and read agree. What a slot is read as that is equal to itself is found by the searches
of the view, and `indexOf` answers with the first slot that is equal to the one that was read. -/
theorem search_getIndex (hw : Reachable w) (hr : w.views.Has r)
    (ho : (w.shown r).type.isObject = false) (hi : i.IsInteger k) (hk : k < (w.shown r).length)
    (hself : w.slotsEqual (w.shown r) k k = .ok true) :
    ∃ x u, getIndex r i w = .ok x u ∧ ∃ j : Nat, w.FirstEqual (w.shown r) k j ∧
      (∃ v, callMethod (.view r) "indexOf" [x] u = .ok (.int j) v) ∧
      ∃ v, callMethod (.view r) "includes" [x] u = .ok (.bool true) v := by
  have h := hw.sound
  obtain ⟨x, u, hx, hu, hlike⟩ := getIndex_likeSlot h hr ho hi hk
  have hscan : ∀ kind ≠ SearchKind.bare, ∃ j : Nat, w.FirstEqual (w.shown r) k j ∧
      ∃ v, callMethod (.view r) (Search.functionName kind) [x] u =
          Search.call kind (v.views.get r).array .equal [x] v ∧
        Search.scan kind (v.views.get r).array .equal [x] v = .ok j v := by
    intro kind hkind
    obtain ⟨v, hv, hcall⟩ := callMethod_search (w := u) (r := r) hkind [x]
    have hreads : w.Reads v := (trans_of Retains hu hv).reads
    obtain ⟨hsound, hext, -⟩ := hreads h
    have hshown : v.shown r = w.shown r := hext.shown h hr
    have hsame : ∀ m < (w.shown r).length,
        v.slotsEqual (v.shown r) k m = w.slotsEqual (w.shown r) k m :=
      fun m hm => slotsEqual_of_reads h hr ho hk hm hreads
    obtain ⟨j, hj, hle, hequal, hbefore⟩ := scan_of_likeSlot hsound (hext.hasView r hr)
      (by rwa [hshown]) (by rwa [hshown]) ((hsame k hk).trans hself)
      (by rw [hshown]; exact hlike v hv) kind
    refine ⟨j, ⟨hle, ?_, fun m hm => ?_⟩, v, hcall, hj⟩
    · rw [← hsame j (Nat.lt_of_le_of_lt hle hk), hequal]
    · rw [← hsame m (by omega), hbefore m hm]
  obtain ⟨j, hj, v, hcall, hv⟩ := hscan .indexOf nofun
  obtain ⟨j', -, v', hcall', hv'⟩ := hscan .includes nofun
  refine ⟨x, u, hx, j, hj, ⟨v, ?_⟩, v', ?_⟩
  · show callMethod (.view r) (Search.functionName .indexOf) [x] u = _
    rw [hcall]
    show (Search.scan .indexOf _ _ _ >>= _) v = _
    rw [bind_apply_of_ok _ hv]
    rfl
  · show callMethod (.view r) (Search.functionName .includes) [x] u = _
    rw [hcall']
    show (Search.scan .includes _ _ _ >>= _) v' = _
    rw [bind_apply_of_ok _ hv']
    have hfound : ((j' : Int) != -1) = true := bne_iff_ne.mpr (by omega)
    show EStateM.Result.ok (Value.bool ((j' : Int) != -1)) v' = _
    rw [hfound]

end View

def echoes : World := World.empty.afterAll [
  .newPresenter .standard,
  .buildArray (.native (.bytes 1)) [3] [.bytes [233], .bytes [97], .bytes [233]],
  .newView .null ⟨1⟩ ⟨0⟩ none false]

theorem reachable_echoes : Reachable echoes := by
  apply Reachable.start.afterAll
  simp [Operation.IsProper, CellType.native, Content.IsProper]

/-- The last byte is found at the first place. -/
theorem View.indexOf_finds_earlier_equal : ∃ x u v, getIndex ⟨0⟩ (.int 2) echoes = .ok x u ∧
    callMethod (.view ⟨0⟩) "indexOf" [x] u = .ok (.int 0) v := by
  have hlast : (Value.int 2).IsInteger (2 : Nat) := .inl rfl
  have hself : echoes.slotsEqual (echoes.shown ⟨0⟩) 2 2 = .ok true :=
    slotsEqual_self reachable_echoes.sound (by decide) (by decide) (by decide)
  obtain ⟨x, u, hx, j, hj, ⟨v, hv⟩, -⟩ := View.search_getIndex reachable_echoes (r := ⟨0⟩)
    (by decide) (by decide) hlast (by decide) hself
  have hfirst : echoes.slotsEqual (echoes.shown ⟨0⟩) 2 0 = .ok true := by rfl
  cases j with
  | zero => exact ⟨x, u, v, hx, hv⟩
  | succ j => exact absurd ((hj.before 0 (Nat.succ_pos j)).symm.trans hfirst) nofun

end ScriptedArrays
