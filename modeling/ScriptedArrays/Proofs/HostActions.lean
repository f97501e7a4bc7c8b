import ScriptedArrays.HostMethod
import ScriptedArrays.Search
import ScriptedArrays.Proofs.Moves

/-! What the host does. Arrays that are built, cells that are assigned and methods that are called
move the world on, also where they fail on the way: what has cells written leaves a sound world and
no view changed, and what reads views only hands out more of them. -/

namespace ScriptedArrays

open World

theorem accepts_of_mapM_assign {t : CellType} (ht : t.content.IsProper) {w : World} {alone : Bool}
    {vs xs : List Value} (h : vs.mapM (t.assign w alone) = .ok xs) : ∀ x ∈ xs, t.Accepts x := by
  intro x hx
  obtain ⟨v, -, hv⟩ := exists_of_forall₂ (forall₂_of_mapM h) hx
  exact CellType.accepts_assign ht hv

theorem related_orFail {α β : Type} {R : World → World → Prop} [IsPreorder World R] {w : World}
    {e : Except HostFault α} {f : α → Action β} (h : ∀ a, e = .ok a → R w (w.after (f a))) :
    R w (w.after (orFail e >>= f)) := by
  cases e with
  | error g => exact refl_of R w
  | ok a => exact h a rfl

theorem spares_buildArray (type : CellType) (shape : List Nat) (vs : List Value) :
    Keeps Spares (buildArray type shape vs) :=
  .bind .get fun _ => .bind (.orFail _) fun _ => spares_newArray _ _ _

theorem leads_buildArray {type : CellType} (ht : type.content.IsProper) (shape : List Nat)
    (vs : List Value) : Keeps Leads (buildArray type shape vs) := by
  have hr := CellType.regular_allocated ht
  refine .bind .get fun w => fun u => related_orFail fun xs hxs => ?_
  exact leads_newArray shape hr (fun x hx => (accepts_of_mapM_assign hr.2 hxs x hx).1) u

theorem content_roomy (w : World) (type : CellType) (vs : List Value)
    (ht : type.content.IsProper) : (type.roomy w vs).content.IsProper := by
  unfold CellType.roomy
  dsimp only
  split
  · exact True.intro
  · exact True.intro
  · exact ht

theorem leads_typedValue {type : CellType} (ht : type.content.IsProper) (v : Value) :
    Keeps Leads (typedValue type v) := by
  have hcells : ∀ (w : World) (rows : List Nat × List Value), Keeps Leads
      (orFail (rows.2.mapM ((type.roomy w rows.2).allocated.assign w false)) >>= fun xs =>
        newArray (type.roomy w rows.2).allocated rows.1 xs >>= fun r =>
          (pure (.array r) : Action Value)) := by
    intro w rows u
    have hr := CellType.regular_allocated (content_roomy w type rows.2 ht)
    refine related_orFail fun xs hxs => ?_
    exact Keeps.bind (leads_newArray rows.1 hr fun x hx => (accepts_of_mapM_assign hr.2 hxs x hx).1)
      (fun _ => .pure _) u
  unfold typedValue
  refine .bind .get fun w => ?_
  have hrows := Keeps.ite (c := type.isObject = true)
    (.bind (.pure (w.looseShape greatestRank v, w.looseCells (w.looseShape greatestRank v) v)) (hcells w))
    (.bind (.orFail (w.layout greatestRank v)) (hcells w))
  dsimp only
  split
  · exact hrows
  · exact hrows
  · exact hrows
  · exact .bind .get fun u => .ite (.bind (.orFail _) fun _ => .pure _) hrows
  · exact .bind (.orFail _) fun _ => .pure _

theorem spares_typedValue (type : CellType) (v : Value) : Keeps Spares (typedValue type v) := by
  have hcells : ∀ (w : World) (rows : List Nat × List Value), Keeps Spares
      (orFail (rows.2.mapM ((type.roomy w rows.2).allocated.assign w false)) >>= fun xs =>
        newArray (type.roomy w rows.2).allocated rows.1 xs >>= fun r =>
          (pure (.array r) : Action Value)) := by
    intro w rows
    exact .bind (.orFail _) fun xs => .bind (spares_newArray _ _ _) fun _ => .pure _
  unfold typedValue
  refine .bind .get fun w => ?_
  have hrows := Keeps.ite (c := type.isObject = true)
    (.bind (.pure (w.looseShape greatestRank v, w.looseCells (w.looseShape greatestRank v) v)) (hcells w))
    (.bind (.orFail (w.layout greatestRank v)) (hcells w))
  dsimp only
  split
  · exact hrows
  · exact hrows
  · exact hrows
  · exact .bind .get fun u => .ite (.bind (.orFail _) fun _ => .pure _) hrows
  · exact .bind (.orFail _) fun _ => .pure _

theorem within_windowAt {w : World} {win part : Window} {position : List Int} (hw : w.Within win)
    (hp : windowAt win position = .ok part) : w.Within part := by
  induction position generalizing win with
  | nil =>
    cases hp
    exact hw
  | cons i rest ih =>
    rw [windowAt] at hp
    generalize (if i < 0 then i + (win.length : Int) else i) = k at hp
    split at hp
    · cases hp
    · have hrow : w.Within (win.row k.toNat) := hw.of_eq rfl rfl
      exact ih hrow hp

theorem leads_setCells {w : World} {win : Window} (hw : w.Within win) {vs : List Value}
    (hv : ∀ v ∈ vs, win.type.Accepts v) :
    w.Leads (w.after (modify (·.setCells win vs) : Action Unit)) :=
  fun h => h.setCells_of_within hw hv

theorem leads_assignEach {w : World} {win : Window} (hw : w.Within win) {written : List Value}
    (hv : ∀ v ∈ written, win.type.Accepts v) (vs : List Value) :
    w.Leads (w.after (assignEach win written vs)) := by
  induction vs generalizing written with
  | nil => exact leads_setCells hw hv
  | cons v vs ih =>
    intro h
    rw [assignEach, after_get_bind]
    split
    · rename_i x hx
      refine ih ?_ h
      intro y hy
      rcases List.mem_append.mp hy with hy | hy
      · exact hv y hy
      · rw [List.mem_singleton.mp hy]
        exact CellType.accepts_assign (hw.regular h).2 hx
    · exact related_after_bind (leads_setCells hw hv) (fun _ u _ => refl_of Leads u) h

theorem leads_writeFitted {w : World} {win : Window} (hw : w.Within win) (shape : List Nat)
    {cells : List Value} (hv : ∀ v ∈ cells, win.type.Accepts v) :
    w.Leads (w.after (writeFitted win shape cells)) := by
  simp only [writeFitted]
  split
  · rename_i out hfit
    exact leads_setCells hw fun v hmem => hv v (mem_of_fitted hfit v hmem)
  · exact refl_of Leads w

theorem leads_assignSequence {w : World} {win : Window} (hw : w.Within win) (v : Value) :
    w.Leads (w.after (assignSequence win v)) := by
  intro h
  have hwrite : ∀ rows : List Nat × List Value, w.Leads (w.after
      (if rows.1 = win.shape then assignEach win [] rows.2
        else orFail (rows.2.mapM (win.type.assign w false)) >>= fun cells =>
          writeFitted win rows.1 cells)) := by
    intro rows
    split
    · exact leads_assignEach hw (fun v hv => absurd hv List.not_mem_nil) _
    · exact related_orFail fun cells hcells =>
        leads_writeFitted hw _ (accepts_of_mapM_assign (hw.regular h).2 hcells)
  rw [assignSequence, after_get_bind]
  dsimp only
  split
  · exact hwrite _ h
  · exact related_orFail (R := Leads) (fun rows _ => hwrite rows) h

theorem leads_assignRow {w : World} {win : Window} (hw : w.Within win) (v : Value) :
    w.Leads (w.after (assignRow win v)) := by
  intro h
  rw [assignRow, after_get_bind]
  split
  · rename_i r _
    dsimp only
    split
    · exact ⟨h, .refl w⟩
    · rename_i cells hfit
      refine related_orFail (R := Leads) (fun xs hxs => ?_) h
      refine leads_writeFitted hw _ fun x hx => ?_
      obtain ⟨y, -, hy⟩ := exists_of_forall₂ (forall₂_of_mapM hxs) hx
      split at hy
      · rename_i ho
        exact CellType.accepts_object (by simpa [CellType.isObject] using ho) x
      · split at hy
        · exact CellType.accepts_assign (hw.regular h).2 hy
        · exact CellType.accepts_castTo (hw.regular h).2 hy
  · exact leads_assignSequence hw v h
  · exact leads_assignSequence hw v h
  · exact leads_assignSequence hw v h
  · refine related_orFail (R := Leads) (fun x hx => ?_) h
    refine leads_writeFitted hw _ fun y hy => ?_
    rw [List.mem_singleton.mp hy]
    exact CellType.accepts_assign (hw.regular h).2 hx

theorem spares_setCells (win : Window) (vs : List Value) :
    Keeps Spares (modify (·.setCells win vs) : Action Unit) := .modify fun _ => ⟨rfl, rfl, rfl, rfl, rfl, rfl⟩

theorem spares_assignEach (win : Window) (written vs : List Value) :
    Keeps Spares (assignEach win written vs) := by
  induction vs generalizing written with
  | nil => exact spares_setCells win written
  | cons v vs ih =>
    refine .bind .get fun w => ?_
    split
    · exact ih _
    · exact .bind (spares_setCells win written) fun _ => .failHost _

theorem spares_writeFitted (win : Window) (shape : List Nat) (cells : List Value) :
    Keeps Spares (writeFitted win shape cells) := by
  simp only [writeFitted]
  split
  · exact spares_setCells _ _
  · exact .failHost _

theorem spares_assignSequence (win : Window) (v : Value) : Keeps Spares (assignSequence win v) := by
  have hwrite : ∀ (w : World) (rows : List Nat × List Value), Keeps Spares
      (if rows.1 = win.shape then assignEach win [] rows.2
        else orFail (rows.2.mapM (win.type.assign w false)) >>= fun cells =>
          writeFitted win rows.1 cells) := fun w rows =>
    .ite (spares_assignEach win [] _) (.bind (.orFail _) fun _ => spares_writeFitted _ _ _)
  refine .bind .get fun w => ?_
  dsimp only
  split
  · exact hwrite w _
  · exact .bind (.orFail _) fun rows => hwrite w rows

theorem spares_assignRow (win : Window) (v : Value) : Keeps Spares (assignRow win v) := by
  refine .bind .get fun w => ?_
  split
  · dsimp only
    split
    · exact .failHost _
    · exact .bind (.orFail _) fun _ => spares_writeFitted _ _ _
  · exact spares_assignSequence win v
  · exact spares_assignSequence win v
  · exact spares_assignSequence win v
  · exact .bind (.orFail _) fun _ => spares_writeFitted _ _ _

theorem spares_assignAt (array : Ref .array) (position : List Int) (v : Value) :
    Keeps Spares (assignAt array position v) := by
  refine .bind (.look _) fun whole => .bind (.orFail _) fun win => .bind (keeps_keep v) fun x => ?_
  refine .ite (.bind .get fun w => .bind (.orFail _) fun _ => ?_) (spares_assignRow win x)
  exact spares_setCells win _

theorem leads_assignAt (array : Ref .array) (position : List Int) (v : Value) :
    Keeps Leads (assignAt array position v) := by
  intro w h
  rw [assignAt, after_look_bind]
  refine related_orFail (R := Leads) (fun win hwin => ?_) h
  have hw := within_windowAt (h.shows array).within hwin
  refine related_after_bind (keeps_keep v w) fun x u hx => ?_
  obtain ⟨y, n, hkeep, -⟩ := keep_eq v w
  rw [hkeep] at hx
  cases hx
  have hw' : World.Within { w with kept := n } win := hw
  split
  · rw [after_get_bind]
    intro hu
    refine related_orFail (R := Leads) (fun z hz => ?_) hu
    refine leads_setCells hw' fun c hc => ?_
    rw [List.mem_singleton.mp hc]
    exact CellType.accepts_assign (hw'.regular hu).2 hz
  · exact leads_assignRow hw' x

variable {asks : Ref .view → Prop}

theorem moves_newSearch (kind : SearchKind) (array : Ref .array) (test : SlotTest) :
    Keeps (MovesAsking asks) (newSearch kind array test) := moves_members.newSearch kind array test

theorem leads_copy {w : World} {win : Window} (hw : w.Within win) (shape : List Nat) :
    w.Leads (w.after (newArray win.type shape (w.cells win) >>= fun r =>
      (pure (.array r) : Action Value))) := by
  intro h
  refine Keeps.bind (R := Leads) ?_ (fun _ => .pure _) w h
  exact leads_newArray shape (hw.regular h) fun v hv => (hw.accepts_cells h v hv).1

theorem leads_slotValues {w : World} {win : Window} (hw : w.Shows win) (is : List Nat)
    (hi : ∀ i ∈ is, i < win.length) : w.Leads (w.after (is.mapM (slotValue win))) := by
  intro h
  induction is generalizing w with
  | nil => exact ⟨h, .refl w⟩
  | cons i is ih =>
    rw [List.mapM_cons]
    have hread := reads_slotValue hw (hi i List.mem_cons_self)
    refine related_after_bind (R := Leads) (fun h => ⟨(hread h).1, (hread h).2.1⟩) ?_ h
    intro x u hu
    rw [after_of_ok hu] at hread
    have hw' : u.Shows win := hw.of_extends h (hread h).2.1
    refine related_after_bind (fun hu => ?_) fun _ v _ => refl_of Leads v
    exact ih hw' (fun j hj => hi j (List.mem_cons_of_mem _ hj)) hu

namespace HostMethod

theorem keeps_nested {R : World → World → Prop} [IsPreorder World R] [Tolerant R] (shape : List Nat)
    (cells : List Value) : Keeps R (nested shape cells) := by
  induction shape generalizing cells with
  | nil => exact .pure _
  | cons n shape ih => exact .bind (.mapM _ fun piece _ => ih piece) fun _ => keeps_newList _

theorem leads_ofArray (r : Ref .array) (name : String) (args : List Value) :
    Keeps Leads (ofArray r name args) := by
  intro w h
  have hcopy := leads_copy (h.shows r).within (w.arrays.get r).shape h
  rw [ofArray, after_get_bind]
  dsimp only
  split
  · exact keeps_nested (R := Leads) _ _ w h
  · exact hcopy
  · split
    · exact hcopy
    · split
      · exact hcopy
      · exact ⟨h, .refl w⟩
    · split
      · exact hcopy
      · exact ⟨h, .refl w⟩
    · exact ⟨h, .refl w⟩
  · exact ⟨h, .refl w⟩

theorem spares_ofArray (r : Ref .array) (name : String) (args : List Value) :
    Keeps Spares (ofArray r name args) := by
  have hcopy : ∀ (w : World), Keeps Spares (newArray (w.arrays.get r).type (w.arrays.get r).shape
      (w.cells (w.arrays.get r)) >>= fun r => (pure (.array r) : Action Value)) :=
    fun w => .bind (spares_newArray _ _ _) fun _ => .pure _
  refine .bind .get fun w => ?_
  dsimp only
  split
  · exact keeps_nested _ _
  · exact hcopy w
  · split
    · exact hcopy w
    · exact .ite (hcopy w) (.failHost _)
    · exact .ite (hcopy w) (.failHost _)
    · exact .failHost _
  · exact .failHost _

theorem moves_setList (r : Ref .list) (vs : List Value) : Keeps (MovesAsking asks) (setList r vs) :=
  .modify fun _ => Tolerant.plain (plain_of_eq rfl rfl rfl rfl rfl rfl rfl rfl)

theorem moves_elementsOf (v : Value) : Keeps (MovesAsking asks) (elementsOf v) := by
  intro w
  rw [elementsOf, after_get_bind]
  split
  · exact .refl w
  · exact .refl w
  · exact .refl w
  · exact .refl w
  · exact .refl w
  · rename_i r _
    dsimp only
    split
    · exact .refl w
    · refine .other (fun h => ?_) (Keeps.mapM _ (fun i _ => spares_slotValue _ i) w)
      exact leads_slotValues (h.shows r) _ (fun i hi => List.mem_range.mp hi) h
  · exact View.moves_elements _ w
  · exact .refl w

theorem moves_found (found : Except HostFault (Option Nat)) : Keeps (MovesAsking asks)
    (orFail found >>= fun found => match found with
      | some i => (pure (.int i) : Action Value)
      | none => failHost .value) := by
  refine .bind (.orFail _) fun found => ?_
  split
  · exact .pure _
  · exact .failHost _

theorem moves_indexOf (vs args : List Value) : Keeps (MovesAsking asks) (indexOf vs args) := by
  refine .bind .get fun w => ?_
  dsimp only
  split
  · exact moves_found _
  · split
    · exact moves_found _
    · exact .failHost _
  · split
    · exact moves_found _
    · exact .failHost _
  · exact .failHost _

theorem moves_countOf (vs args : List Value) : Keeps (MovesAsking asks) (countOf vs args) := by
  refine .bind .get fun w => ?_
  split
  · exact .bind (.orFail _) fun _ => .pure _
  · exact .failHost _

theorem moves_ofList (r : Ref .list) (name : String) (args : List Value) :
    Keeps (MovesAsking asks) (ofList r name args) := by
  unfold ofList
  refine .bind .get fun w => ?_
  have hset : ∀ (vs : List Value) (x : Value), Keeps (MovesAsking asks) (setList r vs >>= fun _ =>
      (pure x : Action Value)) := fun vs x => .bind (moves_setList r vs) fun _ => .pure x
  dsimp only
  split
  · exact hset _ _
  · exact .bind (moves_elementsOf _) fun vs => .bind (.mapM _ fun v _ => keeps_keep v) fun _ => hset _ _
  · split
    · exact hset _ _
    · exact .failHost _
  · split
    · exact hset _ _
    · exact .failHost _
  · split
    · exact .ite (hset _ _) (.failHost _)
    · exact .failHost _
  · refine .bind (.orFail _) fun found => ?_
    split
    · exact hset _ _
    · exact .failHost _
  · exact hset _ _
  · exact hset _ _
  · exact keeps_newList _
  · exact moves_countOf _ _
  · exact moves_indexOf _ _
  · exact .failHost _

theorem moves_ofTuple (r : Ref .tuple) (name : String) (args : List Value) :
    Keeps (MovesAsking asks) (ofTuple r name args) := by
  refine .bind .get fun w => ?_
  split
  · exact moves_countOf _ _
  · exact moves_indexOf _ _
  · exact .failHost _

theorem moves_entry (w : World) (r : Ref .record) (k d : Value) :
    Keeps (MovesAsking asks) (match k.item with
      | .text s => (pure ((w.records.get r).getD s d) : Action Value)
      | k => if isKey k then pure d else failHost .type) := by
  split
  · exact .pure _
  · exact .ite (.pure _) (.failHost _)

theorem moves_ofRecord (r : Ref .record) (name : String) (args : List Value) :
    Keeps (MovesAsking asks) (ofRecord r name args) := by
  refine .bind .get fun w => ?_
  dsimp only
  split
  · exact .bind (keeps_newRecord _) fun _ => .pure _
  · exact moves_entry _ _ _ _
  · exact moves_entry _ _ _ _
  · exact .bind (keeps_setRecord _ _) fun _ => .pure _
  · exact .failHost _

theorem moves_run (owner : Value) (name : String) (args : List Value) :
    Keeps (MovesAsking asks) (run owner name args) := by
  simp only [run]
  split
  · exact moves_of_spares (leads_ofArray _ _ _) (spares_ofArray _ _ _)
  · split
    · exact keeps_keep _
    · exact keeps_keep _
    · exact keeps_keep _
    · exact .failHost _
  · exact moves_ofList _ _ _
  · exact moves_ofTuple _ _ _
  · exact moves_ofRecord _ _ _
  · exact .failHost _

end HostMethod

namespace Search

section Scans

variable {R : World → World → Prop} [IsPreorder World R]

theorem keeps_scanBy (hlog : ∀ e, Keeps R (logEvent e)) (kind : SearchKind) (array : Ref .array)
    (passes : Predicate) (args : List Value) : Keeps R (scanBy kind array passes args) := by
  refine .bind .get fun w => ?_
  dsimp only
  split
  · exact .fail _
  · refine .bind (.orFail _) fun s => .ite (.failHost _) (.ite ?_ ?_)
    · exact .bind (hlog _) fun _ => .fail _
    · refine .bind (.orFail _) fun found => ?_
      split
      · exact .pure _
      · exact .pure _

theorem keeps_callBy (hlog : ∀ e, Keeps R (logEvent e)) (kind : SearchKind) (array : Ref .array)
    (passes : Predicate) (args : List Value) : Keeps R (callBy kind array passes args) := by
  simp only [callBy]
  split
  · exact .pure _
  · exact .bind (keeps_scanBy hlog _ _ _ _) fun _ => .pure _
  · exact .bind (keeps_scanBy hlog _ _ _ _) fun _ => .pure _

end Scans

theorem moves_scan (kind : SearchKind) (array : Ref .array) (test : SlotTest) (args : List Value) :
    Keeps (MovesAsking asks) (scan kind array test args) :=
  keeps_scanBy keeps_logEvent kind array _ args

theorem moves_call (kind : SearchKind) (array : Ref .array) (test : SlotTest) (args : List Value) :
    Keeps (MovesAsking asks) (call kind array test args) :=
  keeps_callBy keeps_logEvent kind array _ args

end Search

end ScriptedArrays
