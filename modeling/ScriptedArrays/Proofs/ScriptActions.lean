import ScriptedArrays.Environment
import ScriptedArrays.Proofs.HostActions

/-! What scripts do. Scopes, script arrays and calls of functions move the world on, whatever is
called back on the way and however it ends. -/

namespace ScriptedArrays

open World

theorem moves_numberOf (v : Value) : Keeps Moves (numberOf v) := by
  intro w
  unfold World.after numberOf
  split <;> rename_i hx <;> split at hx <;> cases hx <;> exact refl_of Moves w

namespace Scope

theorem moves_assignHere (r : Ref .scope) (name : String) (v : Value) :
    Keeps Moves (assignHere r name v) :=
  .bind (.look _) fun _ => keeps_setEntry _ _ _

theorem moves_assign (r : Ref .scope) (name : String) (v : Value) :
    Keeps Moves (assign r name v) :=
  .bind (.ask _) fun _ => moves_assignHere _ _ _

theorem moves_read (r : Ref .scope) (name : String) : Keeps Moves (read r name) := by
  refine .bind (.ask _) fun found => ?_
  split
  · exact .fail _
  · exact .pure _

theorem moves_setParent (r : Ref .scope) (parent : Option (Ref .scope)) :
    Keeps Moves (setParent r parent) :=
  .bind (.look _) fun _ => keeps_setScope _ _

end Scope

theorem moves_makeArray (prototype : Ref .record) (items : List Value) :
    Keeps Moves (makeArray prototype items) :=
  .bind (keeps_newRecord _) fun _ => .pure _

namespace Receiver

theorem moves_length (this : Value) : Keeps Moves (length this) := by
  simp only [length]
  split
  · exact .bind .get fun _ => .bind (moves_numberOf _) fun _ => .pure _
  · exact .bind (Property.moves_read _ _) fun _ => .bind (moves_numberOf _) fun _ => .pure _

theorem moves_item (this : Value) (i : Nat) : Keeps Moves (item this i) := by
  simp only [item]
  split
  · exact .bind .get fun _ => .pure _
  · exact View.moves_getIndex _ _
  · exact .pure _

theorem moves_itemsAt (this : Value) (earlier : List Value) (indices : List Nat) :
    Keeps Moves (itemsAt this earlier indices) := by
  induction indices generalizing earlier with
  | nil => exact .pure _
  | cons i rest ih =>
    exact .bind (keeps_holding _ (moves_item this i)) fun v => .bind (ih _) fun _ => .pure _

theorem moves_items (this : Value) (earlier : List Value) (start count : Nat) :
    Keeps Moves (items this earlier start count) := moves_itemsAt _ _ _

end Receiver

theorem moves_boundOf (arg : Value) (length default : Nat) :
    Keeps Moves (boundOf arg length default) := by
  simp only [boundOf]
  split
  · exact .pure _
  · exact .bind (moves_numberOf _) fun _ => .pure _

namespace ArrayMethod

theorem moves_textsAt (this previous : Value) (indices : List Nat) :
    Keeps Moves (textsAt this previous indices) := by
  induction indices generalizing previous with
  | nil => exact .pure _
  | cons i rest ih =>
    refine .bind (keeps_holding _ (Receiver.moves_item this i)) fun v => ?_
    exact .bind .get fun _ => .bind (.orFail _) fun _ => .bind (ih _) fun _ => .pure _

theorem moves_joinWith (separator : String) (this : Value) :
    Keeps Moves (joinWith separator this) :=
  .bind (Receiver.moves_length this) fun _ => .bind (moves_textsAt _ _ _) fun _ => .pure _

theorem moves_runJoin (this : Value) (args : List Value) : Keeps Moves (runJoin this args) :=
  .bind .get fun _ => .bind (.orFail _) fun _ => moves_joinWith _ _

def Sane (call : Caller) : Prop := ∀ callee this args, Keeps Moves (call callee this args)

section Visit

variable {visit : Visit}

theorem moves_answersAt (hc : Sane visit.call) (earlier : List Value) (indices : List Nat) :
    Keeps Moves (visit.answersAt earlier indices) := by
  induction indices generalizing earlier with
  | nil => exact .pure _
  | cons i rest ih =>
    refine .bind (keeps_holding _ (Receiver.moves_item _ i)) fun v => ?_
    exact .bind (keeps_holding _ (hc _ _ _)) fun _ => .bind (ih _) fun _ => .pure _

theorem moves_runAt (hc : Sane visit.call) (indices : List Nat) :
    Keeps Moves (visit.runAt indices) := by
  induction indices with
  | nil => exact .pure _
  | cons i rest ih =>
    exact .bind (Receiver.moves_item _ i) fun v => .bind (keeps_holding _ (hc _ _ _)) fun _ => ih

theorem moves_acceptedAt (hc : Sane visit.call) (previous : Value) (accepted : List Value)
    (indices : List Nat) : Keeps Moves (visit.acceptedAt previous accepted indices) := by
  induction indices generalizing previous accepted with
  | nil => exact .pure _
  | cons i rest ih =>
    refine .bind (keeps_holding _ (Receiver.moves_item _ i)) fun v => ?_
    refine .bind (keeps_holding _ (hc _ _ _)) fun answer => .ite ?_ (ih _ _)
    exact .bind (ih _ _) fun _ => .pure _

end Visit

theorem moves_spread (prototype : Ref .record) (earlier : List Value) (v : Value) :
    Keeps Moves (spread prototype earlier v) := by
  refine .bind .get fun w => .ite ?_ (.pure _)
  exact .bind (Receiver.moves_length v) fun n => Receiver.moves_items _ _ _ _

theorem moves_spreadAll (prototype : Ref .record) (earlier vs : List Value) :
    Keeps Moves (spreadAll prototype earlier vs) := by
  induction vs generalizing earlier with
  | nil => exact .pure _
  | cons v vs ih => exact .bind (moves_spread _ _ v) fun more => ih _

theorem moves_run {call : Caller} (hc : Sane call) (m : ArrayMethod) (prototype : Ref .record)
    (this : Value) (args : List Value) : Keeps Moves (run call m prototype this args) := by
  cases m with
  | join => exact moves_runJoin _ _
  | toString => exact moves_joinWith _ _
  | forEach =>
    exact .bind (Receiver.moves_length _) fun n => .bind (moves_runAt hc _) fun _ => .pure _
  | map =>
    exact .bind (Receiver.moves_length _) fun n =>
      .bind (moves_answersAt hc _ _) fun _ => moves_makeArray _ _
  | filter =>
    exact .bind (Receiver.moves_length _) fun n =>
      .bind (moves_acceptedAt hc _ _ _) fun _ => moves_makeArray _ _
  | slice =>
    refine .bind (Receiver.moves_length _) fun n => .bind (moves_boundOf _ _ _) fun lo => ?_
    exact .bind (moves_boundOf _ _ _) fun hi =>
      .bind (Receiver.moves_items _ _ _ _) fun _ => moves_makeArray _ _
  | concat => exact .bind (moves_spreadAll _ _ _) fun _ => moves_makeArray _ _

end ArrayMethod

theorem moves_ofLength (prototype : Ref .record) (x : Double) :
    Keeps Moves (match x.arrayLength? with
      | some n => newRecord [(protoKey, .record prototype), ("length", .int n)] >>= fun r =>
          (pure (.record r) : Action Value)
      | none => fail .badArrayLength) := by
  split
  · exact .bind (keeps_newRecord _) fun _ => .pure _
  · exact .fail _

theorem moves_constructArray (prototype : Ref .record) (args : List Value) :
    Keeps Moves (constructArray prototype args) := by
  unfold constructArray
  dsimp only
  split
  · split
    · exact .bind (.orFail _) fun x => moves_ofLength _ x
    · exact moves_ofLength _ _
    · exact moves_makeArray _ _
  · exact moves_makeArray _ _

theorem moves_installArray (scope : Ref .scope) : Keeps Moves (installArray scope) := by
  refine .bind (keeps_newRecord _) fun prototype => ?_
  refine .bind (.modifyGet fun w => Tolerant.plain (plain_of_eq rfl rfl rfl rfl rfl rfl rfl rfl)) fun constructor => ?_
  refine .bind (.mapM _ fun m _ => .bind (keeps_newFunction _ _ _) fun _ => .pure _) fun methods => ?_
  refine .bind (keeps_setRecord _ _) fun _ => ?_
  exact .bind (Scope.moves_assignHere _ _ _) fun _ => .pure _

theorem moves_installStandard (scope : Ref .scope) : Keeps Moves (installStandard scope) := by
  refine .bind (.ask _) fun top => .bind (Scope.moves_assignHere _ _ _) fun _ => ?_
  refine .bind (Scope.moves_assignHere _ _ _) fun _ => ?_
  exact .bind (moves_installArray top) fun _ => .pure _

theorem proper_contentOf {c d : Content} (h : Sum.contentOf c = .ok d) : d.IsProper := by
  cases c with
  | bool =>
    cases h
    exact True.intro
  | int signed width =>
    cases h
    exact True.intro
  | real p =>
    cases h
    exact True.intro
  | complex p =>
    cases h
    exact True.intro
  | object =>
    cases h
    exact True.intro
  | _ => cases h

theorem ne_empty_contentOf {c d : Content} (h : Sum.contentOf c = .ok d) :
    d ≠ .text 0 ∧ d ≠ .bytes 0 := by
  cases c <;> cases h <;> exact ⟨by simp, by simp⟩

theorem moves_withWindow (x : Double) (win : Window) : Keeps Moves (Sum.withWindow x win) := by
  intro w
  simp only [Sum.withWindow]
  refine related_orFail fun sum hsum => ?_
  rw [after_get_bind]
  refine related_orFail fun cells hcells => ?_
  have hregular : (CellType.native sum).IsRegular :=
    ⟨CellType.content_allocated (ne_empty_contentOf hsum).1 (ne_empty_contentOf hsum).2,
      proper_contentOf hsum⟩
  have hadmits : ∀ y ∈ cells, sum.Admits y := by
    intro y hy
    obtain ⟨c, -, hc⟩ := exists_of_forall₂ (forall₂_of_mapM hcells) hy
    split at hc
    · rename_i ho
      rw [ho]
      exact True.intro
    · exact Sum.admits_withCell hc
  have harray : ∀ (shape : List Nat), Keeps Moves (newArray (.native sum) shape cells >>= fun r =>
      (pure (.array r) : Action Value)) := fun shape =>
    .bind (moves_of_spares (leads_newArray shape hregular hadmits) (spares_newArray _ shape cells))
      fun _ => .pure _
  split
  · exact refl_of Moves w
  · exact harray _ w

theorem moves_addTo (x : Double) (v : Value) : Keeps Moves (addTo x v) := by
  simp only [addTo]
  split
  · exact .bind (.look _) fun _ => moves_withWindow _ _
  · exact .orFail _

def SaneCalls (call : Ref .function → Value → List Value → Action Value) : Prop :=
  ∀ f this args, Keeps Moves (call f this args)

namespace BoundMethod

theorem moves_argumentsOf (v : Value) : Keeps Moves (argumentsOf v) :=
  .bind .get fun _ => .bind (.orFail _) fun _ => .ite (HostMethod.moves_elementsOf v) (.pure _)

theorem moves_nameOf (v : Value) : Keeps Moves (nameOf v) := by
  simp only [nameOf]
  split
  · exact .pure _
  · exact .ite (.pure _) (.failHost _)

theorem moves_bindingOf (r : Ref .scope) (v d : Value) :
    Keeps Moves (nameOf v >>= fun found => match found with
      | some s => ask (·.binding? r s) >>= fun x => (pure (x.getD d) : Action Value)
      | none => ask (·.topLevel r) >>= fun _ => pure d) := by
  refine .bind (moves_nameOf v) fun found => ?_
  split
  · exact .bind (.ask _) fun _ => .pure _
  · exact .bind (.ask _) fun _ => .pure _

theorem moves_ofScope (r : Ref .scope) (name : String) (args : List Value) :
    Keeps Moves (ofScope r name args) := by
  unfold ofScope
  dsimp only
  split
  · refine .bind (moves_nameOf _) fun found => ?_
    split
    · exact .bind (.ask _) fun _ => .pure _
    · exact .bind (.ask _) fun _ => .pure _
  · exact moves_bindingOf _ _ _
  · exact moves_bindingOf _ _ _
  · refine .bind (moves_bindingOf _ _ _) fun x => ?_
    split
    · exact .bind (.look _) fun _ => .fail _
    · exact .pure _
  · refine .bind (moves_nameOf _) fun found => ?_
    split
    · exact .bind (Scope.moves_assignHere _ _ _) fun _ => .pure _
    · exact .failHost _
  · refine .bind (moves_nameOf _) fun found => ?_
    split
    · exact .bind (Scope.moves_assign _ _ _) fun _ => .pure _
    · exact .failHost _
  · exact .bind (.ask _) fun _ => .pure _
  · exact .failHost _

theorem moves_slotTypeOf (v : Value) : Keeps Moves (slotTypeOf v) := by
  simp only [slotTypeOf]
  split
  · exact .bind (.look _) fun _ => .pure _
  · exact .pure _
  · exact .pure _
  · exact .failHost _

theorem moves_ofSlotType (t : SlotType) (name : String) (args : List Value) :
    Keeps Moves (ofSlotType t name args) := by
  simp only [ofSlotType]
  split
  · exact .bind (.look _) fun _ => .pure _
  · exact moves_slotTypeOf _
  · exact .failHost _

theorem moves_test (t : SlotTest) (target slot : Value) : Keeps Moves (test t target slot) := by
  refine .bind .get fun w => ?_
  split
  · exact .bind (.orFail _) fun v => View.moves_verdict v
  · exact .bind (.orFail _) fun _ => .pure _

theorem moves_ofFunction {call : Ref .function → Value → List Value → Action Value}
    (hc : SaneCalls call) (r : Ref .function) (name : String) (args : List Value) :
    Keeps Moves (ofFunction call r name args) := by
  refine .bind (.look _) fun f => ?_
  split
  · exact .bind (moves_argumentsOf _) fun _ => hc _ _ _
  · exact .bind (moves_argumentsOf _) fun _ => hc _ _ _
  · exact moves_makeArray _ _
  · exact .bind (moves_argumentsOf _) fun _ => moves_makeArray _ _
  · exact .bind (moves_argumentsOf _) fun _ => .bind (Search.moves_scan _ _ _ _) fun _ => .pure _
  · exact .bind .get fun _ => .bind (HostMethod.moves_elementsOf _) fun _ =>
      .bind (.orFail _) fun _ => .pure _
  · exact moves_test _ _ _
  · exact .failHost _

theorem moves_ofView (r : Ref .view) (name : String) (args : List Value) :
    Keeps Moves (ofView r name args) := by
  refine .bind .get fun w => ?_
  split
  · exact .pure _
  · exact View.moves_findPrototype r
  · exact .bind (moves_nameOf _) fun _ => .pure _
  · refine .bind (moves_nameOf _) fun found => ?_
    split
    · exact View.moves_own _ _
    · exact .bind (.orFail _) fun _ => .fail _
  · unfold View.assign
    exact .bind (.orFail _) fun _ => .bind (.ite (.pure _) (.fail _)) fun _ => .pure _
  · exact .orFail _
  · exact .orFail _
  · exact View.moves_hasIndex _ _
  · exact View.moves_getIndex _ _
  · exact .bind (View.moves_setIndex _ _ _) fun _ => .pure _
  · exact keeps_newList _
  · exact .pure _
  · exact .pure _
  · exact .pure _
  · exact .pure _
  · exact .failHost _

theorem moves_ofBox (r : Ref .box) (name : String) (args : List Value) :
    Keeps Moves (ofBox r name args) := by
  refine .bind .get fun w => ?_
  split
  · exact .pure _
  · exact .pure _
  · exact .bind (moves_nameOf _) fun _ => .pure _
  · refine .bind (moves_nameOf _) fun found => ?_
    split
    · exact Box.moves_own _ _
    · exact .pure _
  · exact .bind (.orFail _) fun _ => .bind (.bind .get fun _ => .fail _) fun _ => .pure _
  · exact .orFail _
  · exact .orFail _
  · exact .failHost _

theorem moves_run {call : Ref .function → Value → List Value → Action Value}
    (hc : SaneCalls call) (owner : Value) (name : String) (args : List Value) :
    Keeps Moves (run call owner name args) := by
  simp only [run]
  split
  · exact moves_ofScope _ _ _
  · exact moves_ofSlotType _ _ _
  · exact moves_ofFunction hc _ _ _
  · exact moves_ofView _ _ _
  · exact moves_ofBox _ _ _
  · exact HostMethod.moves_run _ _ _

end BoundMethod

theorem moves_writeAt (array : Value) (i : Int) (v : Value) : Keeps Moves (writeAt array i v) := by
  simp only [writeAt]
  split
  · exact keeps_setEntry _ _ _
  · exact View.moves_setIndex _ _ _
  · exact .pure _

theorem moves_writeLength (array v : Value) : Keeps Moves (writeLength array v) := by
  simp only [writeLength]
  split
  · exact keeps_setEntry _ _ _
  · unfold View.assign
    exact .ite (.pure _) (.fail _)
  · exact .pure _

namespace Callback

theorem moves_needed (args : List Value) (i : Nat) : Keeps Moves (needed args i) := by
  simp only [needed]
  split
  · exact .pure _
  · exact .failHost _

theorem moves_indexOf (args : List Value) : Keeps Moves (indexOf args) := by
  refine .bind (moves_needed _ _) fun v => ?_
  split
  · exact .pure _
  · exact .pure _

theorem moves_run (c : Callback) (this : Value) (args : List Value) :
    Keeps Moves (c.run this args) := by
  have hneeded := moves_needed args
  cases c with
  | nothing => exact .pure _
  | item => exact .pure _
  | index => exact hneeded _
  | array => exact hneeded _
  | count => exact .pure _
  | receiver => exact .pure _
  | constant v => exact .pure _
  | add k => exact .bind (hneeded _) fun _ => .bind (moves_numberOf _) fun _ => moves_addTo _ _
  | isOdd => exact .bind (hneeded _) fun _ => .bind (moves_numberOf _) fun _ => .pure _
  | failAt k =>
    exact .bind (hneeded _) fun _ => .bind .get fun _ => .bind (.orFail _) fun _ =>
      .ite (.fail _) (hneeded _)
  | writeNext v =>
    exact .bind (hneeded _) fun _ => .bind (moves_indexOf _) fun _ =>
      .bind (moves_writeAt _ _ _) fun _ => hneeded _
  | writeLength v =>
    exact .bind (hneeded _) fun _ => .bind (moves_writeLength _ _) fun _ => hneeded _
  | note log =>
    refine .bind (hneeded _) fun _ => .bind (hneeded _) fun _ => ?_
    exact .bind (keeps_newList _) fun _ =>
      .bind (.modify fun w => Tolerant.plain (plain_of_eq rfl rfl rfl rfl rfl rfl rfl rfl)) fun _ => .pure _

end Callback

theorem sane_callbacks {depth : Nat} (h : SaneCalls (callTo depth)) :
    ArrayMethod.Sane fun callee this args => (match callee.content with
      | .function g => callTo depth g this args
      | .method owner name => BoundMethod.run (callTo depth) owner name args
      | _ => get >>= fun w => orFail (w.textOf? callee) >>= fun text => fail (.notCallable text)) := by
  intro callee this args
  dsimp only
  split
  · exact h _ _ _
  · exact BoundMethod.moves_run h _ _ _
  · exact .bind .get fun _ => .bind (.orFail _) fun _ => .fail _

theorem moves_callTo (depth : Nat) : SaneCalls (callTo depth) := by
  induction depth with
  | zero => exact fun _ _ _ => .failHost _
  | succ depth ih =>
    intro r this args
    rw [callTo]
    refine .bind (.look _) fun f => ?_
    dsimp only
    split
    · exact Callback.moves_run _ _ _
    · exact moves_constructArray _ _
    · exact ArrayMethod.moves_run (sane_callbacks ih) _ _ _ _
    · exact Search.moves_call _ _ _ _
    · exact .bind .get fun _ => .bind (BoundMethod.moves_run ih _ _ _) fun _ => moves_present _ _ _

theorem moves_call (f : Ref .function) (this : Value) (args : List Value) :
    Keeps Moves (call f this args) := moves_callTo _ f this args

theorem moves_invoke (v : Value) (args : List Value) : Keeps Moves (invoke v args) := by
  simp only [invoke]
  split
  · exact moves_call _ _ _
  · exact BoundMethod.moves_run (moves_callTo _) _ _ _
  · exact .failHost _

theorem moves_callWith (v this : Value) (args : List Value) :
    Keeps Moves (callWith v this args) := by
  simp only [callWith]
  split
  · exact .bind (.look _) fun _ => .ite (.failHost _) (moves_call _ _ _)
  · exact .failHost _

theorem moves_callMethod (v : Value) (name : String) (args : List Value) :
    Keeps Moves (callMethod v name args) :=
  .bind (Property.moves_read v name) fun _ => moves_callWith _ _ _

theorem moves_create (s : Settings) : Keeps Moves (Environment.create s) := by
  have hnew : ∀ s, Keeps Moves (newPresenter s) := fun s w => .newPresenter w s
  refine .bind (hnew _) fun _ => .bind (hnew _) fun _ => ?_
  exact .bind (keeps_newScope _) fun _ => .bind (moves_installStandard _) fun _ => .pure _

theorem moves_readSettings (source : Settings.Source) : Keeps Moves (Settings.read source) := by
  simp only [Settings.read]
  split
  · exact .pure _
  · exact .bind (keeps_logEvent _) fun _ => .pure _

theorem moves_applyLevel (name : String) (before : Nat) :
    Keeps Moves (Settings.applyLevel name before) := by
  simp only [Settings.applyLevel]
  split
  · exact .pure _
  · exact .bind (keeps_logEvent _) fun _ => .pure _

theorem moves_setThreshold (level : Nat) : Keeps Moves (setThreshold level) :=
  .modify fun _ => Tolerant.plain (plain_of_eq rfl rfl rfl rfl rfl rfl rfl rfl)

end ScriptedArrays
