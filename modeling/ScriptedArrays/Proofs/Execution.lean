import ScriptedArrays.Proofs.ScriptActions

/-! Executions. Hosts and scripts ask for one operation after the other, and each takes the
world further, also when it fails. A world is reachable if some sequence of operations leads to
it from the empty one, and every reachable world is sound. -/

namespace ScriptedArrays

/-- What hosts and scripts may ask for. -/
inductive Operation
  | keep (v : Value)
  | newList (vs : List Value)
  | newTuple (vs : List Value)
  | newRecord (e : Entries)
  | newScope (parent : Option (Ref .scope))
  | newFunction (name : Option String) (body : Body) (receiver : Option Value)
  | newPresenter (s : Settings)
  | newView (scope : Value) (array : Ref .array) (p : Ref .presenter) (truncates : Option Bool)
      (counted : Bool)
  | newBox (scope value : Value) (p : Ref .presenter) (exposed : Option (List String))
  | newSearch (kind : SearchKind) (array : Ref .array) (test : SlotTest)
  | buildArray (type : CellType) (shape : List Nat) (vs : List Value)
  | typedValue (type : CellType) (v : Value)
  | createEnvironment (s : Settings)
  | convert (truncates : Bool) (slot : SlotType) (v : Value)
  | present (p : Ref .presenter) (v scope : Value)
  | hasIndex (r : Ref .view) (i : Value)
  | getIndex (r : Ref .view) (i : Value)
  | setIndex (r : Ref .view) (i v : Value)
  | elementsOf (v : Value)
  | readProperty (v : Value) (name : String)
  | hasProperty (v : Value) (name : String)
  | ownOfView (r : Ref .view) (name : String)
  | ownOfBox (r : Ref .box) (name : String)
  | findPrototype (r : Ref .view)
  | assignAt (array : Ref .array) (position : List Int) (v : Value)
  | setEntry (r : Ref .record) (key : String) (v : Value)
  | callMethod (v : Value) (name : String) (args : List Value)
  | callWith (v this : Value) (args : List Value)
  | invoke (v : Value) (args : List Value)
  | scan (kind : SearchKind) (array : Ref .array) (test : SlotTest) (args : List Value)
  | arrayPrototype (r : Ref .scope)
  | assignHere (r : Ref .scope) (name : String) (v : Value)
  | assignVariable (r : Ref .scope) (name : String) (v : Value)
  | readVariable (r : Ref .scope) (name : String)
  | setParent (r : Ref .scope) (parent : Option (Ref .scope))
  | installArray (r : Ref .scope)
  | installStandard (r : Ref .scope)
  | readSettings (source : Settings.Source)
  | applyLevel (name : String) (before : Nat)
  | setThreshold (level : Nat)

namespace Operation

def run : Operation → Action Unit
  | keep v => do let _ ← ScriptedArrays.keep v
  | newList vs => do let _ ← ScriptedArrays.newList vs
  | newTuple vs => do let _ ← ScriptedArrays.newTuple vs
  | newRecord e => do let _ ← ScriptedArrays.newRecord e
  | newScope parent => do let _ ← ScriptedArrays.newScope parent
  | newFunction name body receiver => do let _ ← ScriptedArrays.newFunction name body receiver
  | newPresenter s => do let _ ← ScriptedArrays.newPresenter s
  | newView scope array p truncates counted => do
    let _ ← ScriptedArrays.newView scope array p truncates counted
  | newBox scope value p exposed => do let _ ← ScriptedArrays.newBox scope value p exposed
  | newSearch kind array test => do let _ ← ScriptedArrays.newSearch kind array test
  | buildArray type shape vs => do let _ ← ScriptedArrays.buildArray type shape vs
  | typedValue type v => do let _ ← ScriptedArrays.typedValue type v
  | createEnvironment s => do let _ ← Environment.create s
  | convert truncates slot v => do let _ ← ScriptedArrays.convert truncates slot v
  | present p v scope => do let _ ← Presenter.present p v scope
  | hasIndex r i => do let _ ← View.hasIndex r i
  | getIndex r i => do let _ ← View.getIndex r i
  | setIndex r i v => View.setIndex r i v
  | elementsOf v => do let _ ← HostMethod.elementsOf v
  | readProperty v name => do let _ ← Property.read v name
  | hasProperty v name => do let _ ← Property.has v name
  | ownOfView r name => do let _ ← View.own r name
  | ownOfBox r name => do let _ ← Box.own r name
  | findPrototype r => do let _ ← View.findPrototype r
  | assignAt array position v => ScriptedArrays.assignAt array position v
  | setEntry r key v => ScriptedArrays.setEntry r key v
  | callMethod v name args => do let _ ← ScriptedArrays.callMethod v name args
  | callWith v this args => do let _ ← ScriptedArrays.callWith v this args
  | invoke v args => do let _ ← ScriptedArrays.invoke v args
  | scan kind array test args => do let _ ← Search.scan kind array test args
  | arrayPrototype r => do let _ ← ScriptedArrays.arrayPrototype r
  | assignHere r name v => Scope.assignHere r name v
  | assignVariable r name v => Scope.assign r name v
  | readVariable r name => do let _ ← Scope.read r name
  | setParent r parent => Scope.setParent r parent
  | installArray r => do let _ ← ScriptedArrays.installArray r
  | installStandard r => ScriptedArrays.installStandard r
  | readSettings source => do let _ ← Settings.read source
  | applyLevel name before => do let _ ← Settings.applyLevel name before
  | setThreshold level => ScriptedArrays.setThreshold level

/-- The cell types that an operation names exist. -/
def IsProper : Operation → Prop
  | buildArray type _ _ => type.content.IsProper
  | typedValue type _ => type.content.IsProper
  | convert _ slot _ => slot.cell.content.IsProper
  | _ => True

end Operation

/-- The world after an operation. Between operations the log may be taken away, its level be
changed and values be given up, and it is settled where the arrays to come will lie. -/
inductive Step : World → World → Prop
  | operation (w : World) (op : Operation) (h : op.IsProper) : Step w (w.after op.run)
  | settle (w : World) (threshold : Nat) (log : Array Event) (inUse : List Value) :
      Step w { w with threshold, log, inUse }
  | place (w : World) (address : Ref .array → Nat)
      (h : ∀ a, w.arrays.Has a → address a = w.address a) : Step w { w with address }

/-- The worlds to which operations lead. -/
inductive Reachable : World → Prop
  | start : Reachable .empty
  | step {w w' : World} (h : Reachable w) (s : Step w w') : Reachable w'

open World

theorem moves_forget {α : Type} {act : Action α} (h : Keeps Moves act) :
    Keeps Moves (act >>= fun _ => (pure () : Action Unit)) :=
  .bind h fun _ => .pure _

/-- An operation is made of moves. -/
theorem Operation.moves_run (op : Operation) (h : op.IsProper) : Keeps Moves op.run := by
  cases op with
  | keep v => exact moves_forget (keeps_keep v)
  | newList vs => exact moves_forget (keeps_newList vs)
  | newTuple vs => exact moves_forget (keeps_newTuple vs)
  | newRecord e => exact moves_forget (keeps_newRecord e)
  | newScope parent => exact moves_forget (keeps_newScope parent)
  | newFunction name body receiver => exact moves_forget (keeps_newFunction name body receiver)
  | newPresenter s => exact moves_forget fun w => .newPresenter w s
  | newView scope array p truncates counted =>
    exact moves_forget fun w => .newView w scope array p truncates counted
  | newBox scope value p exposed => exact moves_forget (keeps_newBox scope value p exposed)
  | newSearch kind array test => exact moves_forget (moves_newSearch kind array test)
  | buildArray type shape vs => exact moves_forget (moves_of_spares (leads_buildArray h shape vs) (spares_buildArray type shape vs))
  | typedValue type v => exact moves_forget (moves_of_spares (leads_typedValue h v) (spares_typedValue type v))
  | createEnvironment s => exact moves_forget (moves_create s)
  | convert truncates slot v => exact moves_forget (moves_of_spares (leads_convert h) (spares_convert truncates slot v))
  | present p v scope => exact moves_forget (moves_present p v scope)
  | hasIndex r i => exact moves_forget (View.moves_hasIndex r i)
  | getIndex r i => exact moves_forget (View.moves_getIndex r i)
  | setIndex r i v => exact View.moves_setIndex r i v
  | elementsOf v => exact moves_forget (HostMethod.moves_elementsOf v)
  | readProperty v name => exact moves_forget (Property.moves_read v name)
  | hasProperty v name => exact moves_forget (Property.moves_has v name)
  | ownOfView r name => exact moves_forget (View.moves_own r name)
  | ownOfBox r name => exact moves_forget (Box.moves_own r name)
  | findPrototype r => exact moves_forget (View.moves_findPrototype r)
  | assignAt array position v => exact moves_of_spares (leads_assignAt array position v) (spares_assignAt array position v)
  | setEntry r key v => exact keeps_setEntry r key v
  | callMethod v name args => exact moves_forget (moves_callMethod v name args)
  | callWith v this args => exact moves_forget (moves_callWith v this args)
  | invoke v args => exact moves_forget (moves_invoke v args)
  | scan kind array test args => exact moves_forget (Search.moves_scan kind array test args)
  | arrayPrototype r => exact moves_forget (keeps_arrayPrototype r)
  | assignHere r name v => exact Scope.moves_assignHere r name v
  | assignVariable r name v => exact Scope.moves_assign r name v
  | readVariable r name => exact moves_forget (Scope.moves_read r name)
  | setParent r parent => exact Scope.moves_setParent r parent
  | installArray r => exact moves_forget (moves_installArray r)
  | installStandard r => exact moves_installStandard r
  | readSettings source => exact moves_forget (moves_readSettings source)
  | applyLevel name before => exact moves_forget (moves_applyLevel name before)
  | setThreshold level => exact moves_setThreshold level

theorem Step.moves {w w' : World} (s : Step w w') : w.Moves w' := by
  cases s with
  | operation op h => exact op.moves_run h w
  | settle threshold log inUse => exact Tolerant.plain (plain_of_eq rfl rfl rfl rfl rfl rfl rfl rfl)
  | place address h => exact .place w address h

theorem Step.leads {w w' : World} (s : Step w w') : w.Leads w' := s.moves.leads

theorem Reachable.moves {w : World} (h : Reachable w) : World.empty.Moves w := by
  induction h with
  | start => exact .refl _
  | step _ s ih => exact .trans ih s.moves

theorem Reachable.sound {w : World} (h : Reachable w) : w.Sound := by
  induction h with
  | start => exact sound_empty
  | step _ s ih => exact (s.leads ih).1

def World.afterAll (w : World) (ops : List Operation) : World :=
  ops.foldl (fun w op => w.after op.run) w

theorem Reachable.afterAll {w : World} (h : Reachable w) {ops : List Operation}
    (hops : ∀ op ∈ ops, op.IsProper) : Reachable (w.afterAll ops) := by
  induction ops generalizing w with
  | nil => exact h
  | cons op ops ih =>
    apply ih (h.step (.operation w op (hops op List.mem_cons_self)))
    exact fun o ho => hops o (List.mem_cons_of_mem op ho)

theorem World.moves_afterAll (w : World) {ops : List Operation} (hops : ∀ op ∈ ops, op.IsProper) :
    w.Moves (w.afterAll ops) := by
  induction ops generalizing w with
  | nil => exact .refl w
  | cons op ops ih =>
    refine .trans (op.moves_run (hops op List.mem_cons_self) w) (ih _ fun o ho => ?_)
    exact hops o (List.mem_cons_of_mem op ho)

theorem Reachable.extends {w w' : World} (h : Reachable w) (s : Step w w') : w.Extends w' :=
  (s.leads h.sound).2

end ScriptedArrays
