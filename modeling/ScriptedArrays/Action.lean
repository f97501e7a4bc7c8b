import ScriptedArrays.Cell.Held
import ScriptedArrays.World

/-! Actions: computations that read and change the world and may end with a fault. The
changes made before a fault stay. -/

namespace ScriptedArrays

/-- A computation in the world. -/
abbrev Action (α : Type) := EStateM Fault World α

def fail {α : Type} (f : Fault) : Action α := throw f

def failHost {α : Type} (f : HostFault) : Action α := throw (.host f)

/-- A host fault ends an action. -/
def orFail {α : Type} : Except HostFault α → Action α
  | .ok a => pure a
  | .error f => failHost f

/-- Run a reader of the world. -/
def ask {α : Type} (f : World → Except Fault α) : Action α := fun w =>
  match f w with
  | .ok a => .ok a w
  | .error e => .error e w

def look {α : Type} (f : World → α) : Action α := fun w => .ok (f w) w

def logEvent (e : Event) : Action Unit := modify fun w =>
  if w.threshold ≤ e.severity.number then { w with log := w.log.push e } else w

/-- Make a value an object of its own, unless it is one. -/
def keep (v : Value) : Action Value := modifyGet fun w =>
  if v.isObject then (v, w) else (.kept w.kept v, { w with kept := w.kept + 1 })

def keepEntries (e : Entries) : Action Entries := e.mapM fun p => return (p.1, ← keep p.2)

/-- Run an action while some values are in use. -/
def holding {α : Type} (vs : List Value) (act : Action α) : Action α := do
  let before := (← get).inUse
  modify fun w => { w with inUse := vs ++ before }
  let a ← act
  modify fun w => { w with inUse := before }
  return a

def newList (vs : List Value) : Action Value := do
  let vs ← vs.mapM keep
  modifyGet fun w => (.list w.lists.next, { w with lists := w.lists.push vs })

def newTuple (vs : List Value) : Action Value := do
  if vs.isEmpty then return .tuple World.emptyTuple
  let vs ← vs.mapM keep
  modifyGet fun w => (.tuple w.tuples.next, { w with tuples := w.tuples.push vs })

def newRecord (e : Entries) : Action (Ref .record) := do
  let e ← keepEntries e
  modifyGet fun w => (w.records.next, { w with records := w.records.push e })

/-- A new array object on existing cells. -/
def newWindow (win : Window) : Action (Ref .array) := modifyGet fun w =>
  (w.arrays.next, { w with arrays := w.arrays.push win })

/-- A new array with cells of its own. Those that are not given are zero. -/
def newArray (type : CellType) (shape : List Nat) (cells : List Value) : Action (Ref .array) := do
  let cells := type.filled (cellCount shape) cells
  let cells ← if type.isObject then cells.mapM keep else pure cells
  let buffer ← modifyGet fun (w : World) =>
    (w.buffers.next, { w with buffers := w.buffers.push cells.toArray })
  newWindow ⟨type, buffer, 0, shape⟩

def newScope (parent : Option (Ref .scope)) : Action (Ref .scope) := do
  let vars ← newRecord []
  modifyGet fun w => (w.scopes.next, { w with scopes := w.scopes.push ⟨vars, parent⟩ })

def setRecord (r : Ref .record) (e : Entries) : Action Unit := modify fun w =>
  { w with records := w.records.set r e }

/-- Assign to a key of a record. -/
def setEntry (r : Ref .record) (key : String) (v : Value) : Action Unit := do
  let v ← keep v
  setRecord r (((← get).records.get r).set key v)

def setView (r : Ref .view) (v : View) : Action Unit := modify fun w =>
  { w with views := w.views.set r v }

def setScope (r : Ref .scope) (s : Scope) : Action Unit := modify fun w =>
  { w with scopes := w.scopes.set r s }

def setPresenter (r : Ref .presenter) (p : Presenter) : Action Unit := modify fun w =>
  { w with presenters := w.presenters.set r p }

def newPresenter (s : Settings) : Action (Ref .presenter) := modifyGet fun w =>
  let p : Presenter := ⟨s.exposed, s.truncatesText, if s.reusesViews then some [] else none⟩
  (w.presenters.next, { w with presenters := w.presenters.push p })

/-- A new function with a prototype record that names it as constructor. -/
def newFunction (name : Option String) (body : Body) (receiver : Option Value) :
    Action (Ref .function) :=
  modifyGet fun w =>
    let f := w.functions.next
    let prototype := w.records.next
    (f, { w with
      functions := w.functions.push ⟨name, body, prototype, receiver⟩
      records := w.records.push [("constructor", .function f)] })

end ScriptedArrays
