import ScriptedArrays.Cells
import ScriptedArrays.Action

/-! Reachability. A presenter reuses a view as long as something keeps it: what is in use,
directly or through other objects, or an object that holds itself and is never given up. -/

namespace ScriptedArrays

namespace Callback

/-- The values that a callback holds. -/
def held : Callback → List Value
  | constant v | add v | failAt v | writeNext v | writeLength v => [v]
  | note log => [.list log]
  | _ => []

end Callback

def Body.held : Body → List Value
  | .callback c => c.held
  | .construct p => [.record p]
  | .arrayMethod _ p => [.record p]
  | .search _ array _ => [.array array]
  | .hostMethod owner _ _ scope => [owner, scope]

/-- The object that a value keeps: the owner of a bound method, and otherwise the object
itself. -/
def Value.anchor : Value → Value
  | .method owner _ => owner.anchor
  | .kept _ v | .member _ _ v | .scalar _ v => v.anchor
  | v => v

namespace World

/-- The values that an object holds directly. A row keeps all cells of its buffer. -/
def held (w : World) (v : Value) : List Value :=
  match v with
  | .list r => w.lists.get r
  | .tuple r => w.tuples.get r
  | .record r => (w.records.get r).map (·.2)
  | .array r =>
    let win := w.arrays.get r
    if win.type.isObject then (w.buffers.get win.buffer).toList else []
  | .function r =>
    let f := w.functions.get r
    if f.isBare then f.body.held else .record f.prototype :: f.body.held
  | .view r =>
    let view := w.views.get r
    [.array view.array, view.scope, view.prototype.getD .null]
  | .box r => [(w.boxes.get r).value, (w.boxes.get r).scope]
  | .scope r =>
    let s := w.scopes.get r
    .record s.vars :: (match s.parent with
      | some p => [.scope p]
      | none => [])
  | _ => []

/-- The objects that hold others. -/
def objects (w : World) : List Value :=
  let all {s : Species} (n : Nat) (make : Ref s → Value) := (List.range n).map fun i => make ⟨i⟩
  all w.lists.size .list ++ all w.tuples.size .tuple ++ all w.records.size .record ++
    all w.arrays.size .array ++ all w.functions.size .function ++ all w.views.size .view ++
    all w.boxes.size .box ++ all w.scopes.size .scope

/-- The objects that hold one of some objects directly. -/
def holdersOf (w : World) (vs : List Value) : List Value :=
  w.objects.filter fun o => (w.held o).any (vs.contains ·.anchor)

/-- The objects found so far and those that hold one of the fresh ones in the given number
of steps. -/
def holdersFrom (w : World) : (steps : Nat) → (found fresh : List Value) → List Value
  | 0, found, _ => found
  | steps + 1, found, fresh =>
    match (w.holdersOf fresh).filter (!found.contains ·) with
    | [] => found
    | more => holdersFrom w steps (more ++ found) more

/-- The objects that hold an object directly or through others. Every step finds a further
one, so there are no more steps than objects. -/
def holders (w : World) (v : Value) : List Value := w.holdersFrom (w.size + w.views.size + 1) [] [v]

def holdsItself (w : World) (v : Value) : Bool := (w.holders v).contains v

/-- The object is in use, or it is held by one that is in use or is never given up. -/
def isKept (w : World) (v : Value) : Bool :=
  let chain := v :: w.holders v
  let roots := w.inUse.map (·.anchor)
  chain.any roots.contains || chain.any w.holdsItself

end World

end ScriptedArrays
