import ScriptedArrays.Primitive
import ScriptedArrays.Reach
import ScriptedArrays.Text.Latin

/-! Presentation of host values to scripts. Typed cell contents become primitives, bytes
become text, arrays become views, and anything else is put into a box. What is presented
already stays as it is. -/

namespace ScriptedArrays

/-- A new view of an array with at least one axis. -/
def newView (scope : Value) (array : Ref .array) (presenter : Ref .presenter)
    (truncates : Option Bool) (counted : Bool) : Action (Ref .view) := do
  let w ← get
  let win := w.arrays.get array
  let p := w.presenters.get presenter
  if win.shape.isEmpty then fail .arrayExpected
  else
    let view : View := {
      scope, array, presenter, counted
      length := win.length
      slot := win.slotType
      truncates := truncates.getD p.truncates
      prototype := none
      exposed := p.exposed }
    let r := w.views.next
    set ({ w with views := w.views.push view }.handing r)
    logEvent (.presented view.slot.name view.length)
    return r

def newBox (scope value : Value) (presenter : Ref .presenter) (exposed : Option (List String)) :
    Action (Ref .box) := do
  let value ← keep value
  modifyGet fun w =>
    let exposed := exposed.getD (w.presenters.get presenter).exposed
    (w.boxes.next, { w with boxes := w.boxes.push ⟨scope, value, presenter, exposed⟩ })

namespace Presenter

/-- The known view of an array, if something still keeps it. The view that is known at the
address may be that of an array which lay there before. -/
def known? (w : World) (known : List (Nat × Ref .view)) (array : Ref .array) : Option (Ref .view) :=
  match known.find? (·.1 == w.address array) with
  | some (_, r) => if w.isKept (.view r) && (w.views.get r).array == array then some r else none
  | none => none

/-- The view of an array: the one that is known, or a new one. -/
def viewOf (p : Ref .presenter) (array : Ref .array) (scope : Value) : Action (Ref .view) := do
  let w ← get
  match (w.presenters.get p).known with
  | none => newView scope array p none false
  | some known =>
    match known? w known array with
    | some r => do
      modify (·.handing r)
      return r
    | none => do
      let r ← newView scope array p none false
      let now ← look (·.presenters.get p)
      setPresenter p { now with known := some ((w.address array, r) :: known) }
      return r

/-- Present a value; arrays without axes stand for their only cell, which may hold another. -/
def presentFrom (p : Ref .presenter) (scope : Value) : (fuel : Nat) → Value → Action Value
  | 0, _ => failHost .recursion
  | fuel + 1, v => do
    let v := v.opened
    match v.content with
    | .null => return .null
    | .array r =>
      let w ← get
      let win := w.arrays.get r
      if win.shape.isEmpty then presentFrom p scope fuel (w.cell win 0)
      else return .view (← viewOf p r scope)
    | .bytes b => keep (.text (Latin.decode b))
    | .bool _ | .int _ | .number _ | .text _ => keep v
    | .view r => return .view r
    | .box r => return .box r
    | _ => return .box (← newBox scope v p none)

def present (p : Ref .presenter) (v : Value) (scope : Value) : Action Value := do
  presentFrom p scope ((← get).arrays.size + 2) v

end Presenter
end ScriptedArrays
