import ScriptedArrays.Conversion
import ScriptedArrays.Index
import ScriptedArrays.Present

/-! Indexed reads and writes through a view. What is read is presented to the script, and
what is written is converted to the type of the slots. -/

namespace ScriptedArrays

/-- The outcome of a comparison as a value. -/
def Verdict.value : Verdict → Action Value
  | plain b => return .bool b
  | cells [] bs => return .scalar (.native .bool) (.bool (bs.headD false))
  | cells shape bs => return .array (← newArray (.native .bool) shape (bs.map .bool))

/-- The content of slot `i`: a cell content with its type, or a window on the row. -/
def slotValue (win : Window) (i : Nat) : Action Value := do
  if win.rowShape.isEmpty then return win.type.itemValue ((← get).cell win i)
  else return .array (← newWindow (win.row i))

/-- A new array with the cells of a part. -/
def partValue (p : Part) : Action Value := do
  let w ← get
  return .array (← newArray p.window.type p.shape (if p.chosen then w.cells p.window else []))

def hostSlot (win : Window) (i : Value) : Action Value := do
  match (← get).select win i with
  | .slot n => slotValue win n
  | .part p => partValue p
  | .invalid => failHost .index

/-- The cells that a converted value puts into a slot whose rows have the given shape. -/
def World.rowCells (w : World) (slot : SlotType) (v : Value) : List Value :=
  match v with
  | .array r => if slot.isNested then w.cells (w.arrays.get r) else [slot.cell.stored v]
  | v => [slot.cell.stored v]

/-- The longest common beginning of some shapes. -/
def commonShape : List (List Nat) → List Nat
  | [] => []
  | s :: rest => rest.foldl (fun s t => (s.zip t).takeWhile (fun p => p.1 == p.2) |>.map (·.1)) s

namespace World

/-- The shape in which nested sequences lie, at most `depth` deep. Rows of unlike shapes are
left as they are. -/
def looseShape (w : World) : (depth : Nat) → Value → List Nat
  | depth + 1, .array r =>
    let win := w.arrays.get r
    if win.shape.length ≤ depth + 1 then win.shape else []
  | depth + 1, .view r =>
    let win := w.arrays.get (w.views.get r).array
    if win.shape.length ≤ depth + 1 then win.shape else []
  | depth + 1, .list r =>
    let vs := w.lists.get r
    vs.length :: commonShape (vs.map (looseShape w depth))
  | depth + 1, .tuple r =>
    let vs := w.tuples.get r
    vs.length :: commonShape (vs.map (looseShape w depth))
  | _, _ => []

/-- The objects at the end of a shape. -/
def looseCells (w : World) : (shape : List Nat) → Value → List Value
  | _ :: _, .array r => w.cells (w.arrays.get r)
  | _ :: _, .view r => w.cells (w.arrays.get (w.views.get r).array)
  | _ :: shape, .list r => (w.lists.get r).flatMap (looseCells w shape)
  | _ :: shape, .tuple r => (w.tuples.get r).flatMap (looseCells w shape)
  | _, v => [v]

/-- The cells that a converted value gives to a part. A slot for objects takes the cells of
arrays and the items of sequences one by one. -/
def partCells (w : World) (slot : SlotType) (p : Part) (v : Value) : Except HostFault (List Value) :=
  let (shape, cells) :=
    if slot.cell.isObject && !slot.isNested then match v with
      | .array r => ((w.arrays.get r).shape, w.cells (w.arrays.get r))
      | v => (w.looseShape p.depth v, w.looseCells (w.looseShape p.depth v) v)
    else (slot.shape, w.rowCells slot v)
  match Shape.fitted? shape p.shape cells with
  | some cells => .ok cells
  | none => .error .value

end World

namespace View

def hasIndex (r : Ref .view) (i : Value) : Action Value := do
  (← orFail ((← get).bounds i (← look (·.views.get r)).length)).value

/-- The presented content of a slot, and undefined out of bounds. -/
def getIndex (r : Ref .view) (i : Value) : Action Value := do
  let view ← look (·.views.get r)
  if ← orFail ((← get).inBounds i view.length) then
    let win ← look (·.arrays.get view.array)
    Presenter.present view.presenter (← hostSlot win i) view.scope
  else return .undefined

/-- Put a converted value into what an index selects. -/
def put (slot : SlotType) (win : Window) (i v : Value) : Action Unit := do
  let w ← get
  match w.select win i with
  | .slot n => modify fun w => w.setCells (win.row n) (w.rowCells slot v)
  | .part p => do
    let cells ← orFail (w.partCells slot p v)
    if p.chosen then modify fun w => w.setCells p.window cells
  | .invalid => failHost .index

/-- Log a write that is out of bounds. -/
def logRejected (i : Value) (length : Nat) : Action Unit := do
  let w ← get
  if w.threshold ≤ Severity.debug.number then
    logEvent (.writeRejected (← orFail (w.wholeIndex i)) length)

/-- Convert a value and write it to a slot. Out of bounds nothing is converted. -/
def setIndex (r : Ref .view) (i v : Value) : Action Unit := do
  let view ← look (·.views.get r)
  if ← orFail ((← get).inBounds i view.length) then
    let x ← keep (← convert view.truncates view.slot v)
    put view.slot ((← get).arrays.get view.array) i x
  else
    logRejected i view.length
    fail (.outOfBounds (← orFail ((← get).indexText? i)) (view.length - 1))

/-- The indices of a view. -/
def indices (w : World) (r : Ref .view) : List Value :=
  (List.range (w.views.get r).length).map fun (i : Nat) => .int i

/-- The presented contents of the slots from one on, while the earlier ones are held. -/
def elementsFrom (r : Ref .view) (earlier : List Value) : (indices : List Value) →
    Action (List Value)
  | [] => return []
  | i :: rest => do
    let v ← holding earlier (getIndex r i)
    return v :: (← elementsFrom r (v :: earlier) rest)

/-- The presented contents of all slots in order. -/
def elements (r : Ref .view) : Action (List Value) := do
  elementsFrom r [] (← look (indices · r))

end View
end ScriptedArrays
