import ScriptedArrays.Display
import ScriptedArrays.Cell.Joint
import ScriptedArrays.Text.Latin

/-! Values laid out as arrays. Nested sequences become rows, which all have to have the same
shape, and the cells get the joint type of what they hold. -/

namespace ScriptedArrays

/-- One side of a comparison: a window on an array, or any other value. -/
inductive Operand
  | window (win : Window)
  | plain (v : Value)

def World.operand (w : World) : Value → Operand
  | .array r => .window (w.arrays.get r)
  | v => .plain v

/-- The cell type that a single content of a cell carries. Texts are as wide as they are. -/
def CellType.ofItem (t : CellType) (v : Value) : CellType :=
  match t.content, v with
  | .text _, .text s => .native (.text s.length)
  | .bytes _, .bytes b => .native (.bytes b.length)
  | c, _ => .native c

/-- A cell content as the host hands it out. -/
def CellType.itemValue (t : CellType) (v : Value) : Value :=
  if t.isObject then v else .scalar (t.ofItem v) v

/-- A value laid out as an array. A plain number brings no type: it takes the width of what
it is related to. -/
structure Grid where
  type : Option Content
  shape : List Nat
  cells : List Value

/-- The greatest rank of an array. -/
def greatestRank : Nat := 64

/-- Rows of one shape, one below the other. -/
def joinRows : List (List Nat × List Value) → Except HostFault (List Nat × List Value)
  | [] => .ok ([0], [])
  | (shape, cells) :: rest =>
    if rest.all (·.1 == shape) then
      .ok ((rest.length + 1) :: shape, cells ++ rest.flatMap (·.2))
    else .error .value

namespace Content

/-- The type that a value has as a cell of an array of its own kind. -/
def ofValue (v : Value) : Content :=
  match v.content with
  | .bool _ => .bool
  | .int i => ofInt i
  | .number _ => .real .double
  | .complex .. => .complex .double
  | .text s => .text s.length
  | .bytes b => .bytes b.length
  | .scalar t _ => t.content
  | _ => .object

/-- The joint type of some cells; without any it is that of doubles. -/
def ofCells : List Value → Content
  | [] => .real .double
  | v :: vs => vs.foldl (fun c v => c.joint (ofValue v)) (ofValue v)

end Content

/-- The plain text of a number or text in a cell. -/
def cellText (v : Value) : String :=
  match v.content with
  | .scalar t x => Display.numberText t x
  | v => Display.numberText (.native (Content.ofValue v)) v

/-- A value as a cell of a type that takes it. -/
def Content.hold (c : Content) (v : Value) : Except HostFault Value :=
  match c with
  | .object => .ok v
  | .text _ => match v.item with
    | .text s => .ok (.text s)
    | .bytes b =>
      if b.all (·.toNat < 128) then .ok (.text (Latin.decode b)) else .error .decoding
    | _ => .ok (.text (cellText v))
  | .bytes _ => match v.item with
    | .bytes b => .ok (.bytes b)
    | _ => .ok (.bytes ((Latin.encodeAscii? (cellText v)).getD []))
  | _ => .ok v.item

namespace World

/-- The shape of nested sequences and what they hold, in order. -/
def layout (w : World) : (rank : Nat) → Value → Except HostFault (List Nat × List Value)
  | rank, .array r =>
    let win := w.arrays.get r
    if rank < win.shape.length then .error .value
    else .ok (win.shape, (w.cells win).map win.type.itemValue)
  | rank, .view r =>
    let win := w.arrays.get (w.views.get r).array
    if rank < win.shape.length then .error .value else .ok (win.shape, w.cells win)
  | 0, .list _ | 0, .tuple _ => .error .value
  | rank + 1, .list r => do joinRows (← (w.lists.get r).mapM (layout w rank))
  | rank + 1, .tuple r => do joinRows (← (w.tuples.get r).mapM (layout w rank))
  | _, v => .ok ([], [v])

/-- An array as a grid. -/
def windowGrid (w : World) (win : Window) : Grid := ⟨some win.type.content, win.shape, w.cells win⟩

/-- A value as a grid: a plain number brings no type, and nested sequences get the joint
type of their cells. -/
def gridOf (w : World) (v : Value) : Except HostFault Grid :=
  match v.content with
  | .array r => .ok (w.windowGrid (w.arrays.get r))
  | .scalar t x => .ok ⟨some t.content, [], [x]⟩
  | .bool _ | .int _ | .number _ | .complex .. => .ok ⟨none, [], [v.content]⟩
  | _ => do
    let (shape, cells) ← w.layout greatestRank v
    let type := Content.ofCells cells
    return ⟨some type, shape, ← cells.mapM type.hold⟩

def operandGrid (w : World) : Operand → Except HostFault Grid
  | .window win => .ok (w.windowGrid win)
  | .plain v => w.gridOf v

end World
end ScriptedArrays
