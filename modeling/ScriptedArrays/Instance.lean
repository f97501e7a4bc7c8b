import ScriptedArrays.Property

/-! Instances of slot types: values that a slot holds as they are. A view checks candidates
against the type of its slots. -/

namespace ScriptedArrays

/-- A typed content of the family of a cell type. -/
def CellType.isFamilyOf (t : CellType) (v : Value) : Bool :=
  match v.content with
  | .scalar u _ => u.content.family == t.content.family
  | _ => false

def World.isInstance (w : World) (slot : SlotType) (v : Value) : Bool :=
  if slot.isNested then match v with
    | .array r => (w.arrays.get r).shape == slot.shape && (w.arrays.get r).type == slot.cell
    | _ => false
  else match slot.cell.content, v.content with
    | .object, v => v != .null
    | .text _, .text _ => true
    | .bytes _, .bytes _ => true
    | .bool, .bool _ => true
    | _, v => slot.cell.isFamilyOf v

/-- A view accepts wrapped values whose host value is an instance of its slot type. -/
def View.accepts (w : World) (r : Ref .view) (candidate : Value) : Bool :=
  candidate.isWrapper && w.isInstance (w.views.get r).slot (w.hostValue candidate)

/-- What a view converts to for a hint: text, a truth value, no number, or itself. -/
def View.primitive (w : World) (r : Ref .view) (hint : Option String) : Value :=
  match hint with
  | none | some "string" => .text (w.display (.array (w.views.get r).array))
  | some "boolean" => .bool true
  | some "number" => (Value.number .nan).literal
  | _ => .view r

/-- A view converts to text only if its text is written. -/
def View.primitive? (w : World) (r : Ref .view) (hint : Option String) : Except HostFault Value :=
  match hint with
  | none | some "string" =>
    Display.written (w.displayable (.array (w.views.get r).array)) (View.primitive w r hint)
  | _ => .ok (View.primitive w r hint)

def Box.primitive (w : World) (r : Ref .box) (hint : Option String) : Except HostFault Value :=
  let v := (w.boxes.get r).value
  match hint with
  | none | some "string" => Display.written (w.displayable v) (w.displayValue v)
  | some "boolean" => .ok (.bool true)
  | some "number" => w.numberValue (.box r)
  | _ => .ok (.box r)

/-- The only protocol key that views have. -/
def View.symbol (key : Value) : Value :=
  if key = .symbol .isConcatSpreadable then .bool true else .missing

end ScriptedArrays
