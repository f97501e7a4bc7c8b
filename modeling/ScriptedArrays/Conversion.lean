import ScriptedArrays.Equality
import ScriptedArrays.Primitive

/-! Conversion of script values to the contents of a slot. Converting reads the world and
does not change it: the outcome is the cells for the slot in row-major order, or the one
refusal that names the innermost value that did not fit. -/

namespace ScriptedArrays

/-- Why a value was not converted: it does not fit, or the host could not compute it. -/
inductive Refusal
  | unfit (given : Operand) (target reason : String)
  | host (fault : HostFault)

/-- The slots of a window along its first axis. -/
def World.operands (w : World) (win : Window) : List Operand :=
  (List.range win.length).map fun i =>
    if win.rowShape.isEmpty then .plain (win.type.itemValue (w.cell win i)) else .window (win.row i)

/-- An operand with an array in a cell taken as the window on it. -/
def World.resolve (w : World) : Operand → Operand
  | .plain v => w.operand v
  | .window win => .window win

/-- A window by the text of its array. -/
def World.quoteWindow (w : World) (win : Window) : String :=
  ArrayText.quoted win w.quote (w.cells win)

def World.quoteOperand (w : World) : Operand → String
  | .plain v => w.quote v
  | .window win => w.quoteWindow win

def World.quotableOperand (w : World) : Operand → Bool
  | .plain v => w.quotable v
  | .window win => (ArrayText.objectsInSight win (w.cells win)).all w.quotable

/-- The text of an operand, if it is written. -/
def World.quoteOperand? (w : World) (given : Operand) : Except HostFault String :=
  Display.written (w.quotableOperand given) (w.quoteOperand given)

/-- What is to be converted: the host value behind a script value. -/
def World.contentOf (w : World) : Operand → Operand
  | .plain v => w.operand (w.hostValue v).item
  | .window win => .window win

namespace Conversion

def refuse {α : Type} (given : Value) (cell : CellType) (reason : String) : Except Refusal α :=
  .error (.unfit (.plain given) cell.name reason)

def refuseRow {α : Type} (given : Operand) (slot : SlotType) (reason : String) :
    Except Refusal α :=
  .error (.unfit given slot.name reason)

/-- A host fault as a refusal. -/
def lift {α : Type} : Except HostFault α → Except Refusal α
  | .ok a => .ok a
  | .error f => .error (.host f)

/-- The integer that a value stands for, before the range is considered. -/
def wholeNumber (w : World) (given content : Value) (cell : CellType) : Except Refusal Int :=
  match content with
  | .bool b => .ok (if b then 1 else 0)
  | .int i => .ok i
  | .number _ | .text _ => do
    let x ← lift (w.numberOf content)
    match x.truncate? with
    | some n => .ok n
    | none => refuse given cell "not a finite number"
  | _ => refuse given cell ""

/-- An integer cell takes whole parts of numbers within its range. -/
def toInteger (w : World) (given content : Value) (cell : CellType) (signed : Bool)
    (bytes : Nat) : Except Refusal Value := do
  let n ← wholeNumber w given content cell
  let least := Content.least signed bytes
  let greatest := Content.greatest signed bytes
  if least ≤ n ∧ n ≤ greatest then .ok (.scalar (.native cell.content) (.int n))
  else refuse given cell ("out of range [" ++ toString least ++ ".." ++ toString greatest ++ "]")

/-- A floating point cell takes every number and numeral, rounded to its width. -/
def toReal (w : World) (given content : Value) (cell : CellType) (p : Precision) :
    Except Refusal Value :=
  match content with
  | .bool _ | .int _ | .number _ | .text _ => do
    let x ← lift (w.numberOf content)
    .ok (.scalar (.native cell.content) (.number (x.narrow p.format)))
  | _ => refuse given cell ""

def toComplex (given content : Value) (cell : CellType) (p : Precision) :
    Except Refusal Value :=
  let build (re im : Double) : Value :=
    .scalar (.native cell.content) (.complex (re.narrow p.format) (im.narrow p.format))
  match content with
  | .int i => do .ok (build (← lift (Double.ofInt? i)) .zero)
  | .number x => .ok (build x .zero)
  | .complex re im => .ok (build re im)
  | _ => refuse given cell "not a number"

/-- The text of a value for a text cell; null and undefined have none. -/
def cellText (w : World) (given content : Value) (cell : CellType) : Except Refusal String :=
  match content with
  | .null | .undefined => refuse given cell "fixed-width text slots cannot hold null"
  | .bytes b => .ok (Latin.decode b)
  | v => lift (w.textOf? v)

/-- Cut a text to the capacity of a cell if that is allowed. -/
def fitText (truncates : Bool) (given : Value) (cell : CellType) (capacity : Nat)
    (s : String) : Except Refusal String :=
  if s.length ≤ capacity then .ok s
  else if truncates then .ok (String.ofList (s.toList.take capacity))
  else refuse given cell ("longer than " ++ toString capacity ++ " characters")

/-- Convert a value to the content of a single cell. -/
def toCell (w : World) (truncates : Bool) (cell : CellType) (given : Value) :
    Except Refusal Value :=
  let content := (w.hostValue given).item
  match cell.content with
  | .bool => .ok (.bool content.truth)
  | .int signed bytes => toInteger w given content cell signed bytes
  | .real p => toReal w given content cell p
  | .complex p => toComplex given content cell p
  | .text capacity => do
    let s ← fitText truncates given cell capacity (← cellText w given content cell)
    .ok (.text s)
  | .bytes capacity => do
    let s ← fitText truncates given cell capacity (← cellText w given content cell)
    match Latin.encode? s with
    | some b => .ok (.bytes b)
    | none => refuse given cell "not representable as latin-1"
  | .object => .ok (if content = .undefined then .null else (w.hostValue given).opened)
  | c => refuse given cell ("unsupported element kind '" ++ String.singleton c.kind ++ "'")

/-- A quantity as a number of a floating point width. -/
def castReal (p : Precision) (v : Value) : Value :=
  match v.quantity? with
  | some q => .number (q.narrow p.format).1
  | none => v

/-- Cast the content of a cell to a type that takes every value of its own. -/
def castCell (t : CellType) (target : Content) (v : Value) : Except HostFault Value :=
  match target, v with
  | .object, v => .ok v
  | .int _ _, .bool b => .ok (.int (if b then 1 else 0))
  | .real p, v => .ok (castReal p v)
  | .complex p, v => match v.quantity? with
    | some q => .ok (.complex (q.narrow p.format).1 (q.narrow p.format).2)
    | none => .ok v
  | .text _, .text s => .ok (.text s)
  | .text _, .bytes b =>
    if b.all (·.toNat < 128) then .ok (.text (Latin.decode b)) else .error .decoding
  | .text _, v => .ok (.text (Display.numberText t v))
  | .bytes _, .bytes b => .ok (.bytes b)
  | .bytes _, v => match Latin.encodeAscii? (Display.numberText t v) with
    | some b => .ok (.bytes b)
    | none => .error .encoding
  | _, v => .ok v

/-- The items of a script array, by its length and its numbered entries. Missing ones are
undefined. -/
def numberedItems (e : Entries) (length : Nat) : List Operand :=
  (List.range length).map fun i => .plain (e.getD (toString i) .undefined)

/-- Convert every operand and join the cells. -/
def each (convert : Operand → Except Refusal (List Value)) : List Operand →
    Except Refusal (List Value)
  | [] => .ok []
  | x :: xs => do
    let cells ← convert x
    .ok (cells ++ (← each convert xs))

/-- What a cell of a new array holds. One without a capacity has room for one character. -/
def placed (cell : CellType) (v : Value) : Value :=
  match cell.content, v with
  | .text 0, .text s => .text (String.ofList (s.toList.take 1))
  | .bytes 0, .bytes b => .bytes (b.take 1)
  | _, v => v

/-- Convert a value to the cells of a slot whose rows have the given shape. -/
def toCells (w : World) (truncates : Bool) (cell : CellType) :
    (shape : List Nat) → Operand → Except Refusal (List Value)
  | [], .plain v => do .ok [cell.stored (← toCell w truncates cell v)]
  | [], .window win => refuseRow (.window win) ⟨cell, []⟩ ""
  | n :: shape, given =>
    let slot : SlotType := ⟨cell, n :: shape⟩
    let refuse (reason : String) : Except Refusal (List Value) := refuseRow given slot reason
    let rows (items : List Operand) : Except Refusal (List Value) :=
      if items.length = n then do .ok ((← each (toCells w truncates cell shape) items).map (placed cell))
      else refuse ("length " ++ toString items.length ++ " != " ++ toString n)
    match w.contentOf given with
    | .window win =>
      if win.shape ≠ slot.shape then
        refuse ("shape " ++ ArrayText.shapeText win.shape ++ " != " ++ ArrayText.shapeText slot.shape)
      else if !win.type.content.castsWithinKind cell.content then
        refuse ("dtype " ++ win.type.name ++ " not castable")
      else if win.type.content.castsSafely cell.content then
        lift ((w.cells win).mapM (castCell win.type cell.content))
      else rows (w.operands win)
    | .plain (.list r) => rows ((w.lists.get r).map .plain)
    | .plain (.tuple r) => rows ((w.tuples.get r).map .plain)
    | .plain (.record r) =>
      let e := w.records.get r
      match e.get? "length" with
      | none => refuse "array expected"
      | some v => do
        let x ← lift (w.numberOf v)
        match x.truncate? with
        | none => refuse "array expected"
        | some k =>
          if x.less .zero then refuse "array expected"
          else if k.toNat = n then rows (numberedItems e n)
          else refuse ("length " ++ toString k.toNat ++ " != " ++ toString n)
    | _ => refuse "array expected"

end Conversion

/-- End an action with a refusal. What did not fit is logged once, if its text is written. -/
def refuseWith {α : Type} : Refusal → Action α
  | .host f => failHost f
  | .unfit given target reason => do
    let value ← orFail ((← get).quoteOperand? given)
    logEvent (.conversionFailed value target reason)
    fail (.cannotConvert value target reason)

/-- The cell type of a converted row. Texts without a capacity are as wide as the cells of
an array that is cast. -/
def World.rowType (w : World) (slot : SlotType) (v : Value) : CellType :=
  match (w.hostValue v).item, slot.cell.content with
  | .array r, .text 0 => match (w.arrays.get r).type.content.textWidth? with
    | some n => { slot.cell with content := .text n }
    | none => slot.cell.allocated
  | .array r, .bytes 0 => match (w.arrays.get r).type.content.textWidth? with
    | some n => { slot.cell with content := .bytes n }
    | none => slot.cell.allocated
  | _, _ => slot.cell.allocated

/-- The array behind a value, if it can be taken over as a row as it is. -/
def World.reusable? (w : World) (type : CellType) (shape : List Nat) (v : Value) :
    Option (Ref .array) :=
  match (w.hostValue v).item with
  | .array r =>
    let win := w.arrays.get r
    if win.type == type && win.shape == shape then some r else none
  | _ => none

/-- A text that was taken as it is stays the object that it was. -/
def World.sameText (w : World) (given converted : Value) : Value :=
  let host := w.hostValue given
  match converted, host.content with
  | .text _, .scalar .. | .text _, .bytes _ => converted
  | .text _, _ =>
    let text := w.textValue host
    if text.content = converted then text else converted
  | _, _ => converted

/-- Convert a value for a slot: a single content, or an array of the slot's shape. -/
def convert (truncates : Bool) (slot : SlotType) (v : Value) : Action Value := do
  let w ← get
  if slot.isNested then
    match Conversion.toCells w truncates slot.cell slot.shape (.plain v) with
    | .error r => refuseWith r
    | .ok cells =>
      let type := w.rowType slot v
      match w.reusable? type slot.shape v with
      | some r => return .array r
      | none => return .array (← newArray type slot.shape cells)
  else match Conversion.toCell w truncates slot.cell v with
    | .error r => refuseWith r
    | .ok x => return if slot.cell.isObject then x else w.sameText v x

end ScriptedArrays
