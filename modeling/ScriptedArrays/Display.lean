import ScriptedArrays.ArrayText.Layout
import ScriptedArrays.Cells

/-! Texts of values. The quoted text shows what kind of value it is; the plain text is
that of a text or number itself. An object met again inside its own text is written as
dots, which bounds the nesting: a box is written out each time, but a box met again holds what
is met again, and no box holds itself. Integers with too many digits are not written, and a value
whose text would show one has no text. -/

namespace ScriptedArrays

/-- The code of a cell type within its description. -/
def CellType.code (t : CellType) : String :=
  match t.content with
  | .bytes n => "S" ++ toString n
  | .raw n => "V" ++ toString n
  | .object => "O"
  | .date u => (if t.bigEndian then ">" else "<") ++ "M8[" ++ u ++ "]"
  | .duration u => (if t.bigEndian then ">" else "<") ++ "m8[" ++ u ++ "]"
  | _ => t.name

namespace Display

def boolText (b : Bool) : String := if b then "True" else "False"

/-- A duration by its whole days and the remaining seconds. -/
def durationParts (seconds : Int) : String :=
  let days := seconds.fdiv 86400
  let rest := seconds.fmod 86400
  let parts := (if days = 0 then [] else ["days=" ++ toString days]) ++
    (if rest = 0 then [] else ["seconds=" ++ toString rest])
  "datetime.timedelta(" ++ (if parts.isEmpty then "0" else ", ".intercalate parts) ++ ")"

def dateParts (days : Int) : String :=
  let (y, m, d) := Column.civil days
  "datetime.date(" ++ toString y ++ ", " ++ toString m ++ ", " ++ toString d ++ ")"

/-- The number text of a cell content in the width of its type. -/
def numberText (t : CellType) : Value → String
  | .int i => toString i
  | .number x => match t.content with
    | .real p => NumberText.render NumberText.valueLayout p.format x
    | _ => NumberText.ofDouble x
  | .complex re im => match t.content with
    | .complex p => NumberText.ofComplex p.format re im
    | _ => NumberText.ofComplex .double re im
  | .bool b => boolText b
  | .text s => s
  | .bytes b => Quoted.bytes b
  | .date d => Column.dateText d
  | .duration s => Column.durationText s
  | _ => ""

def withoutParentheses (s : String) : String :=
  match s.toList with
  | '(' :: rest => if rest.getLast? = some ')' then String.ofList rest.dropLast else s
  | _ => s

/-- A typed cell content, named by its family. -/
def scalarText (t : CellType) (v : Value) : String :=
  match v with
  | .bool b => "np." ++ boolText b ++ "_"
  | .text s => "np.str_(" ++ Quoted.text s ++ ")"
  | .bytes b => match t.content with
    | .raw _ => "np.void(" ++ Column.rawText b ++ ")"
    | _ => "np.bytes_(" ++ Quoted.bytes b ++ ")"
  | .date d => "np.datetime64('" ++ Column.dateText d ++ "')"
  | .duration s => match t.content with
    | .duration u => "np.timedelta64(" ++ toString s ++ ",'" ++ u ++ "')"
    | _ => ""
  | v => "np." ++ t.content.family ++ "(" ++ withoutParentheses (numberText t v) ++ ")"

/-- The quoted text of values without parts. -/
def simple? (v : Value) : Option String :=
  match v.content with
  | .undefined => some "undefined"
  | .missing => some "NOT_FOUND"
  | .null => some "None"
  | .bool b => some (boolText b)
  | .int i => some (toString i)
  | .number x => some (NumberText.ofDouble x)
  | .complex re im => some (NumberText.ofComplex .double re im)
  | .text s => some (Quoted.text s)
  | .bytes b => some (Quoted.bytes b)
  | .scalar t v => some (scalarText t v)
  | .date d => some (dateParts d)
  | .duration s => some (durationParts s)
  | .symbol s => some ("Symbol(" ++ s.name ++ ")")
  | .cellType t => some ("dtype('" ++ t.code ++ "')")
  | .slotType t => some ("ElementType(" ++ t.name ++ ")")
  | .scope _ => some "<Scope>"
  | .method _ name => some ("<built-in method " ++ name ++ ">")
  | _ => none

/-- A value without parts is written, unless it is an integer with too many digits. -/
def isWritten (v : Value) : Bool :=
  match v.content with
  | .int i => decide ((Nat.toDigits 10 i.natAbs).length ≤ digitLimit)
  | _ => true

/-- What is made of a text, if the text is written. -/
def written {α : Type} (holds : Bool) (a : α) : Except HostFault α :=
  if holds then .ok a else .error .value

def functionText (f : Function) : String :=
  if f.isBare then "<function>"
  else match f.name with
    | some name => "<NativeFunction " ++ (if name.isEmpty then "<anon>" else name) ++ ">"
    | none => "<NativeFunction <anon>>"

def viewText (v : View) : String :=
  "<HostArray " ++ v.slot.name ++ "[" ++ toString v.length ++ "]>"

end Display

namespace World

/-- The quoted text of a value that was reached through the objects of `path`. -/
def quoteFrom (w : World) : (fuel : Nat) → (path : List Value) → Value → String
  | 0, _, _ => "..."
  | fuel + 1, path, v =>
    let part := quoteFrom w fuel (v :: path)
    let again := path.contains v
    match v with
    | .list r =>
      if again then "[...]" else "[" ++ ", ".intercalate ((w.lists.get r).map part) ++ "]"
    | .tuple r =>
      if again then "(...)" else match w.tuples.get r with
        | [x] => "(" ++ part x ++ ",)"
        | vs => "(" ++ ", ".intercalate (vs.map part) ++ ")"
    | .record r =>
      if again then "\x7b...\x7d"
      else
        let entries := (w.records.get r).map fun e => Quoted.text e.1 ++ ": " ++ part e.2
        "\x7b" ++ ", ".intercalate entries ++ "\x7d"
    | .array r =>
      let win := w.arrays.get r
      if again then ArrayText.described win "..."
      else
        let element : Value → String := fun x => match x with
          | .list _ => "list(" ++ part x ++ ")"
          | x => part x
        ArrayText.quoted win element (w.cells win)
    | .function r => Display.functionText (w.functions.get r)
    | .view r => Display.viewText (w.views.get r)
    | .box r => "<HostObject " ++ part (w.boxes.get r).value ++ ">"
    | v => (Display.simple? v).getD ""

/-- Texts are nested at most this deep: every object may be met once, and a chain of boxes twice. -/
def depth (w : World) : Nat := w.size + w.boxes.size + 2

/-- The quoted text of a value. -/
def quote (w : World) (v : Value) : String := w.quoteFrom w.depth [] v

/-- The text of an array's rows; an object in a cell is quoted. -/
def rowsText (w : World) (r : Ref .array) : String :=
  let quote := w.quoteFrom w.depth [.array r]
  let element : Value → String := fun x => match x with
    | .list _ => "list(" ++ quote x ++ ")"
    | x => quote x
  ArrayText.plain (w.arrays.get r) element (w.cells (w.arrays.get r))

/-- The plain text of a value. An array without axes shows as its only cell. -/
def displayFrom (w : World) : (fuel : Nat) → Value → String
  | 0, _ => "..."
  | fuel + 1, v => match v.content with
    | .text s => s
    | .scalar t x => Display.numberText t x
    | .date d => Column.dateText d
    | .duration s => Column.durationText s
    | .cellType t => t.name
    | .array r =>
      let win := w.arrays.get r
      if win.shape.isEmpty then match win.type.content with
        | .object => displayFrom w fuel (w.cell win 0)
        | _ => Display.numberText win.type (w.cell win 0)
      else w.rowsText r
    | v => w.quote v

/-- The plain text of a value. -/
def display (w : World) (v : Value) : String := w.displayFrom (w.size + 2) v

/-- Nothing in the quoted text of a value that was reached through the objects of `path` has too
many digits. -/
def quotableFrom (w : World) : (fuel : Nat) → (path : List Value) → Value → Bool
  | 0, _, _ => true
  | fuel + 1, path, v =>
    let part := quotableFrom w fuel (v :: path)
    let again := path.contains v
    match v with
    | .list r => again || (w.lists.get r).all part
    | .tuple r => again || (w.tuples.get r).all part
    | .record r => again || (w.records.get r).all fun e => part e.2
    | .array r =>
      again || (ArrayText.objectsInSight (w.arrays.get r) (w.cells (w.arrays.get r))).all part
    | .box r => part (w.boxes.get r).value
    | v => Display.isWritten v

def quotable (w : World) (v : Value) : Bool := w.quotableFrom w.depth [] v

/-- Nothing in the plain text of a value has too many digits. -/
def displayableFrom (w : World) : (fuel : Nat) → Value → Bool
  | 0, _ => true
  | fuel + 1, v => match v.content with
    | .array r =>
      let win := w.arrays.get r
      if win.shape.isEmpty then !win.type.isObject || displayableFrom w fuel (w.cell win 0)
      else (ArrayText.objectsInSight win (w.cells win)).all (w.quotableFrom w.depth [.array r])
    | v => w.quotable v

def displayable (w : World) (v : Value) : Bool := w.displayableFrom (w.size + 2) v

/-- The plain text of a value, if it is written. -/
def display? (w : World) (v : Value) : Except HostFault String :=
  Display.written (w.displayable v) (w.display v)

end World
end ScriptedArrays
