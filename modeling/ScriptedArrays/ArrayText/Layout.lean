import ScriptedArrays.ArrayText.Column
import ScriptedArrays.Cell.Shape
import ScriptedArrays.Window

/-! The text of a whole array. Rows are set in brackets and wrapped at the line width;
large arrays show only the first and last few rows of every axis. -/

namespace ScriptedArrays
namespace ArrayText

/-- Lines are at most this long. -/
def lineWidth : Nat := 75

/-- Arrays with more cells than this are summarized. -/
def threshold : Nat := 1000

/-- The rows shown at either end of a summarized axis. -/
def edge : Nat := 3

def spaces (n : Nat) : String := String.ofList (List.replicate n ' ')

/-- Finished lines and the line in progress. -/
structure Canvas where
  above : String
  line : String

def rstrip (s : String) : String := String.ofList ((s.toList.reverse.dropWhile (· == ' ')).reverse)

def Canvas.breakLine (c : Canvas) (line : String) : Canvas := ⟨c.above ++ rstrip c.line ++ "\n", line⟩

/-- Put a word without line breaks; it goes to a new line if it does not fit and the line
holds a word already. -/
def Canvas.putWord (c : Canvas) (width indent : Nat) (word : String) : Canvas :=
  let c := if width < c.line.length + word.length && indent < c.line.length then c.breakLine (spaces indent)
    else c
  { c with line := c.line ++ word }

/-- Put a text of several lines, each below the start of the first. -/
def Canvas.put (c : Canvas) (width indent : Nat) (text : String) : Canvas :=
  match text.splitOn "\n" with
  | [] | [_] => c.putWord width indent text
  | first :: rest =>
    let widest := Column.maximum ((first :: rest).map (·.length))
    let wraps := width < c.line.length + widest && indent < c.line.length
    let margin := if wraps then indent else c.line.length
    let c := if wraps then c.breakLine (spaces indent ++ first) else { c with line := c.line ++ first }
    let c := rest.foldl (fun c word => c.breakLine (spaces margin ++ word)) c
    { c with line := c.line ++ spaces (widest - (rest.getLastD first).length) }

/-- The pieces that a summary shows, with the gap marked. -/
def shown {α : Type} (summary : Bool) (xs : List α) : List (Option α) :=
  if summary && 2 * edge < xs.length then
    (xs.take edge).map some ++ [none] ++ (xs.drop (xs.length - edge)).map some
  else xs.map some

/-- The cells in sight. -/
def inSight (summary : Bool) : (shape : List Nat) → List Value → List Value
  | [], vs => vs
  | n :: shape, vs =>
    ((shown summary (pieces (cellCount shape) n vs)).filterMap id).flatMap (inSight summary shape)

/-- The objects that the text of an array with these cells goes through. -/
def objectsInSight (win : Window) (cells : List Value) : List Value :=
  if win.size = 0 || !win.type.isObject then []
  else inSight (threshold < win.size) win.shape cells

/-- Put the words of a row one after the other. -/
def putAll (separator : String) (width indent : Nat) : List String → Canvas → Canvas
  | [], c => c
  | [word], c => c.put width indent word
  | word :: rest, c =>
    let c := c.put width indent word
    putAll separator width indent rest { c with line := c.line ++ separator }

/-- The rows of an array in brackets. -/
def rows (separator : String) (summary : Bool) (cell : Value → String) :
    (shape : List Nat) → List Value → (indent width : Nat) → String
  | [], vs, _, _ => cell (vs.headD .undefined)
  | [_], vs, indent, width =>
    let words := (shown summary vs).map fun v => match v with
      | some v => cell v
      | none => "..."
    let c := putAll separator (width - 1) indent words ⟨"", spaces indent⟩
    "[" ++ String.ofList ((c.above ++ c.line).toList.drop indent) ++ "]"
  | n :: m :: shape, vs, indent, width =>
    let blocks := (shown summary (pieces (cellCount (m :: shape)) n vs)).map fun v => match v with
      | some v => rows separator summary cell (m :: shape) v (indent + 1) (width - 1)
      | none => "..."
    let gap := rstrip separator ++ String.ofList (List.replicate (shape.length + 1) '\n') ++ spaces indent
    "[" ++ gap.intercalate blocks ++ "]"

def body (separator : String) (indent width : Nat) (win : Window) (object : Value → String)
    (cells : List Value) : String :=
  if win.size = 0 then "[]"
  else
    let summary := threshold < win.size
    let cell := Column.cellText win.type.content win.shape.isEmpty object
      (inSight summary win.shape cells)
    rows separator summary cell win.shape cells indent width

/-- The text of an array with at least one axis. -/
def plain (win : Window) (object : Value → String) (cells : List Value) : String :=
  body " " 1 lineWidth win object cells

/-- Shapes are written like tuples. -/
def shapeText : List Nat → String
  | [n] => "(" ++ toString n ++ ",)"
  | ns => "(" ++ ", ".intercalate (ns.map toString) ++ ")"

/-- The length of the last line. -/
def lastLine (s : String) : Nat := (s.toList.reverse.takeWhile (· != '\n')).length

/-- The text of an array that names shape and type where the cells do not tell them. -/
def described (win : Window) (rows : String) : String :=
  let shape := if (win.size = 0 ∧ win.shape ≠ [0]) ∨ threshold < win.size
    then ["shape=" ++ shapeText win.shape] else []
  let type := if !win.type.isStandard || win.size == 0
    then ["dtype=" ++ win.type.shortName] else []
  match shape ++ type with
  | [] => "array(" ++ rows ++ ")"
  | extras =>
    let front := "array(" ++ rows ++ ","
    let extra := ", ".intercalate extras ++ ")"
    let gap := if lineWidth < lastLine front + extra.length + 1 then "\n      " else " "
    front ++ gap ++ extra

def quoted (win : Window) (object : Value → String) (cells : List Value) : String :=
  described win (body ", " 7 (lineWidth - 1) win object cells)

end ArrayText
end ScriptedArrays
