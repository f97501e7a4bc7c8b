import ScriptedArrays.Text.Blank
import ScriptedArrays.Text.Case

/-! INI texts. A text is a sequence of sections with options; lines indented deeper than
their option continue its value, and values may refer to other options. Sections and
options must not be repeated, except that the section of defaults may be. -/

namespace ScriptedArrays

abbrev Options := List (String × String)

/-- The options of every section, in the order of their first appearance. -/
structure Ini where
  sections : List (String × Options)
  deriving DecidableEq, Repr

namespace Ini

/-- The section whose options serve all others. -/
def defaultSection : String := "DEFAULT"

/-- A line: nothing, a comment, or a text with its indentation. -/
inductive Line
  | blank
  | comment
  | text (indent : Nat) (s : List Char)
  deriving DecidableEq, Repr

def Line.ofChars (s : List Char) : Line :=
  match strip s with
  | [] => .blank
  | '#' :: _ | ';' :: _ => .comment
  | t => .text (s.takeWhile isBlank).length t

/-- Split at every line feed. -/
def splitLines (s : List Char) : List (List Char) := s.splitOn '\n'

/-- What is read so far. An option keeps the lines of its value. -/
structure Draft where
  sections : List (String × List (String × List (List Char)))
  opened : Option String
  pending : Option String
  indent : Nat

def Draft.empty : Draft := ⟨[], none, none, 0⟩

/-- The name in brackets that a header line starts with; the last bracket closes it. -/
def headerLine? : List Char → Option String
  | '[' :: rest =>
    match (rest.reverse.dropWhile (· != ']')).drop 1 with
    | [] => none
    | name => some (String.ofList name.reverse)
  | _ => none

/-- Name and value of an option line, parted by the first delimiter. -/
def optionLine? (s : List Char) : Option (String × List Char) :=
  let name := s.takeWhile fun c => c != '=' && c != ':'
  match s.dropWhile fun c => c != '=' && c != ':' with
  | [] => none
  | _ :: value =>
    if (strip name).isEmpty then none
    else some (lowerText (stripText (String.ofList name)), strip value)

def updateKey {α : Type} (key : String) (f : α → α) (l : List (String × α)) : List (String × α) :=
  l.map fun p => if p.1 = key then (p.1, f p.2) else p

def Draft.hasSection (d : Draft) (name : String) : Bool := d.sections.any (·.1 == name)

def Draft.hasOption (d : Draft) (sec name : String) : Bool :=
  d.sections.any fun s => s.1 == sec && s.2.any (·.1 == name)

/-- Add a line to the value of the current option. -/
def Draft.continueWith (d : Draft) (sec name : String) (line : List Char) : Draft :=
  { d with sections := updateKey sec (updateKey name (· ++ [line])) d.sections }

def Draft.openSection (d : Draft) (indent : Nat) (name : String) : Option Draft :=
  if d.hasSection name then
    if name = defaultSection then some { d with opened := some name, pending := none, indent }
    else none
  else some ⟨d.sections ++ [(name, [])], some name, none, indent⟩

def Draft.addOption (d : Draft) (indent : Nat) (sec name : String) (value : List Char) :
    Option Draft :=
  if d.hasOption sec name then none
  else some ⟨updateKey sec (· ++ [(name, [value])]) d.sections, some sec, some name, indent⟩

/-- A line that starts a section or an option. -/
def Draft.start (d : Draft) (indent : Nat) (s : List Char) : Option Draft :=
  match headerLine? s with
  | some name => d.openSection indent name
  | none => match d.opened, optionLine? s with
    | some sec, some (name, value) => d.addOption indent sec name value
    | _, _ => none

/-- Read one more line; a line that fits nowhere makes the text unreadable. -/
def Draft.read (d : Draft) : Line → Option Draft
  | .comment => some d
  | .blank => match d.opened, d.pending with
    | some sec, some name => some (d.continueWith sec name [])
    | _, _ => some d
  | .text indent s => match d.opened, d.pending with
    | some sec, some name =>
      if d.indent < indent then some (d.continueWith sec name s) else d.start indent s
    | _, _ => d.start indent s

def Draft.readAll (d : Draft) : List Line → Option Draft
  | [] => some d
  | l :: ls => match d.read l with
    | some d => d.readAll ls
    | none => none

/-- The lines of a value joined, without white space at the end. -/
def joinValue (lines : List (List Char)) : String :=
  String.ofList (((['\n'].intercalate lines).reverse.dropWhile isBlank).reverse)

def Draft.finish (d : Draft) : Ini :=
  ⟨d.sections.map fun s => (s.1, s.2.map fun o => (o.1, joinValue o.2))⟩

def parse? (s : String) : Option Ini :=
  (Draft.empty.readAll ((splitLines s.toList).map .ofChars)).map (·.finish)

def options (ini : Ini) (name : String) : Options :=
  ((ini.sections.find? (·.1 == name)).map (·.2)).getD []

def hasSection (ini : Ini) (name : String) : Bool := ini.sections.any (·.1 == name)

/-- The raw value of an option of a section or else of the defaults. -/
def raw? (ini : Ini) (sec name : String) : Option String :=
  ((ini.options sec ++ ini.options defaultSection).find? (·.1 == name)).map (·.2)

/-- References nest at most this deep. -/
def nesting : Nat := 10

/-- The name of a reference, between `%(` and `)s`, and what follows it. -/
def reference? (s : List Char) : Option (String × List Char) :=
  let name := s.takeWhile (· != ')')
  match s.dropWhile (· != ')') with
  | ')' :: 's' :: rest => if name.isEmpty then none else some (lowerText (String.ofList name), rest)
  | _ => none

/-- Expand a value: `%%` is a percent sign, and a reference stands for the expanded value of
its option. `length` bounds the steps over the text. -/
def expandFrom (lookup : String → Option String) (expand : List Char → Option (List Char)) :
    (length : Nat) → List Char → Option (List Char)
  | 0, s => if s.isEmpty then some [] else none
  | length + 1, s => match s with
    | [] => some []
    | '%' :: '%' :: rest => (expandFrom lookup expand length rest).map ('%' :: ·)
    | '%' :: '(' :: rest => do
      let (name, rest) ← reference? rest
      let value ← lookup name
      let text ← if value.toList.contains '%' then expand value.toList else some value.toList
      return text ++ (← expandFrom lookup expand length rest)
    | '%' :: _ => none
    | c :: rest => (expandFrom lookup expand length rest).map (c :: ·)

def expand (lookup : String → Option String) : (depth : Nat) → List Char → Option (List Char)
  | 0, _ => none
  | depth + 1, s => expandFrom lookup (expand lookup depth) s.length s

/-- What looking up an option gives. -/
inductive Found
  | absent
  | unreadable
  | value (s : String)
  deriving DecidableEq, Repr

def get (ini : Ini) (sec name : String) : Found :=
  match ini.raw? sec name with
  | none => .absent
  | some s => match expand (ini.raw? sec) nesting s.toList with
    | some t => .value (String.ofList t)
    | none => .unreadable

end Ini
end ScriptedArrays
