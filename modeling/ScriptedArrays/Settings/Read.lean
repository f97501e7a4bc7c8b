import ScriptedArrays.Settings
import ScriptedArrays.Settings.Ini
import ScriptedArrays.Action
import ScriptedArrays.Text.Quoted

/-! Settings from INI texts. Either every key of the section is readable, and missing keys
take their standard values, or the text is unreadable as a whole and all settings are
standard. -/

namespace ScriptedArrays
namespace Settings

def sectionName : String := "Bridge"

/-- Where settings are read from; a file gives bytes, and a missing one nothing. -/
inductive Source
  | text (s : String)
  | file (content : List UInt8)
  | nothing

/-- A text value, or the standard one if the key is absent. -/
def textOption (standard : String) : Ini.Found → Option String
  | .absent => some standard
  | .unreadable => none
  | .value s => some s

def flag? (s : String) : Option Bool :=
  let word := lowerText s
  if word ∈ ["1", "yes", "true", "on"] then some true
  else if word ∈ ["0", "no", "false", "off"] then some false
  else none

def flagOption (standard : Bool) : Ini.Found → Option Bool
  | .absent => some standard
  | .unreadable => none
  | .value s => flag? s

/-- The names between commas, without the empty ones. -/
def names (s : String) : List String :=
  ((s.toList.splitOn ',').map strip).filterMap fun n =>
    if n.isEmpty then none else some (String.ofList n)

def ofIni? (ini : Ini) : Option Settings := do
  if ini.hasSection sectionName then
    let get := ini.get sectionName
    let exposed ← textOption (",".intercalate standardMembers) (get "exposed_members.csv")
    let level ← textOption standard.logLevel (get "log_level")
    let reuses ← flagOption standard.reusesViews (get "identity_cache")
    let truncates ← flagOption standard.truncatesText (get "truncate_strings")
    return ⟨upperText (stripText level), reuses, truncates, names exposed⟩
  else return standard

def ofText? (s : String) : Option Settings := (Ini.parse? s).bind ofIni?

/-- Line ends of files in any convention. -/
def unifyLineEnds : List Char → List Char
  | '\r' :: '\n' :: rest => '\n' :: unifyLineEnds rest
  | '\r' :: rest => '\n' :: unifyLineEnds rest
  | c :: rest => c :: unifyLineEnds rest
  | [] => []

def ofFile? (content : List UInt8) : Option Settings := do
  let s ← String.fromUTF8? ⟨content.toArray⟩
  ofText? (String.ofList (unifyLineEnds s.toList))

def ofSource? : Source → Option Settings
  | .text s => ofText? s
  | .file content => ofFile? content
  | .nothing => some standard

/-- Read settings; an unreadable source is logged and gives the standard ones. -/
def read (source : Source) : Action Settings := do
  match ofSource? source with
  | some s => return s
  | none => do
    logEvent .settingsUnreadable
    return standard

/-- The numbers of the named log levels. -/
def levelNumbers : List (String × Nat) := [
  ("CRITICAL", 50), ("FATAL", 50), ("ERROR", 40), ("WARN", 30), ("WARNING", 30), ("INFO", 20),
  ("DEBUG", 10), ("NOTSET", 0)]

/-- The level number after setting the log level by name: an unknown name is logged and
leaves the number as it was. -/
def applyLevel (name : String) (before : Nat) : Action Nat := do
  match levelNumbers.find? (·.1 == name) with
  | some (_, n) => return n
  | none => do
    logEvent (.unknownLevel (Quoted.text name))
    return before

end Settings

/-- The severity from which on events are logged at a level; the lowest level leaves the
choice to the standard one. -/
def thresholdOf (level : Nat) : Nat := if level = 0 then 30 else level

def setThreshold (level : Nat) : Action Unit := modify fun w =>
  { w with threshold := thresholdOf level }

end ScriptedArrays
