/-! Log records. Each is an event of one part of the library; its level and text follow
from what happened. -/

namespace ScriptedArrays

inductive Event
  | presented (slot : String) (length : Nat)
  | writeRejected (index : Int) (length : Nat)
  | conversionFailed (value target reason : String)
  | startRejected (function : String) (start : Int) (length : Nat)
  | noArrayInstalled
  | settingsUnreadable
  | unknownLevel (name : String)
  deriving DecidableEq, Repr

inductive Severity
  | debug | warning
  deriving DecidableEq, Repr

def Severity.number : Severity → Nat
  | debug => 10
  | warning => 30

def Severity.name : Severity → String
  | debug => "DEBUG"
  | warning => "WARNING"

namespace Event

def severity : Event → Severity
  | settingsUnreadable | unknownLevel _ => .warning
  | _ => .debug

/-- The log to which the event belongs. -/
def channel : Event → String
  | presented .. | writeRejected .. => "jsbridge.bridge"
  | conversionFailed .. => "jsbridge.coercion"
  | startRejected .. => "jsbridge.search"
  | noArrayInstalled => "jsbridge.resolver"
  | settingsUnreadable | unknownLevel _ => "jsbridge.config"

/-- The text of the event. Where an address or the text of another program's error would
follow, the text is the template without it. -/
def text : Event → String
  | presented slot length => "bridged " ++ slot ++ " of length " ++ toString length
  | writeRejected index length =>
    "write to index " ++ toString index ++ " rejected (length " ++ toString length ++ ")"
  | conversionFailed value target reason =>
    "coercion of " ++ value ++ " to " ++ target ++ " failed: " ++
      (if reason.isEmpty then "incompatible" else reason)
  | startRejected function start length =>
    function ++ ": start offset " ++ toString start ++ " out of range for length " ++ toString length
  | noArrayInstalled => "no Array constructor in top-level scope %#x"
  | settingsUnreadable => "Could not parse bridge configuration (%s); using defaults"
  | unknownLevel name => "Unknown log_level " ++ name ++ "; leaving jsbridge logger unchanged"

end Event
end ScriptedArrays
