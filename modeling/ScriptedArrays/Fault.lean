/-! Faults: what ends an operation without a value. Script faults carry a message for
the script; host faults come from the host's own operations and have only a class. -/

namespace ScriptedArrays

/-- Faults of the host's own operations. -/
inductive HostFault
  /-- A number too large for a double. -/
  | overflow
  /-- A number that is no index of a sequence. -/
  | index
  | key
  | type
  | value
  /-- An operation that cells of these types do not have. -/
  | unsupported
  | attribute
  /-- A byte outside ASCII in a text cast. -/
  | decoding
  | encoding
  /-- Lookups nested without end. -/
  | recursion
  deriving DecidableEq, Repr

inductive Fault
  | thrown (text : String)
  | arrayExpected
  | noSuchMember (type name : String)
  | unsupportedMember (name : String)
  | outOfBounds (index : String) (last : Int)
  | cannotConvert (value target reason : String)
  | missingArgument (function : String)
  | badArrayLength
  | notCallable (text : String)
  | cyclicScopes
  | unboundName (name : String)
  | host (fault : HostFault)
  deriving DecidableEq, Repr

namespace Fault

/-- The message shown to scripts. -/
def message : Fault → String
  | thrown text => text
  | arrayExpected => "Array expected"
  | noSuchMember type name =>
    "Host type \"" ++ type ++ "\" has no public instance field or method named \"" ++ name ++ "\"."
  | unsupportedMember name =>
    "Host arrays have no public instance fields or methods named \"" ++ name ++ "\"."
  | outOfBounds index last =>
    "Array index " ++ index ++ " is out of bounds [0.." ++ toString last ++ "]."
  | cannotConvert value target reason =>
    "Cannot convert " ++ value ++ " to " ++ target ++
      (if reason.isEmpty then "" else " (" ++ reason ++ ")")
  | missingArgument function => function ++ ": missing required search value argument"
  | badArrayLength => "Invalid array length"
  | notCallable text => text ++ " is not a function"
  | cyclicScopes => "Scope parent chain contains a cycle"
  | unboundName name => name
  | host _ => ""

/-- The fault is one that scripts can catch. -/
def isScriptFault : Fault → Bool
  | cyclicScopes | unboundName _ | notCallable _ | host _ => false
  | _ => true

end Fault
end ScriptedArrays
