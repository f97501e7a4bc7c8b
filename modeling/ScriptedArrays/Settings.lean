/-! Settings of the presentation of host values to scripts. -/

namespace ScriptedArrays

structure Settings where
  /-- The name of the log level. -/
  logLevel : String
  /-- An array that is presented again gets the view it has, as long as that is in use. -/
  reusesViews : Bool
  /-- Texts too long for their slot are cut instead of rejected. -/
  truncatesText : Bool
  /-- Members of host values that scripts may reach. -/
  exposed : List String
  deriving DecidableEq, Repr

namespace Settings

def standardMembers : List String :=
  ["dtype", "shape", "ndim", "size", "itemsize", "nbytes", "tolist", "copy"]

def standard : Settings := ⟨"WARNING", false, false, standardMembers⟩

instance : Inhabited Settings := ⟨standard⟩

end Settings
end ScriptedArrays
