import ScriptedArrays.Call
import ScriptedArrays.Settings.Read
import ScriptedArrays.Reach

/-! A fresh environment: a scope with the standard names, a presenter of its own settings
and one of the standard settings. -/

namespace ScriptedArrays

structure Environment where
  scope : Ref .scope
  presenter : Ref .presenter
  standard : Ref .presenter

namespace Environment

def create (s : Settings) : Action Environment := do
  let standard ← newPresenter .standard
  let presenter ← newPresenter s
  let scope ← newScope none
  installStandard scope
  return ⟨scope, presenter, standard⟩

/-- The prototype of the script arrays of a scope, through its array constructor. -/
def arrayRecord? (scope : Ref .scope) : Action (Option (Ref .record)) := do
  match ← ask (·.binding? scope "Array") with
  | some (.function f) => do
    match (← look (·.functions.get f)).body with
    | .construct p => return some p
    | _ => return none
  | _ => return none

end Environment
end ScriptedArrays
