import ScriptedArrays.Action

/-! Variable scopes. A scope binds names and has a parent; a lookup goes outwards to the
first scope that binds the name. Parents may form a cycle, which a walk notices when it
comes back to a scope it has visited. -/

namespace ScriptedArrays

/-- The scopes from one outwards, and whether the walk ended because it came back. -/
structure Chain where
  scopes : List (Ref .scope)
  cyclic : Bool
  deriving Repr

namespace World

/-- Walk outwards from `r`. Distinct scopes are at most as many as there are, so a walk
of that length does not run out. -/
def chainFrom (w : World) : (fuel : Nat) → (visited : List (Ref .scope)) → Ref .scope → Chain
  | 0, _, _ => ⟨[], true⟩
  | fuel + 1, visited, r =>
    if r ∈ visited then ⟨[], true⟩
    else match (w.scopes.get r).parent with
      | none => ⟨[r], false⟩
      | some p =>
        let rest := chainFrom w fuel (r :: visited) p
        ⟨r :: rest.scopes, rest.cyclic⟩

def chain (w : World) (r : Ref .scope) : Chain := w.chainFrom (w.scopes.size + 1) [] r

/-- No scope is visited twice. -/
theorem nodup_chainFrom (w : World) (fuel : Nat) (visited : List (Ref .scope)) (r : Ref .scope) :
    (w.chainFrom fuel visited r).scopes.Nodup ∧
      ∀ s ∈ (w.chainFrom fuel visited r).scopes, s ∉ visited := by
  induction fuel generalizing visited r with
  | zero => simp [chainFrom]
  | succ fuel ih =>
    rw [chainFrom]
    split
    · simp
    · rename_i hr
      split
      · simpa using hr
      · rename_i p _
        obtain ⟨hn, hv⟩ := ih (r :: visited) p
        refine ⟨List.nodup_cons.mpr ⟨fun h => hv r h List.mem_cons_self, hn⟩, ?_⟩
        intro s hs
        rcases List.mem_cons.mp hs with rfl | hs
        · exact hr
        · exact fun h => hv s hs (List.mem_cons_of_mem _ h)

theorem nodup_chain (w : World) (r : Ref .scope) : (w.chain r).scopes.Nodup :=
  (w.nodup_chainFrom _ [] r).1

/-- The names that a scope binds, with their values. -/
def bindings (w : World) (r : Ref .scope) : Entries := w.records.get (w.scopes.get r).vars

def binds (w : World) (name : String) (r : Ref .scope) : Bool := (w.bindings r).has name

/-- The first scope outwards that binds the name, if any. -/
def owner (w : World) (r : Ref .scope) (name : String) : Except Fault (Option (Ref .scope)) :=
  match (w.chain r).scopes.find? (w.binds name) with
  | some s => .ok (some s)
  | none => if (w.chain r).cyclic then .error .cyclicScopes else .ok none

/-- The value of a name, if it is bound. -/
def binding? (w : World) (r : Ref .scope) (name : String) : Except Fault (Option Value) := do
  match ← w.owner r name with
  | some s => return (w.bindings s).get? name
  | none => return none

/-- The outermost scope. -/
def topLevel (w : World) (r : Ref .scope) : Except Fault (Ref .scope) :=
  if (w.chain r).cyclic then .error .cyclicScopes else .ok ((w.chain r).scopes.getLastD r)

end World

namespace Scope

/-- Bind a name in this very scope. -/
def assignHere (r : Ref .scope) (name : String) (v : Value) : Action Unit := do
  setEntry (← look (·.scopes.get r)).vars name v

/-- Assign to the scope that binds the name, or else to this one. -/
def assign (r : Ref .scope) (name : String) (v : Value) : Action Unit := do
  let owner ← ask (·.owner r name)
  assignHere (owner.getD r) name v

/-- The value of a name that has to be bound. -/
def read (r : Ref .scope) (name : String) : Action Value := do
  match (← ask (·.binding? r name)).getD .missing with
  | .missing => fail (.unboundName name)
  | v => return v

def setParent (r : Ref .scope) (parent : Option (Ref .scope)) : Action Unit := do
  let s ← look (·.scopes.get r)
  setScope r { s with parent }

end Scope
end ScriptedArrays
