import ScriptedArrays.BoundMethod
import ScriptedArrays.Sum

/-! Calls. A function does what its body says; methods of script arrays call back. A
callback that is itself such a method gets an index as its receiver one call further
down, and an index has no items, so the nesting of calls is bounded. -/

namespace ScriptedArrays

/-- Store a value in the slot or entry after the current one. -/
def writeAt (array : Value) (i : Int) (v : Value) : Action Unit := do
  match array with
  | .record r => setEntry r (toString i) v
  | .view r => View.setIndex r (.int i) v
  | _ => return ()

def writeLength (array v : Value) : Action Unit := do
  match array with
  | .record r => setEntry r "length" v
  | .view _ => View.assign "length"
  | _ => return ()

namespace Callback

/-- An argument that the callback cannot do without. -/
def needed (args : List Value) (i : Nat) : Action Value :=
  match args[i]? with
  | some v => return v
  | none => failHost .index

def indexOf (args : List Value) : Action Int := do
  match (← needed args 1).item with
  | .int i => return i
  | _ => return 0

def run (c : Callback) (this : Value) (args : List Value) : Action Value := do
  let needed := needed args
  match c with
  | nothing => return .undefined
  | item => return argument args 0
  | index => needed 1
  | array => needed 2
  | count => return .int args.length
  | receiver => return this
  | constant v => return v
  | add k => do addTo (← numberOf (← needed 0)) k
  | isOdd => return .bool (← numberOf (← needed 0)).isOdd
  | failAt k => do
    let i ← needed 1
    if ← orFail ((← get).equal i k) then fail (.thrown "boom") else needed 0
  | writeNext v => do
    writeAt (← needed 2) ((← indexOf args) + 1) v
    needed 0
  | writeLength v => do
    ScriptedArrays.writeLength (← needed 2) v
    needed 0
  | note log => do
    let entry ← newList [this, ← needed 1, ← needed 0]
    modify fun w => { w with lists := w.lists.set log (w.lists.get log ++ [entry]) }
    return .undefined

end Callback

/-- Call a function. -/
def callTo : (depth : Nat) → Ref .function → (this : Value) → List Value → Action Value
  | 0, _, _, _ => failHost .recursion
  | depth + 1, r, this, args => do
    let f ← look (·.functions.get r)
    let invoke (callee this : Value) (args : List Value) : Action Value := do
      match callee.content with
      | .function g => callTo depth g this args
      | .method owner name => BoundMethod.run (callTo depth) owner name args
      | _ => do
        let text ← orFail ((← get).textOf? callee)
        fail (.notCallable text)
    match f.body with
    | .callback c => c.run (f.receiver.getD this) args
    | .construct prototype => constructArray prototype args
    | .arrayMethod m prototype => m.run invoke prototype this args
    | .search kind array test => Search.call kind array test args
    | .hostMethod owner name presenter scope => do
      let w ← get
      let answer ← BoundMethod.run (callTo depth) owner name (args.map w.hostValue)
      Presenter.present presenter answer scope

/-- Calls nest at most this deep. -/
def callNesting : Nat := 64

def call (f : Ref .function) (this : Value) (args : List Value) : Action Value :=
  callTo callNesting f this args

/-- Call a value with arguments only. -/
def invoke (v : Value) (args : List Value) : Action Value :=
  match v.content with
  | .function r => call r .null args
  | .method owner name => BoundMethod.run call owner name args
  | _ => failHost .type

/-- Call a value with a receiver and arguments; only functions with members take a receiver. -/
def callWith (v this : Value) (args : List Value) : Action Value := do
  match v with
  | .function r => do
    if (← look (·.functions.get r)).isBare then failHost .attribute else call r this args
  | _ => failHost .attribute

/-- Read a property and call it on the object. -/
def callMethod (v : Value) (name : String) (args : List Value) : Action Value := do
  callWith (← Property.read v name) v args

end ScriptedArrays
