import ScriptedArrays.HostMember
import ScriptedArrays.Scope

/-! Named properties. A lookup asks the object itself and then its prototypes: a record
follows its `__proto__` entries, and a view the prototype of the arrays of its outermost
scope, which it looks up once. -/

namespace ScriptedArrays

def protoKey : String := "__proto__"

/-- Where a walk along the records of a prototype chain ends: at a definition, nowhere, or
at an object that is no record. -/
inductive Trail
  | found (v : Value)
  | nowhere
  | beyond (v : Value)
  deriving DecidableEq

namespace World

/-- Follow the prototype entries from a record to the first one that has the key. A walk
that comes back to a record ends nowhere. -/
def walkFrom (w : World) (key : String) :
    (fuel : Nat) → (visited : List (Ref .record)) → Value → Trail
  | 0, _, _ => .nowhere
  | fuel + 1, visited, v => match v with
    | .null => .nowhere
    | .record r =>
      if r ∈ visited then .nowhere
      else match (w.records.get r).get? key with
        | some x => .found x
        | none => walkFrom w key fuel (r :: visited) ((w.records.get r).getD protoKey .null)
    | v => .beyond v

def walk (w : World) (key : String) (v : Value) : Trail :=
  w.walkFrom key (w.records.size + 2) [] v

/-- A box or view has the member itself: it is exposed, does not start with an underscore,
and the host value has it. -/
def exposes (w : World) (exposed : List String) (value : Value) (name : String) : Bool :=
  exposed.contains name && !name.startsWith "_" && (w.member? value name).isSome

/-- The prototype that an array constructor provides. -/
def prototypeOf (w : World) (constructor : Value) : Value :=
  match constructor with
  | .record r => (w.records.get r).getD "prototype" .null
  | v => match w.member? v "prototype" with
    | some (.value p) => p
    | _ => .null

/-- The constructor of arrays in the outermost scope, or null. -/
def constructor? (w : World) (s : Ref .scope) : Except Fault Value := do
  let top ← w.topLevel s
  return (← w.binding? top "Array").getD .null

/-- The prototype of the arrays installed in the outermost scope, or null. -/
def prototypeAt (w : World) (s : Ref .scope) : Except Fault Value := do
  match ← w.constructor? s with
  | .null => .ok .null
  | c => .ok (w.prototypeOf c)

end World

/-- The members that every view has. -/
def viewMembers : List String := ["length", "indexOf", "includes"]

/-- Look up the prototype of the arrays installed in the outermost scope, or null. -/
def arrayPrototype (scope : Ref .scope) : Action Value := do
  let top ← ask (·.topLevel scope)
  match (← ask (·.binding? top "Array")).getD .null with
  | .null => do
    logEvent .noArrayInstalled
    return .null
  | constructor => look (·.prototypeOf constructor)

namespace View

def noteRequest (r : Ref .view) (answer : World → Option Value) : Action Unit := modify fun w =>
  { w with requests := w.requests ++ [⟨r, answer w⟩] }

/-- The prototype of a view. Once it has been looked up it stays. -/
def findPrototype (r : Ref .view) : Action Value := do
  let view ← look (·.views.get r)
  match view.prototype with
  | some p => return p
  | none => do
    let p ← match view.scope with
      | .scope s => do
        noteRequest r fun w => (w.prototypeAt s).toOption
        arrayPrototype s
      | .null => pure .null
      | _ => do
        noteRequest r fun _ => none
        failHost .attribute
    let now ← look (·.views.get r)
    setView r { now with prototype := some p }
    return p

def hasOwn (w : World) (r : Ref .view) (name : String) : Bool :=
  let view := w.views.get r
  name ∈ viewMembers || w.exposes view.exposed (.array view.array) name

end View

namespace Box

def hasOwn (w : World) (r : Ref .box) (name : String) : Bool :=
  let box := w.boxes.get r
  w.exposes box.exposed box.value name

end Box

/-- An exposed member as scripts see it: a method becomes a function that calls it with
host values and presents its result. -/
def presentMember (owner : Value) (name : String) (presenter : Ref .presenter) (scope : Value) :
    Action Value := do
  match (← get).member? owner name with
  | none => return .missing
  | some .method => return .function (← newFunction (some name)
      (.hostMethod owner name presenter scope) none)
  | some m => Presenter.present presenter (← memberValue owner name m) scope

def Box.own (r : Ref .box) (name : String) : Action Value := do
  let w ← get
  let box := w.boxes.get r
  if Box.hasOwn w r name then presentMember box.value name box.presenter box.scope
  else return .missing

/-- A new search function bound to an array. -/
def newSearch (kind : SearchKind) (array : Ref .array) (test : SlotTest) : Action Value := do
  let name := match kind with
    | .bare => "search"
    | .indexOf => "indexOf"
    | .includes => "includes"
  return .function (← newFunction (some name) (.search kind array test) none)

/-- The own member of a view. A name that neither the view nor its prototypes have, by the
given test, is an error. -/
def View.ownBy (has : Value → String → Action Bool) (r : Ref .view) (name : String) :
    Action Value := do
  let w ← get
  let view := w.views.get r
  match name with
  | "length" => return (Value.int view.length).heldBy (.view r) name
  | "indexOf" => newSearch .indexOf view.array .equal
  | "includes" => newSearch .includes view.array .equal
  | name =>
    if View.hasOwn w r name then
      presentMember (.array view.array) name view.presenter view.scope
    else if ← has (← View.findPrototype r) name then return .missing
    else fail (.noSuchMember (w.typeName (.array view.array)) name)

namespace Property

/-- Objects that ask each other more often than this without an answer ask forever: no view
is asked twice on the way to an answer, and no record asks a record. A view that was handed out
more than once may count as often. -/
def nesting (w : World) : Nat := 2 * max w.views.size w.handed.length + 2

def orUndefined : Value → Value
  | .missing => .undefined
  | v => v

mutual

/-- The value of a property, or undefined. -/
def readTo : (depth : Nat) → Value → String → Action Value
  | 0, _, _ => failHost .recursion
  | depth + 1, v, name => do
    let along (v : Value) : Action Value := do
      match (← get).walk name v with
      | .found x => return orUndefined x
      | .nowhere => return .undefined
      | .beyond x => readTo depth x name
    match v with
    | .record _ => along v
    | .view r => do
      match ← View.ownBy (hasTo depth) r name with
      | .missing => along (← View.findPrototype r)
      | x => return x
    | .box r => return orUndefined (← Box.own r name)
    | v => match (← get).member? v name with
      | some m => memberValue v name m
      | none => return .undefined

/-- The object or one of its prototypes has the property. -/
def hasTo : (depth : Nat) → Value → String → Action Bool
  | 0, _, _ => failHost .recursion
  | depth + 1, v, name => do
    match v with
    | .null | .undefined => return false
    | .record _ => do
      match (← get).walk name v with
      | .found x => return x != .missing
      | .nowhere => return false
      | .beyond x => return (← readTo depth x name) != .undefined
    | .view r => do
      if View.hasOwn (← get) r name then return true
      else match ← View.findPrototype r with
        | .null => return false
        | p => hasTo depth p name
    | .box r => return Box.hasOwn (← get) r name
    | v => return ((← get).member? v name).isSome

end

def read (v : Value) (name : String) : Action Value := do readTo (nesting (← get)) v name

def has (v : Value) (name : String) : Action Bool := do hasTo (nesting (← get)) v name

end Property

/-- The own member of a view, or `missing` if a prototype has it. -/
def View.own (r : Ref .view) (name : String) : Action Value := View.ownBy Property.has r name

/-- Members of a view cannot be assigned, except that assigning the length does nothing. -/
def View.assign (name : String) : Action Unit :=
  if name = "length" then return () else fail (.unsupportedMember name)

def Box.assign (r : Ref .box) (name : String) : Action Unit := do
  let w ← get
  fail (.noSuchMember (w.typeName (w.boxes.get r).value) name)

/-- Concatenation takes the items of the value instead of the value itself. -/
def World.isSpreadable (w : World) (v prototype : Value) : Bool :=
  match v with
  | .view _ => true
  | .record r => prototype != .null &&
    (match (w.records.get r).get? protoKey with
      | some p => w.same p prototype
      | none => false)
  | _ => false

end ScriptedArrays
