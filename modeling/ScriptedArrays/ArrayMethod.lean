import ScriptedArrays.Property
import ScriptedArrays.Search

/-! Script arrays: the constructor and the methods on their prototype. A script array is a
record with a length and numbered entries; the methods work on any receiver with a length,
and read views through their slots. A method that calls back is given what calls. -/

namespace ScriptedArrays

/-- The greatest length of an array-like receiver, the greatest whole number below which
all whole numbers are doubles. -/
def greatestLength : Nat := 9007199254740991

/-- The greatest length that the constructor accepts, in 32 bits. -/
def greatestArrayLength : Nat := 4294967295

/-- The entries of a script array. -/
def arrayEntries (prototype : Ref .record) (items : List Value) : Entries :=
  (protoKey, .record prototype) :: ("length", .int items.length) ::
    items.zipIdx.map fun p => (toString p.2, p.1)

def makeArray (prototype : Ref .record) (items : List Value) : Action Value := do
  return .record (← newRecord (arrayEntries prototype items))

/-- The whole part of a length, with zero for what is no length. -/
def Double.asLength (x : Double) : Nat :=
  match x with
  | .finite false n _ => min (n / Double.one) greatestLength
  | .infinite false => greatestLength
  | _ => 0

namespace Receiver

def length (this : Value) : Action Nat := do
  match this with
  | .record r => do
    let v := ((← get).records.get r).getD "length" (.int 0)
    return (← numberOf v).asLength
  | v => return (← numberOf (← Property.read v "length")).asLength

/-- The item at an index; an entry of a record, or what a view presents. -/
def item (this : Value) (i : Nat) : Action Value := do
  match this with
  | .record r => return ((← get).records.get r).getD (toString i) .undefined
  | .view r => View.getIndex r (.int i)
  | _ => return .undefined

/-- The items at some indices in order, while the earlier ones are held. -/
def itemsAt (this : Value) (earlier : List Value) : (indices : List Nat) → Action (List Value)
  | [] => return []
  | i :: rest => do
    let v ← holding earlier (item this i)
    return v :: (← itemsAt this (v :: earlier) rest)

def items (this : Value) (earlier : List Value) (from_ count : Nat) : Action (List Value) :=
  itemsAt this earlier (List.range' from_ count)

end Receiver

/-- A bound relative to a length: counted from the end if negative, and cut to the range. -/
def relativeIndex (length : Nat) : Double → Nat
  | .nan => 0
  | .infinite s => if s then 0 else length
  | .finite s n _ =>
    let k := Double.signed s (n / Double.one)
    if k < 0 then (length + k).toNat else min k.toNat length

def boundOf (arg : Value) (length default : Nat) : Action Nat :=
  match arg with
  | .undefined => return default
  | v => return relativeIndex length (← numberOf v)

def argument (args : List Value) (i : Nat) : Value := args.getD i .undefined

namespace ArrayMethod

def prototypeOrder : List ArrayMethod := [join, toString, forEach, map, filter, slice, concat]

def name : ArrayMethod → String
  | join => "join"
  | toString => "toString"
  | forEach => "forEach"
  | map => "map"
  | filter => "filter"
  | slice => "slice"
  | concat => "concat"

/-- The text of an item; undefined and null are empty. -/
def itemText (w : World) (v : Value) : Value :=
  match v with
  | .undefined | .null => .text ""
  | v => w.textValue v

/-- The text of an item is written. -/
def hasItemText (w : World) (v : Value) : Bool :=
  match v with
  | .undefined | .null => true
  | v => w.hasText v

/-- The texts of the items at some indices; each item is held until the next one is there. -/
def textsAt (this previous : Value) : (indices : List Nat) → Action (List Value)
  | [] => return []
  | i :: rest => do
    let v ← holding [previous] (Receiver.item this i)
    let w ← get
    let text ← orFail (Display.written (hasItemText w v) (itemText w v))
    return text :: (← textsAt this v rest)

def textOf (v : Value) : String :=
  match v.item with
  | .text s => s
  | _ => ""

/-- Texts joined by a separator. A text alone stays the object that it is. -/
def joined (separator : String) (texts : List Value) : Value :=
  match texts with
  | [v] => v.opened
  | vs => .text (separator.intercalate (vs.map textOf))

def joinWith (separator : String) (this : Value) : Action Value := do
  let n ← Receiver.length this
  return joined separator (← textsAt this .undefined (List.range n))

/-- The text between the items of a join: a comma if there is no argument or it is undefined, and
else the text of the argument. -/
def separator? (w : World) (args : List Value) : Except HostFault String :=
  match argument args 0 with
  | .undefined => .ok ","
  | v => w.textOf? v

def runJoin (this : Value) (args : List Value) : Action Value := do
  joinWith (← orFail (separator? (← get) args)) this

/-- A call of a function with a receiver and arguments. -/
abbrev Caller := Value → Value → List Value → Action Value

/-- A loop over the indices of an array-like receiver that calls back for every item. -/
structure Visit where
  call : Caller
  this : Value
  callback : Value
  receiver : Value

namespace Visit

def ofArguments (call : Caller) (this : Value) (args : List Value) : Visit :=
  ⟨call, this, argument args 0, argument args 1⟩

def answer (visit : Visit) (v : Value) (i : Nat) : Action Value :=
  visit.call visit.callback visit.receiver [v, .int i, visit.this]

/-- Call back at some indices in order. What was answered before is held throughout, and an
item only while the callback runs. -/
def answersAt (visit : Visit) (earlier : List Value) : (indices : List Nat) → Action (List Value)
  | [] => return []
  | i :: rest => do
    let v ← holding earlier (Receiver.item visit.this i)
    let answer ← holding (v :: earlier) (visit.answer v i)
    return answer :: (← answersAt visit (answer :: earlier) rest)

/-- Call back at some indices in order and forget the answers. -/
def runAt (visit : Visit) : (indices : List Nat) → Action Unit
  | [] => return ()
  | i :: rest => do
    let v ← Receiver.item visit.this i
    let _ ← holding [v] (visit.answer v i)
    runAt visit rest

/-- The items at some indices for which the answer is true. The accepted ones are held, and
each item until the next one is there. -/
def acceptedAt (visit : Visit) (previous : Value) (accepted : List Value) :
    (indices : List Nat) → Action (List Value)
  | [] => return []
  | i :: rest => do
    let v ← holding (previous :: accepted) (Receiver.item visit.this i)
    let answer ← holding (v :: accepted) (visit.answer v i)
    if answer.truth then return v :: (← acceptedAt visit v (v :: accepted) rest)
    else acceptedAt visit v accepted rest

end Visit

def runForEach (call : Caller) (this : Value) (args : List Value) : Action Value := do
  let n ← Receiver.length this
  (Visit.ofArguments call this args).runAt (List.range n)
  return .undefined

def runMap (call : Caller) (prototype : Ref .record) (this : Value) (args : List Value) :
    Action Value := do
  let n ← Receiver.length this
  makeArray prototype (← (Visit.ofArguments call this args).answersAt [] (List.range n))

def runFilter (call : Caller) (prototype : Ref .record) (this : Value) (args : List Value) :
    Action Value := do
  let n ← Receiver.length this
  makeArray prototype (← (Visit.ofArguments call this args).acceptedAt .undefined [] (List.range n))

def runSlice (prototype : Ref .record) (this : Value) (args : List Value) : Action Value := do
  let n ← Receiver.length this
  let lo ← boundOf (argument args 0) n 0
  let hi ← boundOf (argument args 1) n n
  makeArray prototype (← Receiver.items this [] lo (hi - lo))

/-- The items that a value contributes to a concatenation. -/
def spread (prototype : Ref .record) (earlier : List Value) (v : Value) : Action (List Value) := do
  if (← get).isSpreadable v (.record prototype) then
    Receiver.items v earlier 0 (← Receiver.length v)
  else return [v]

/-- The items that some values contribute, while the earlier ones are held. -/
def spreadAll (prototype : Ref .record) (earlier : List Value) : List Value → Action (List Value)
  | [] => return earlier
  | v :: vs => do spreadAll prototype (earlier ++ (← spread prototype earlier v)) vs

def runConcat (prototype : Ref .record) (this : Value) (args : List Value) : Action Value := do
  makeArray prototype (← spreadAll prototype [] (this :: args))

/-- Run a method; `call` calls a function with a receiver and arguments. -/
def run (call : Caller) (m : ArrayMethod)
    (prototype : Ref .record) (this : Value) (args : List Value) : Action Value :=
  match m with
  | join => runJoin this args
  | toString => joinWith "," this
  | forEach => runForEach call this args
  | map => runMap call prototype this args
  | filter => runFilter call prototype this args
  | slice => runSlice prototype this args
  | concat => runConcat prototype this args

end ArrayMethod

/-- A length that a script array may have. -/
def Double.arrayLength? (x : Double) : Option Nat :=
  match x.truncate? with
  | some k => if x.isWhole && 0 ≤ k && k ≤ greatestArrayLength then some k.toNat else none
  | none => none

/-- The array constructor: one number is a length, anything else the items. -/
def constructArray (prototype : Ref .record) (args : List Value) : Action Value := do
  let ofLength (x : Double) : Action Value :=
    match x.arrayLength? with
    | some n => do
      return .record (← newRecord [(protoKey, .record prototype), ("length", .int n)])
    | none => fail .badArrayLength
  match args with
  | [v] => match v.plain with
    | .int i => ofLength (← orFail (Double.ofInt? i))
    | .number x => ofLength x
    | _ => makeArray prototype args
  | _ => makeArray prototype args

/-- Install the array constructor in a scope. -/
def installArray (scope : Ref .scope) : Action (Ref .function) := do
  let prototype ← newRecord []
  let constructor ← modifyGet fun w =>
    (w.functions.next, { w with
      functions := w.functions.push ⟨some "Array", .construct prototype, prototype, none⟩ })
  let methods ← ArrayMethod.prototypeOrder.mapM fun m => do
    let f ← newFunction (some m.name) (.arrayMethod m prototype) none
    return (m.name, Value.function f)
  setRecord prototype (("constructor", .function constructor) :: methods)
  Scope.assignHere scope "Array" (.function constructor)
  return constructor

/-- Bind the standard names in the outermost scope. -/
def installStandard (scope : Ref .scope) : Action Unit := do
  let top ← ask (·.topLevel scope)
  Scope.assignHere top "undefined" .undefined
  Scope.assignHere top "NaN" (.number .nan)
  let _ ← installArray top

end ScriptedArrays
