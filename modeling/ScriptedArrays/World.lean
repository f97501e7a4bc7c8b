import ScriptedArrays.Window
import ScriptedArrays.Settings
import ScriptedArrays.Fault
import ScriptedArrays.Event

/-! The world: every object with an identity, each kind in a store of its own, and what has
been logged. Functions are data: their bodies say what a call does. -/

namespace ScriptedArrays

/-- Methods of script arrays. -/
inductive ArrayMethod
  | join | toString | forEach | map | filter | slice | concat
  deriving DecidableEq, Repr

/-- Tests between a search value and a slot. -/
inductive SlotTest
  | equal | always | never | targetBelow
  deriving DecidableEq, Repr

/-- The kinds of search, which differ in their start and in their answer. -/
inductive SearchKind
  | bare | indexOf | includes
  deriving DecidableEq, Repr

/-- What a function installed by the host does when a script calls it. -/
inductive Callback
  | nothing
  | item | index | array | count | receiver
  | constant (v : Value)
  | add (v : Value)
  | isOdd
  | failAt (v : Value)
  | writeNext (v : Value)
  | writeLength (v : Value)
  | note (log : Ref .list)
  deriving DecidableEq

inductive Body
  | callback (c : Callback)
  | construct (prototype : Ref .record)
  | arrayMethod (m : ArrayMethod) (prototype : Ref .record)
  | search (kind : SearchKind) (array : Ref .array) (test : SlotTest)
  | hostMethod (owner : Value) (name : String) (presenter : Ref .presenter) (scope : Value)
  deriving DecidableEq

structure Function where
  name : Option String
  body : Body
  prototype : Ref .record
  /-- The receiver that the function always sees. A function with one takes arguments only
  and has no members. -/
  receiver : Option Value

instance : Inhabited Function := ⟨⟨none, .callback .nothing, default, none⟩⟩

def Function.isBare (f : Function) : Bool := f.receiver.isSome

/-- A host array as scripts see it. -/
structure View where
  scope : Value
  array : Ref .array
  length : Nat
  slot : SlotType
  presenter : Ref .presenter
  truncates : Bool
  /-- Prototype lookups of this view are counted. -/
  counted : Bool
  /-- The prototype, once it has been looked up. -/
  prototype : Option Value
  exposed : List String
  deriving Inhabited

/-- A host value as scripts see it. -/
structure Box where
  scope : Value
  value : Value
  presenter : Ref .presenter
  exposed : List String
  deriving Inhabited

structure Scope where
  /-- The record of the names that the scope binds. -/
  vars : Ref .record
  parent : Option (Ref .scope)
  deriving Inhabited

/-- Turns host values into script values. -/
structure Presenter where
  exposed : List String
  truncates : Bool
  /-- The views handed out, by the addresses of their arrays, if they are to be reused. -/
  known : Option (List (Nat × Ref .view))
  deriving Inhabited

/-- A lookup of the prototype that the scope of a view offers. -/
structure Request where
  view : Ref .view
  /-- The prototype, unless the way to it failed. -/
  answer : Option Value

structure World where
  lists : Store .list (List Value)
  tuples : Store .tuple (List Value)
  records : Store .record Entries
  buffers : Store .buffer (Array Value)
  arrays : Store .array Window
  /-- Where an array lies. One that is given up makes room for another. -/
  address : Ref .array → Nat
  functions : Store .function Function
  views : Store .view View
  boxes : Store .box Box
  scopes : Store .scope Scope
  presenters : Store .presenter Presenter
  /-- Events of lower severity are not logged. -/
  threshold : Nat
  log : Array Event
  /-- The views handed out so far, in order; one that is handed out again stands here again. -/
  handed : List (Ref .view)
  /-- The object that a view counts as where objects are told apart: itself. Views that are to
  count as one object are given a common one. -/
  one : Ref .view → Ref .view
  /-- The prototype lookups so far, in order. -/
  requests : List Request
  /-- The number of kept values so far. -/
  kept : Nat
  /-- What the operation under way holds: the variables of its caller and its own partial
  results. -/
  inUse : List Value

namespace World

/-- At first there is nothing but the empty tuple, of which there is only one, and an array
without cells, which stands for the arrays that there are not. -/
def empty : World :=
  ⟨.empty, Store.empty.push [], .empty, Store.empty.push #[], Store.empty.push ⟨default, ⟨0⟩, 0, [0]⟩,
    Ref.index, .empty, .empty, .empty, .empty, .empty, 30, #[], [], id, [], 0, []⟩

instance : Inhabited World := ⟨empty⟩

/-- The empty tuple. -/
def emptyTuple : Ref .tuple := ⟨0⟩

/-- A view is handed out. -/
def handing (w : World) (r : Ref .view) : World := { w with handed := w.handed ++ [r] }

/-- The number of prototype lookups of counted views. -/
def lookups (w : World) : Nat := w.requests.countP fun q => (w.views.get q.view).counted

/-- The number of objects other than views. -/
def size (w : World) : Nat :=
  w.lists.size + w.tuples.size + w.records.size + w.buffers.size + w.arrays.size +
    w.functions.size + w.boxes.size + w.scopes.size + w.presenters.size

/-- The values are not told apart: they are one object, or equal values of a kind without
identity. -/
def isOne (w : World) (a b : Value) : Bool := a.rename w.one == b.rename w.one

/-- The values count as the very same object. -/
def same (w : World) (a b : Value) : Bool := (a.rename w.one).same (b.rename w.one)

end World

end ScriptedArrays
