import ScriptedArrays.ArrayMethod
import ScriptedArrays.HostMethod
import ScriptedArrays.Instance

/-! Methods bound to their owner. Besides the values of the host, the objects of the library
have methods too when the host hands them out: functions, scopes, slot types, views and
boxes. A call of a function's own method is given what calls functions. -/

namespace ScriptedArrays
namespace BoundMethod

/-- The arguments that a value stands for: none if it is false, and its elements otherwise. -/
def argumentsOf (v : Value) : Action (List Value) := do
  if ← orFail ((← get).hostTruth v) then HostMethod.elementsOf v else return []

/-- The name that a value is, if it is one. What cannot be a key is no value to look up. -/
def nameOf (v : Value) : Action (Option String) :=
  match v.item with
  | .text s => return some s
  | v => if HostMethod.isKey v then return none else failHost .type

def scopeOr : Option (Ref .scope) → Value
  | some r => .scope r
  | none => .null

def ofScope (r : Ref .scope) (name : String) (args : List Value) : Action Value := do
  let lookup (v default : Value) : Action Value := do
    match ← nameOf v with
    | some s => return (← ask (·.binding? r s)).getD default
    | none => do
      let _ ← ask (·.topLevel r)
      return default
  match name, args with
  | "owner", [v] => do
    match ← nameOf v with
    | some s => return scopeOr (← ask (·.owner r s))
    | none => do
      let _ ← ask (·.topLevel r)
      return .null
  | "lookup", [v] => lookup v .missing
  | "lookup", [v, default] => lookup v default
  | "get", [v] => do
    match ← lookup v .missing with
    | .missing => fail (.unboundName (← look (·.display v)))
    | x => return x
  | "set_local", [v, x] => do
    match ← nameOf v with
    | some s => do Scope.assignHere r s x; return .null
    | none => failHost .type
  | "set", [v, x] => do
    match ← nameOf v with
    | some s => do Scope.assign r s x; return .null
    | none => failHost .type
  | "top_level", [] => return .scope (← ask (·.topLevel r))
  | _, _ => failHost .type

/-- The slot type of an array, or of what else has a cell type and a shape. -/
def slotTypeOf (v : Value) : Action Value := do
  match v.content with
  | .array r => return .slotType (← look (·.arrays.get r)).slotType
  | .scalar t _ => return .slotType ⟨t, []⟩
  | .slotType t => return .slotType ⟨t.cell, t.shape.tail⟩
  | _ => failHost .attribute

def ofSlotType (t : SlotType) (name : String) (args : List Value) : Action Value := do
  match name, args with
  | "is_instance", [v] => return .bool (← look (·.isInstance t v))
  | "of_array", [v] => slotTypeOf v
  | _, _ => failHost .type

/-- The test of a search as a method of two values. -/
def test (t : SlotTest) (target slot : Value) : Action Value := do
  let w ← get
  match t with
  | .targetBelow => (← orFail (w.relate .less target slot)).value
  | t => return .bool (← orFail (Search.passes w t (w.operand target) (w.operand slot)))

def ofFunction (call : Ref .function → Value → List Value → Action Value) (r : Ref .function)
    (name : String) (args : List Value) : Action Value := do
  let f ← look (·.functions.get r)
  match name, args, f.body with
  | "call", [_, this, args], _ | "native_impl", [_, this, args], _ => do
    call r this (← argumentsOf args)
  | "make_array", [], .construct prototype => makeArray prototype []
  | "make_array", [items], .construct prototype => makeArray prototype (← argumentsOf items)
  | "scan", [args], .search kind array t => do
    return .int (← Search.scan kind array t (← argumentsOf args))
  | "start_offset", [args], .search kind _ _ => do
    return .int (← orFail (Search.start (← get) kind (← HostMethod.elementsOf args)))
  | "predicate", [target, slot], .search _ _ t => test t target slot
  | _, _, _ => failHost .type

/-- The hint of a conversion to a primitive. -/
def hintOf (w : World) (v : Value) : Option String :=
  match v.item with
  | .null => none
  | .text s => some s
  | v => some (w.quote v)

def ofView (r : Ref .view) (name : String) (args : List Value) : Action Value := do
  let w ← get
  match name, args with
  | "unwrap", [] => return w.hostValue (.view r)
  | "resolve_prototype", [] => View.findPrototype r
  | "has_property", [v] => return .bool ((← nameOf v).any (View.hasOwn w r))
  | "get_property", [v] => do
    match ← nameOf v with
    | some s => View.own r s
    | none =>
      fail (.noSuchMember (w.typeName (.array (w.views.get r).array)) (← orFail (w.display? v)))
  | "set_property", [v, _] => do View.assign (← orFail (w.display? v)); return .null
  | "coerces_to_primitive", [] => orFail (View.primitive? w r none)
  | "coerces_to_primitive", [v] => orFail (View.primitive? w r (hintOf w v))
  | "has_index", [i] => View.hasIndex r i
  | "get_index", [i] => View.getIndex r i
  | "set_index", [i, v] => do View.setIndex r i v; return .null
  | "list_own_keys", [] => newList (View.indices w r)
  | "has_symbol_key", [key] => return .bool (View.symbol key != .missing)
  | "get_symbol_key", [key] => return View.symbol key
  | "delete_symbol_key", [_] => return .null
  | "instance_check", [v] => return .bool (View.accepts w r v)
  | _, _ => failHost .type

def ofBox (r : Ref .box) (name : String) (args : List Value) : Action Value := do
  let w ← get
  match name, args with
  | "unwrap", [] => return (w.boxes.get r).value
  | "resolve_prototype", [] => return .null
  | "has_property", [v] => return .bool ((← nameOf v).any (Box.hasOwn w r))
  | "get_property", [v] => do
    match ← nameOf v with
    | some s => Box.own r s
    | none => return .missing
  | "set_property", [v, _] => do Box.assign r (← orFail (w.display? v)); return .null
  | "coerces_to_primitive", [] => orFail (Box.primitive w r none)
  | "coerces_to_primitive", [v] => orFail (Box.primitive w r (hintOf w v))
  | _, _ => failHost .type

/-- Call a method bound to its owner; `call` calls a function with a receiver and arguments. -/
def run (call : Ref .function → Value → List Value → Action Value) (owner : Value)
    (name : String) (args : List Value) : Action Value :=
  match owner.content with
  | .scope r => ofScope r name args
  | .slotType t => ofSlotType t name args
  | .function r => ofFunction call r name args
  | .view r => ofView r name args
  | .box r => ofBox r name args
  | owner => HostMethod.run owner name args

end BoundMethod
end ScriptedArrays
