import ScriptedArrays.HostMember

/-! Methods of host values that scripts may call: copies and lists of arrays, and the
operations of host sequences. -/

namespace ScriptedArrays
namespace HostMethod

/-- The cells of an array as nested lists, one level for every axis. -/
def nested : (shape : List Nat) → List Value → Action Value
  | [], cells => return cells.headD .undefined
  | n :: shape, cells => do
    newList (← (pieces (cellCount shape) n cells).mapM (nested shape))

/-- The names of the orders in which cells may lie. -/
def orders : List String := ["C", "F", "A", "K", "c", "f", "a", "k"]

def ofArray (r : Ref .array) (name : String) (args : List Value) : Action Value := do
  let w ← get
  let win := w.arrays.get r
  match name, args with
  | "tolist", [] => nested win.shape (w.cells win)
  | "copy", [] => return .array (← newArray win.type win.shape (w.cells win))
  | "copy", [order] => match order.item with
    | .null => return .array (← newArray win.type win.shape (w.cells win))
    | .text s =>
      if s ∈ orders then return .array (← newArray win.type win.shape (w.cells win))
      else failHost .value
    | .bytes b =>
      if Latin.decode b ∈ orders then return .array (← newArray win.type win.shape (w.cells win))
      else failHost .value
    | _ => failHost .type
  | _, _ => failHost .type

def setList (r : Ref .list) (vs : List Value) : Action Unit := modify fun w =>
  { w with lists := w.lists.set r vs }

/-- A position in a sequence, counted from the end if negative. -/
def position? (i : Value) (length : Nat) : Option Int :=
  match i.quantity? with
  | some (.int n) => some (if n < 0 then n + length else n)
  | _ => none

/-- The elements that a host value yields one by one. -/
def elementsOf (v : Value) : Action (List Value) := do
  let w ← get
  match v.item with
  | .list r => return w.lists.get r
  | .tuple r => return w.tuples.get r
  | .record r => return (w.records.get r).map fun e => .text e.1
  | .text s => return s.toList.map fun c => .text (String.singleton c)
  | .bytes b => return b.map fun (x : UInt8) => .int x.toNat
  | .array r =>
    let win := w.arrays.get r
    if win.shape.isEmpty then failHost .type else (List.range win.length).mapM (slotValue win)
  | .view r => View.elements r
  | _ => failHost .type

/-- The first position, counted from `i`, at which a value is found. -/
def findFrom (w : World) (x : Value) (i : Nat) : List Value → Except HostFault (Option Nat)
  | [] => .ok none
  | v :: vs => do if ← w.alike v x then return some i else findFrom w x (i + 1) vs

/-- The first position of a value, from one position up to another. -/
def indexOf (vs : List Value) (args : List Value) : Action Value := do
  let w ← get
  let bound (i : Value) : Option Nat := (position? i vs.length).map (·.toNat)
  let search (x : Value) (from? to? : Option Nat) : Action Value := do
    match from?, to? with
    | some a, some b =>
      match ← orFail (findFrom w x a ((vs.take b).drop a)) with
      | some i => return .int i
      | none => failHost .value
    | _, _ => failHost .type
  match args with
  | [x] => search x (some 0) (some vs.length)
  | [x, a] => search x (bound a) (some vs.length)
  | [x, a, b] => search x (bound a) (bound b)
  | _ => failHost .type

def countOf (vs : List Value) (args : List Value) : Action Value := do
  let w ← get
  match args with
  | [x] => return .int (← orFail (vs.filterM fun v => w.alike v x)).length
  | _ => failHost .type

def ofList (r : Ref .list) (name : String) (args : List Value) : Action Value := do
  let w ← get
  let vs := w.lists.get r
  match name, args with
  | "append", [x] => do setList r (vs ++ [x]); return .null
  | "extend", [x] => do
    let more ← (← elementsOf x).mapM keep
    setList r (vs ++ more)
    return .null
  | "insert", [i, x] => match position? i vs.length with
    | some k => do
      let k := min k.toNat vs.length
      setList r (vs.take k ++ [x] ++ vs.drop k)
      return .null
    | none => failHost .type
  | "pop", [] => match vs.getLast? with
    | some x => do setList r vs.dropLast; return x
    | none => failHost .index
  | "pop", [i] => match position? i vs.length with
    | some k =>
      if 0 ≤ k ∧ k < vs.length then do
        setList r (vs.eraseIdx k.toNat)
        return vs.getD k.toNat .undefined
      else failHost .index
    | none => failHost .type
  | "remove", [x] => do
    match ← orFail (findFrom w x 0 vs) with
    | some k => do setList r (vs.eraseIdx k); return .null
    | none => failHost .value
  | "reverse", [] => do setList r vs.reverse; return .null
  | "clear", [] => do setList r []; return .null
  | "copy", [] => newList vs
  | "count", args => countOf vs args
  | "index", args => indexOf vs args
  | _, _ => failHost .type

def ofTuple (r : Ref .tuple) (name : String) (args : List Value) : Action Value := do
  let vs := (← get).tuples.get r
  match name with
  | "count" => countOf vs args
  | "index" => indexOf vs args
  | _ => failHost .type

/-- Values that may be looked up in a record. -/
def isKey : Value → Bool
  | .list _ | .record _ | .array _ => false
  | _ => true

def ofRecord (r : Ref .record) (name : String) (args : List Value) : Action Value := do
  let e := (← get).records.get r
  let look (k default : Value) : Action Value :=
    match k.item with
    | .text s => return e.getD s default
    | k => if isKey k then return default else failHost .type
  match name, args with
  | "copy", [] => return .record (← newRecord e)
  | "get", [k] => look k .null
  | "get", [k, v] => look k v
  | "clear", [] => do setRecord r []; return .null
  | _, _ => failHost .type

/-- Call a method of a host value with host values. -/
def run (owner : Value) (name : String) (args : List Value) : Action Value :=
  match owner.content with
  | .array r => ofArray r name args
  | .scalar t x => match name, args with
    | "tolist", [] | "item", [] => keep x
    | "copy", [] => keep (.scalar t x)
    | _, _ => failHost .type
  | .list r => ofList r name args
  | .tuple r => ofTuple r name args
  | .record r => ofRecord r name args
  | _ => failHost .type

end HostMethod
end ScriptedArrays
