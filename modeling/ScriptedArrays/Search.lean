import ScriptedArrays.Slot

/-! Searches over the slots of an array: the first slot, from a start on, that passes a
test against the search value. The start of `indexOf` counts a negative number from the
number of arguments; that of the other searches is taken as it is. -/

namespace ScriptedArrays

/-- Whole numbers of 32 bits; larger ones are cut to the bounds. -/
def clampInt (n : Int) : Int := max (-2147483648) (min 2147483647 n)

/-- The whole part of a number, with zero for NaN and the bounds for the infinities. -/
def Double.wholeClamped (x : Double) : Int :=
  match x with
  | .nan => 0
  | .infinite s => if s then -2147483648 else 2147483647
  | .finite s n _ => clampInt (Double.signed s (n / Double.one))

/-- The whole number that a script value gives as an argument. -/
def World.intValue (w : World) (v : Value) : Except HostFault Int :=
  (w.numberOf (w.hostValue v)).map (·.wholeClamped)

namespace Search

def passes (w : World) (test : SlotTest) (target slot : Operand) : Except HostFault Bool :=
  match test with
  | .equal => w.deepEqual target slot
  | .always => .ok true
  | .never => .ok false
  | .targetBelow => do (← w.relateOperands .less target slot).truth

/-- The position of the first slot that passes a test, counted from `i`. -/
def firstFrom (passes : Operand → Except HostFault Bool) (i : Nat) :
    List Operand → Except HostFault (Option Nat)
  | [] => .ok none
  | slot :: rest => do
    if ← passes slot then return some i else firstFrom passes (i + 1) rest

/-- The start of a search with the given arguments. -/
def start (w : World) (kind : SearchKind) (args : List Value) : Except HostFault Int :=
  match args with
  | _ :: from_ :: _ => do
    let s ← w.intValue from_
    return if kind == .indexOf && s < 0 then args.length + s else s
  | _ => .ok 0

def functionName : SearchKind → String
  | .bare => "search"
  | .indexOf => "indexOf"
  | .includes => "includes"

/-- A test of a slot against the search value, as the world is when a search is called. -/
abbrev Predicate := World → Operand → Operand → Except HostFault Bool

/-- The first index from the start on whose slot passes, or minus one. -/
def scanBy (kind : SearchKind) (array : Ref .array) (passes : Predicate) (args : List Value) :
    Action Int := do
  let w ← get
  let win := w.arrays.get array
  match args with
  | [] => fail (.missingArgument (functionName kind))
  | v :: _ => do
    let s ← orFail (start w kind args)
    if win.shape.isEmpty then failHost .type
    else if s < 0 then
      logEvent (.startRejected (functionName kind) s win.length)
      fail (.outOfBounds (toString s) (win.length - 1))
    else
      let target := w.operand (w.hostValue v)
      let slots := ((w.operands win).drop s.toNat).map w.resolve
      match ← orFail (firstFrom (passes w target) s.toNat slots) with
      | some i => return i
      | none => return -1

/-- What a search for a slot that passes answers to a script. A bare search answers nothing. -/
def callBy (kind : SearchKind) (array : Ref .array) (passes : Predicate) (args : List Value) :
    Action Value := do
  match kind with
  | .bare => return .undefined
  | .indexOf => return .int (← scanBy kind array passes args)
  | .includes => return .bool ((← scanBy kind array passes args) != -1)

def scan (kind : SearchKind) (array : Ref .array) (test : SlotTest) (args : List Value) :
    Action Int :=
  scanBy kind array (passes · test) args

def call (kind : SearchKind) (array : Ref .array) (test : SlotTest) (args : List Value) :
    Action Value :=
  callBy kind array (passes · test) args

end Search
end ScriptedArrays
