import ScriptedArrays.Slot
import ScriptedArrays.Primitive

/-! Sums of a number and a host value. A typed value gives a typed sum, of single or half
width if it has that and otherwise of full width. An array gives an array of sums. -/

namespace ScriptedArrays
namespace Sum

/-- What the sums of numbers and cells of a type are. -/
def contentOf (c : Content) : Except HostFault Content :=
  match c with
  | .bool | .int .. => .ok (.real .double)
  | .real _ | .complex _ | .object => .ok c
  | .text _ | .bytes _ | .date _ | .duration _ | .raw _ => .error .unsupported

/-- The sum in a floating point width. Both sides are rounded to it first. -/
def inWidth (p : Precision) (x : Double) (y : Quantity) : Double × Double :=
  let (re, im) := y.narrow p.format
  (((x.narrow p.format).add re).narrow p.format, Double.zero.add im)

/-- The sum with what a cell holds. -/
def withCell (sum : Content) (x : Double) (y : Value) : Except HostFault Value :=
  match sum, y.quantity? with
  | .complex p, some q => let s := inWidth p x q; .ok (.complex s.1 s.2)
  | .real p, some q => .ok (.number (inWidth p x q).1)
  | _, _ => .error .type

/-- The sum with a value other than an array. -/
def withItem (x : Double) (v : Value) : Except HostFault Value :=
  match v.content with
  | .scalar t y => do
    let sum ← contentOf t.content
    return .scalar (.native sum) (← withCell sum x y)
  | v => match v.quantity? with
    | some (.int i) => (Double.ofInt? i).map fun y => .number (x.add y)
    | some (.real y) => .ok (.number (x.add y))
    | some (.complex re im) => .ok (.complex (x.add re) (Double.zero.add im))
    | none => .error .type

/-- The sum with an array. That with an array without axes is a single value. -/
def withWindow (x : Double) (win : Window) : Action Value := do
  let sum ← orFail (contentOf win.type.content)
  let add := if sum = .object then withItem x else withCell sum x
  let cells ← orFail (((← get).cells win).mapM add)
  match win.shape, cells with
  | [], [y] => return if sum = Content.object then y else .scalar (.native sum) y
  | shape, cells => return .array (← newArray (.native sum) shape cells)

end Sum

/-- The sum of a number and a host value. -/
def addTo (x : Double) (v : Value) : Action Value := do
  match v.content with
  | .array r => Sum.withWindow x (← look (·.arrays.get r))
  | v => orFail (Sum.withItem x v)

end ScriptedArrays
