import ScriptedArrays.Comparison

/-! Structural equality between a search value and a host element. Numbers are compared by
their exact values and truth values apart from them; two arrays are equal if they have the
same shape and all cells are equal. -/

namespace ScriptedArrays
namespace World

/-- Two windows have the same shape and equal cells. -/
def windowsEqual (w : World) (a b : Window) : Except HostFault Bool :=
  if a.shape != b.shape then .ok false
  else do
    match ← w.relateOperands .equal (.window a) (.window b) with
    | .plain holds => return holds
    | .cells _ bs => return bs.all id

/-- A value for comparison: typed contents without their type, bytes as text. -/
def comparable (v : Value) : Value :=
  match v.item with
  | .bytes b => .text (Latin.decode b)
  | v => v

/-- Equality of two values that are no arrays. Truth values equal truth values only. -/
def scalarsEqual (w : World) (a b : Value) : Except HostFault Bool :=
  match comparable a, comparable b with
  | .bool p, .bool q => .ok (p == q)
  | .bool _, _ | _, .bool _ => .ok false
  | .int i, .int j => .ok (i == j)
  | .int i, .number y => .ok (y.equalInt i)
  | .number x, .int j => .ok (x.equalInt j)
  | .number x, .number y => .ok (x.equal y)
  | .text s, .text t => .ok (s == t)
  | .complex a b, .complex c d => .ok (a.equal c && b.equal d)
  | .list r, .list s => w.equal (.list r) (.list s)
  | .tuple r, .tuple s => w.equal (.tuple r) (.tuple s)
  | .record r, .record s => w.equal (.record r) (.record s)
  | x, y => .ok (w.isOne x y)

/-- Structural equality between a search value and a host element. -/
def deepEqual (w : World) : Operand → Operand → Except HostFault Bool
  | .window a, .window b => w.windowsEqual a b
  | .plain a, .plain b => w.scalarsEqual a b
  | _, _ => .ok false

end World
end ScriptedArrays
