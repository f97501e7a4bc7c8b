import ScriptedArrays.Grid
import ScriptedArrays.Fault

/-! Relations between host values. Plain numbers are related by their exact values, typed
ones in the narrowest width that takes both sides, containers element by element, and arrays
cell by cell after both sides were repeated to a joint shape. -/

namespace ScriptedArrays

/-- What a comparison gives: one truth value, or typed ones laid out as an array. -/
inductive Verdict
  | plain (b : Bool)
  | cells (shape : List Nat) (bs : List Bool)
  deriving DecidableEq, Repr

/-- An array counts as true or false only if it has a single cell. -/
def Verdict.truth : Verdict → Except HostFault Bool
  | plain b => .ok b
  | cells _ [b] => .ok b
  | cells _ _ => .error .value

namespace Quantity

/-- The width in which a plain number meets a cell type: integers meet each other exactly. -/
def meetingPrecision? (p : Quantity) (c : Content) : Option Precision :=
  if c.isInteger then match p with
    | int _ => none
    | _ => some .double
  else some c.needed

/-- The width in which two numbers meet, or none if they meet exactly. -/
def jointPrecision? (c d : Option Content) (p q : Quantity) : Option Precision :=
  match c, d with
  | some c, some d => if c.isInteger && d.isInteger then none else some (c.commonPrecision d)
  | some c, none => q.meetingPrecision? c
  | none, some d => p.meetingPrecision? d
  | none, none => none

/-- The relation between two numbers at least one of which has a cell type. -/
def relateTyped (rel : Relation) (c d : Option Content) (p q : Quantity) : Except HostFault Bool :=
  match jointPrecision? c d p q with
  | none => .ok ((relate? rel p q).getD false)
  | some width =>
    if p.isBeyondDoubles || q.isBeyondDoubles then .error .overflow
    else .ok (rel.pairs (p.narrow width.format) (q.narrow width.format))

end Quantity

/-- How the cells of two grids are related. -/
inductive CellMode
  | objects | numbers | texts | strangers
  deriving DecidableEq, Repr

/-- Cells of unlike kinds, such as texts and numbers, are strangers. -/
def cellMode (c d : Option Content) : CellMode :=
  match c, d with
  | some .object, _ | _, some .object => .objects
  | some (.text _), some (.text _) | some (.bytes _), some (.bytes _)
  | some (.date _), some (.date _) | some (.duration _), some (.duration _)
  | some (.raw _), some (.raw _) => .texts
  | c, d => if c.all (·.isNumeric) && d.all (·.isNumeric) then .numbers else .strangers

/-- Texts and bytes are ordered by their characters, dates and durations by their numbers. -/
def relateTexts? (rel : Relation) (a b : Value) : Option Bool :=
  match a, b with
  | .text s, .text t => some (rel.judge (s == t) (decide (s < t)))
  | .bytes s, .bytes t => some (rel.judge (s == t) (decide (s.map (·.toNat) < t.map (·.toNat))))
  | .date s, .date t | .duration s, .duration t => some (rel.ints s t)
  | _, _ => none

namespace Grid

/-- Relate two cells, objects as given. A date or duration that is missing equals nothing. -/
def relateCells (objects : Value → Value → Except HostFault Bool) (rel : Relation) (g h : Grid)
    (x y : Value) : Except HostFault Bool :=
  match cellMode g.type h.type with
  | .objects => objects x y
  | .numbers => match x.quantity?, y.quantity? with
    | some p, some q => Quantity.relateTyped rel g.type h.type p q
    | _, _ => .ok false
  | .texts => .ok ((relateTexts? rel x y).getD false)
  | .strangers => .ok false

/-- Relate two grids cell by cell. Strangers are unequal and have no order. -/
def relate (objects : Value → Value → Except HostFault Bool) (rel : Relation) (g h : Grid) :
    Except HostFault Verdict := do
  let strange := cellMode g.type h.type == .strangers
  if strange && rel != .equal then .error .unsupported
  else if strange && g.shape.isEmpty && h.shape.isEmpty then .ok (.plain false)
  else match Shape.joint? g.shape h.shape with
    | none => .error .value
    | some shape =>
      let xs := Shape.stretch g.shape shape g.cells
      let ys := Shape.stretch h.shape shape h.cells
      return .cells shape (← (xs.zip ys).mapM fun p => relateCells objects rel g h p.1 p.2)

end Grid

/-- Drop what two lists have in common from the front. -/
def dropAlike (alike : Value → Value → Except HostFault Bool) :
    List Value → List Value → Except HostFault (List Value × List Value)
  | x :: xs, y :: ys => do
    if ← alike x y then dropAlike alike xs ys else return (x :: xs, y :: ys)
  | xs, ys => return (xs, ys)

namespace Value

/-- The cell type of a typed number. -/
def numberType? (v : Value) : Option Content :=
  match v.content with
  | .scalar t _ => if t.content.isNumeric then some t.content else none
  | _ => none

def isArray (v : Value) : Bool :=
  match v with
  | .array _ => true
  | _ => false

end Value

namespace World

/-- Relate two values whose parts are nested less deep than `fuel`. -/
def relateFrom (w : World) : (fuel : Nat) → Relation → Value → Value → Except HostFault Verdict
  | 0, _, _, _ => .error .recursion
  | fuel + 1, rel, a, b =>
    let related (rel : Relation) (x y : Value) : Except HostFault Bool := do
      (← relateFrom w fuel rel x y).truth
    let alike (x y : Value) : Except HostFault Bool :=
      if w.same x y then .ok true else related .equal x y
    let sequences (xs ys : List Value) : Except HostFault Verdict := do
      match ← dropAlike alike xs ys with
      | (x :: _, y :: _) => if rel = .equal then return .plain false else relateFrom w fuel rel x y
      | (xs, ys) => return .plain (rel.ints xs.length ys.length)
    match a.quantity?, b.quantity? with
    | some p, some q =>
      if a.numberType?.isNone && b.numberType?.isNone then
        match Quantity.relate? rel p q with
        | some holds => .ok (.plain holds)
        | none => .error .type
      else do return .cells [] [← Quantity.relateTyped rel a.numberType? b.numberType? p q]
    | _, _ =>
      if a.isArray || b.isArray || a.numberType?.isSome || b.numberType?.isSome then
        if rel = .equal && !a.isArray && !b.isArray && (a = .null || b = .null) then
          .ok (.plain false)
        else do Grid.relate (related rel) rel (← w.gridOf a) (← w.gridOf b)
      else match a.item, b.item with
        | .list r, .list s =>
          let xs := w.lists.get r
          let ys := w.lists.get s
          if rel = .equal && xs.length != ys.length then .ok (.plain false) else sequences xs ys
        | .tuple r, .tuple s => sequences (w.tuples.get r) (w.tuples.get s)
        | .record r, .record s =>
          let e := w.records.get r
          let f := w.records.get s
          if rel != .equal then .error .type
          else if e.length != f.length then .ok (.plain false)
          else do return .plain (← e.allM fun p => match f.get? p.1 with
            | some v => alike p.2 v
            | none => .ok false)
        | x, y => match relateTexts? rel x y with
          | some holds => .ok (.plain holds)
          | none => if rel = .equal then .ok (.plain (w.isOne x y)) else .error .type

/-- Relate two host values. Containers that hold themselves have no end. -/
def relate (w : World) (rel : Relation) (a b : Value) : Except HostFault Verdict :=
  w.relateFrom (w.size + 2) rel a b

/-- Relate two sides, a window as the array that it shows. -/
def relateOperands (w : World) (rel : Relation) (a b : Operand) : Except HostFault Verdict :=
  match a, b with
  | .plain a, .plain b => w.relate rel a b
  | a, b => do
    let objects (x y : Value) : Except HostFault Bool := do (← w.relate rel x y).truth
    Grid.relate objects rel (← w.operandGrid a) (← w.operandGrid b)

/-- Equality of host values. -/
def equal (w : World) (a b : Value) : Except HostFault Bool := do (← w.relate .equal a b).truth

/-- Two values count as one element: they are the same object, or equal. -/
def alike (w : World) (a b : Value) : Except HostFault Bool :=
  if w.same a b then .ok true else w.equal a b

/-- How the host tests a value, up to a nesting of arrays in cells: zero and empty values
are false, and an array has to have a single cell. -/
def hostTruthFrom (w : World) : (fuel : Nat) → Value → Except HostFault Bool
  | 0, _ => .error .recursion
  | fuel + 1, v =>
    match v.item with
    | .null => .ok false
    | .text s => .ok (s != "")
    | .bytes b => .ok (!b.isEmpty)
    | .duration s => .ok (s != 0)
    | .list r => .ok (!(w.lists.get r).isEmpty)
    | .tuple r => .ok (!(w.tuples.get r).isEmpty)
    | .record r => .ok (!(w.records.get r).isEmpty)
    | .view r => .ok ((w.views.get r).length != 0)
    | .array r => match w.cells (w.arrays.get r) with
      | [x] => hostTruthFrom w fuel x
      | _ => .error .value
    | v => match v.quantity? with
      | some q => .ok (!q.isZero)
      | none => .ok true

def hostTruth (w : World) (v : Value) : Except HostFault Bool := w.hostTruthFrom (w.arrays.size + 2) v

end World
end ScriptedArrays
