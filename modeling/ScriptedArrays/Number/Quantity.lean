import ScriptedArrays.Number.Double

/-! Numeric values of all kinds: integers of any size, doubles, and pairs of doubles. They
are related by their exact values, and a pair is ordered by its first part and then by its
second one. -/

namespace ScriptedArrays

/-- How two values may be related. -/
inductive Relation
  | equal | less | atMost
  deriving DecidableEq, Repr

namespace Relation

/-- The relation as it holds between `x` and `y`, given what holds between them. -/
def judge (rel : Relation) (equal less : Bool) : Bool :=
  match rel with
  | .equal => equal
  | .less => less
  | .atMost => less || equal

def ints (rel : Relation) (i j : Int) : Bool := rel.judge (i == j) (decide (i < j))

def doubles (rel : Relation) (x y : Double) : Bool := rel.judge (x.equal y) (x.less y)

/-- Pairs are ordered by their first parts; equal first parts leave it to the second ones,
and a second part that is NaN is below nothing and above nothing. -/
def pairs (rel : Relation) (x y : Double × Double) : Bool :=
  match rel with
  | .equal => x.1.equal y.1 && x.2.equal y.2
  | rel => (x.1.less y.1 && !x.2.isNaN && !y.2.isNaN) || (x.1.equal y.1 && rel.doubles x.2 y.2)

end Relation

/-- A numeric value; truth values count as zero and one. -/
inductive Quantity
  | int (i : Int)
  | real (x : Double)
  | complex (re im : Double)
  deriving DecidableEq

namespace Quantity

def parts : Quantity → Sum Int Double × Double
  | int i => (.inl i, .zero)
  | real x => (.inr x, .zero)
  | complex re im => (.inr re, im)

def relateReal (rel : Relation) : Sum Int Double → Sum Int Double → Bool
  | .inl i, .inl j => rel.ints i j
  | .inl i, .inr y => rel.judge (y.equalInt i) (y.intLess i)
  | .inr x, .inl j => rel.judge (x.equalInt j) (x.lessInt j)
  | .inr x, .inr y => rel.doubles x y

def isComplex : Quantity → Bool
  | complex .. => true
  | _ => false

/-- The relation between exact values. Pairs have no order of their own. -/
def relate? (rel : Relation) (p q : Quantity) : Option Bool :=
  match rel with
  | .equal => some (relateReal .equal p.parts.1 q.parts.1 && p.parts.2.equal q.parts.2)
  | rel => if p.isComplex || q.isComplex then none else some (relateReal rel p.parts.1 q.parts.1)

def equal (p q : Quantity) : Bool := relate? .equal p q = some true

/-- A quantity in a floating point format. -/
def narrow (f : Format) : Quantity → Double × Double
  | int i => ((Double.ofInt i).narrow f, .zero)
  | real x => (x.narrow f, .zero)
  | complex re im => (re.narrow f, im.narrow f)

/-- The quantity is zero. -/
def isZero : Quantity → Bool
  | int i => i == 0
  | real x => x.isZero
  | complex re im => re.isZero && im.isZero

/-- The integer lies beyond all doubles. -/
def isBeyondDoubles : Quantity → Bool
  | int i => !(Double.ofInt i).isFinite
  | _ => false

end Quantity
end ScriptedArrays
