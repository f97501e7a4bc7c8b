import ScriptedArrays.Cell.Type

/-! Which cell types may be cast to which. A safe cast keeps every value; a cast within
kinds may narrow but never goes down the order of kinds. -/

namespace ScriptedArrays
namespace Content

/-- Characters that the widest value of a type needs as text. -/
def textWidth? : Content → Option Nat
  | bool => some 5
  | int true 1 => some 4
  | int true 2 => some 6
  | int true 4 => some 11
  | int true _ => some 21
  | int false 1 => some 3
  | int false 2 => some 5
  | int false 4 => some 10
  | int false _ => some 20
  | real _ => some 32
  | complex _ => some 64
  | text n => some n
  | bytes n => some n
  | _ => none

/-- A floating point width holds every integer of the given width in bytes. The widest
one also takes the integers of eight bytes. -/
def realTakes (p : Precision) (bytes : Nat) : Bool :=
  match p with
  | .half => bytes ≤ 1
  | .single => bytes ≤ 2
  | .double => true

/-- Every value of the first type has a counterpart in the second. Texts without a capacity
take any that are written with one. -/
def castsSafely : Content → Content → Bool
  | _, object => true
  | text _, text 0 | bytes _, bytes 0 => true
  | bool, bool | bool, int _ _ | bool, real _ | bool, complex _ => true
  | int false m, int false n => m ≤ n
  | int false m, int true n => m < n
  | int true m, int true n => m ≤ n
  | int _ m, real p => realTakes p m
  | int _ m, complex p => realTakes p m
  | real p, real q | real p, complex q | complex p, complex q => p.bytes ≤ q.bytes
  | text m, text n => m ≤ n
  | text _, bytes _ => false
  | c, text n | c, bytes n => match c.textWidth? with
    | some m => m ≤ n || n == 0
    | none => false
  | date u, date v => u == v
  | duration u, duration v => u == v
  | raw m, raw n => m == n
  | _, _ => false

/-- The order of the numeric kinds. -/
def rank? : Content → Option Nat
  | bool => some 0
  | int false _ => some 1
  | int true _ => some 2
  | real _ => some 3
  | complex _ => some 4
  | _ => none

/-- The cast does not go down the order of kinds. -/
def castsWithinKind (c d : Content) : Bool :=
  c.castsSafely d || match c, d with
    | text _, text _ | bytes _, bytes _ | bytes _, text _ => true
    | c, text _ | c, bytes _ => c.rank?.isSome
    | c, d => match c.rank?, d.rank? with
      | some m, some n => m ≤ n
      | _, _ => false

@[simp] theorem castsSafely_object (c : Content) : c.castsSafely object = true := by
  cases c <;> rfl

theorem castsWithinKind_of_castsSafely {c d : Content} (h : c.castsSafely d = true) :
    c.castsWithinKind d = true := by
  simp [castsWithinKind, h]

end Content
end ScriptedArrays
