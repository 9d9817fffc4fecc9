import Qua.Binary64.Rounding
import Qua.Expression.Error
import Qua.ScalarType

/-!
# Literals

Constants of the three scalar types. Two fixed literals are the same if their numbers are, so
literals are compared by `Literal.same`.
-/

namespace Qua

inductive Literal
  | int (value : Int32)
  | bool (value : Bool)
  | fixed (value : Binary64)
  deriving Repr

namespace Literal

/-- The literal of an integer, which has to be one of 32 bits. -/
def ofInt (n : Int) : Except ExpressionError Literal :=
  if Int32.minValue.toInt ≤ n ∧ n ≤ Int32.maxValue.toInt then .ok (.int (Int32.ofInt n))
  else .error (.integerOutOfRange n)

def scalarType : Literal → ScalarType
  | .int _ => .int
  | .bool _ => .bool
  | .fixed _ => .fixed

def isBool : Literal → Bool
  | .bool _ => true
  | _ => false

def isFixed : Literal → Bool
  | .fixed _ => true
  | _ => false

/-- The number of a literal that has one. -/
def number? : Literal → Option Binary64
  | .int value => some (.ofInt value.toInt)
  | .fixed value => some value
  | .bool _ => none

/-- Equality of literals, in which numbers are compared by value. -/
def same : Literal → Literal → Bool
  | .int a, .int b => a == b
  | .bool a, .bool b => a == b
  | .fixed a, .fixed b => a.same b
  | _, _ => false

instance : BEq Literal := ⟨same⟩

/-- The type and cells of an array given by its literals: booleans do not mix with numbers, and one
fixed number makes all of them fixed. -/
def arrayOf (literals : List Literal) : Except ExpressionError (ScalarType × List Literal) :=
  if literals.any isBool then
    if literals.all isBool then .ok (.bool, literals) else .error .mixedLiteralTypes
  else if literals.any isFixed then .ok (.fixed, (literals.filterMap number?).map .fixed)
  else .ok (.int, literals)

end Literal
end Qua
