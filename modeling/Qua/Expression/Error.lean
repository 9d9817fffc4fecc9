/-!
# Errors of expressions
-/

namespace Qua

/-- Why an expression can not be formed. Operands are given by their text. -/
inductive ExpressionError
  | notAnArray (operand : String)
  | notAScalar (operand : String)
  | integerOutOfRange (value : Int)
  | mixedLiteralTypes
  deriving DecidableEq, Repr

/-- The name of the cause. -/
def ExpressionError.name : ExpressionError → String
  | .notAnArray _ => "NotAnArray"
  | .notAScalar _ => "NotAScalar"
  | .integerOutOfRange _ => "IntegerOutOfRange"
  | .mixedLiteralTypes => "MixedLiteralTypes"

def ExpressionError.message : ExpressionError → String
  | .notAnArray operand => operand ++ " is not an array"
  | .notAScalar operand => operand ++ " is not a scalar expression"
  | .integerOutOfRange value => toString value ++ " does not fit in a 32-bit QUA integer"
  | .mixedLiteralTypes => "values can not contain both bool and number values"

end Qua
