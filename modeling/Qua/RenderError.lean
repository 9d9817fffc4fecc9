import Qua.Binary64.Text
import Qua.Text.Inspected

/-!
# Errors of rendering
-/

namespace Qua

/-- Why something has no text in a script. -/
inductive RenderError
  | nonFiniteLiteral (value : Binary64)
  | unsupportedLibraryFunction (library function : String)
  | unsupportedStreamOperator (operator : String)
  deriving DecidableEq, Repr

/-- The name of the cause. -/
def RenderError.name : RenderError → String
  | .nonFiniteLiteral _ => "NonFiniteLiteral"
  | .unsupportedLibraryFunction .. => "UnsupportedLibraryFunction"
  | .unsupportedStreamOperator _ => "UnsupportedStreamOperator"

def RenderError.message : RenderError → String
  | .nonFiniteLiteral value =>
    "Literal " ++ NumberStyle.sentence.write value ++ " cannot be written as a QUA number"
  | .unsupportedLibraryFunction library function =>
    "Unsupported function " ++ function ++ " in library " ++ library
  | .unsupportedStreamOperator operator =>
    "Unsupported stream-processing operator " ++ Text.inspect operator

end Qua
