import Qua.Build.Error
import Qua.Script.ParseError

/-!
# Errors of replaying
-/

namespace Qua

/-- Why a script does not build a program. -/
inductive ReplayFault
  | parse (error : Script.ParseError)
  | build (error : BuildError)
  | expression (error : ExpressionError)
  | unknownName (name : String)
  | unknownFunction (function : String)
  | unsupportedOperator (operator : String)
  | typeMismatch (expected found : String)
  | missingArgument (function argument : String)
  | unexpectedArgument (function argument : String)
  | invalidArgument (function argument value : String)
  | outsideProgram (what : String)
  | missingProgram
  | duplicateProgram
  deriving DecidableEq, Repr

/-- The name of the cause, behind what it is a cause of. -/
def ReplayFault.name : ReplayFault → String
  | .parse e => "Parse/" ++ e.kind.name
  | .build e => "Build/" ++ e.name
  | .expression e => "Expression/" ++ e.name
  | .unknownName _ => "UnknownName"
  | .unknownFunction _ => "UnknownFunction"
  | .unsupportedOperator _ => "UnsupportedOperator"
  | .typeMismatch .. => "TypeMismatch"
  | .missingArgument .. => "MissingArgument"
  | .unexpectedArgument .. => "UnexpectedArgument"
  | .invalidArgument .. => "InvalidArgument"
  | .outsideProgram _ => "OutsideProgram"
  | .missingProgram => "MissingProgram"
  | .duplicateProgram => "DuplicateProgram"

def ReplayFault.message : ReplayFault → String
  | .parse error => "failed to parse script: " ++ error.message
  | .build error => error.message
  | .expression error => error.message
  | .unknownName name => "name '" ++ name ++ "' is not defined"
  | .unknownFunction function => "unknown function " ++ function
  | .unsupportedOperator operator => "operator " ++ operator ++ " is not supported"
  | .typeMismatch expected found => "expected " ++ expected ++ ", found " ++ found
  | .missingArgument function argument =>
    function ++ "() missing required argument '" ++ argument ++ "'"
  | .unexpectedArgument function argument =>
    function ++ "() got an unexpected argument '" ++ argument ++ "'"
  | .invalidArgument function argument value =>
    "invalid " ++ argument ++ " for " ++ function ++ "(): " ++ value
  | .outsideProgram what => what ++ " can only be used inside the program block"
  | .missingProgram => "the script has no 'with program()' block"
  | .duplicateProgram => "the script has more than one program block"

/-- A fault and the line of the innermost statement in which it arose, if in one. -/
structure ReplayError where
  fault : ReplayFault
  line : Option Nat := none
  deriving DecidableEq, Repr

namespace ReplayError

def message (e : ReplayError) : String :=
  match e.line with
  | some line => "line " ++ toString line ++ ": " ++ e.fault.message
  | none => e.fault.message

/-- The line of a statement around the fault, which does not replace that of an inner one. -/
def atLine (line : Nat) (e : ReplayError) : ReplayError :=
  if e.line.isSome then e else { e with line := some line }

end ReplayError

/-- A result that can fail with a fault. -/
abbrev Faulty (α : Type) := Except ReplayFault α

namespace Faulty

def ofExpression (result : Except ExpressionError α) : Faulty α := result.mapError .expression

end Faulty
end Qua
