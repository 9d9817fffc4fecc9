import Qua.Expression.Error
import Qua.ResultAnalysis

/-!
# Errors of building
-/

namespace Qua

/-- Why a step of a build is refused. -/
inductive BuildError
  | expression (error : ExpressionError)
  | duplicateTag (tag : String)
  /-- The innermost scope is not of the kind that the step needs. -/
  | expectedScope (what : String)
  /-- A scope was closed that is not the innermost one. -/
  | unexpectedStack
  | unclosedScopes (number : Nat)
  /-- An earlier step failed, for the reason given. -/
  | poisoned (reason : String)
  | elifWithoutIf
  | elifAfterElse
  | elseWithoutIf
  | duplicateElse
  | defaultBeforeCase
  | duplicateDefault
  | invalidSize
  | sizeWithValue
  | unnamedInputStream
  | duplicateInputStream (stream : String)
  | emptyForEachValues
  | forEachVariable (index : Nat)
  | forEachValue
  | forEachArity
  | invalidAssignTarget (target : String)
  | librarySaveSource (source : String)
  | invalidSaveSource (source : String)
  | adcTraceSave
  | streamOperator (operator : String)
  | unknownUnits (units : String)
  | ampArity
  | unknownLibraryFunction (library function : String)
  | libraryArity (library function : String) (expected found : Nat)
  deriving DecidableEq, Repr

namespace BuildError

/-- The name of the cause. -/
def name : BuildError → String
  | .expression e => "Expression/" ++ e.name
  | .duplicateTag _ => "DuplicateTag"
  | .expectedScope _ => "ExpectedScope"
  | .unexpectedStack => "UnexpectedStack"
  | .unclosedScopes _ => "UnclosedScopes"
  | .poisoned _ => "Poisoned"
  | .elifWithoutIf => "ElifWithoutIf"
  | .elifAfterElse => "ElifAfterElse"
  | .elseWithoutIf => "ElseWithoutIf"
  | .duplicateElse => "DuplicateElse"
  | .defaultBeforeCase => "DefaultBeforeCase"
  | .duplicateDefault => "DuplicateDefault"
  | .invalidSize => "InvalidSize"
  | .sizeWithValue => "SizeWithValue"
  | .unnamedInputStream => "UnnamedInputStream"
  | .duplicateInputStream _ => "DuplicateInputStream"
  | .emptyForEachValues => "EmptyForEachValues"
  | .forEachVariable _ => "ForEachVariable"
  | .forEachValue => "ForEachValue"
  | .forEachArity => "ForEachArity"
  | .invalidAssignTarget _ => "InvalidAssignTarget"
  | .librarySaveSource _ => "LibrarySaveSource"
  | .invalidSaveSource _ => "InvalidSaveSource"
  | .adcTraceSave => "AdcTraceSave"
  | .streamOperator _ => "StreamOperator"
  | .unknownUnits _ => "UnknownUnits"
  | .ampArity => "AmpArity"
  | .unknownLibraryFunction .. => "UnknownLibraryFunction"
  | .libraryArity .. => "LibraryArity"

def aligned : String := " - Please make sure it is aligned with the corresponding if statement."

def message : BuildError → String
  | .expression error => error.message
  | .duplicateTag tag => duplicateTagMessage tag
  | .expectedScope what => "Expecting " ++ what
  | .unexpectedStack => "Unexpected stack structure"
  | .unclosedScopes number =>
    toString number ++ " scope(s) were not closed before the program was finished"
  | .poisoned reason => "the program build was aborted by an earlier error: " ++ reason
  | .elifWithoutIf => "'elif' statement must directly follow 'if' statement" ++ aligned
  | .elifAfterElse => "'elif' must come before 'else' statement"
  | .elseWithoutIf => "'else' statement must directly follow 'if' statement" ++ aligned
  | .duplicateElse => "only a single 'else' statement can follow an 'if' statement"
  | .defaultBeforeCase => "must specify at least one case before 'default'."
  | .duplicateDefault => "only a single 'default' statement can follow a 'switch' statement"
  | .invalidSize => "size must be a positive integer"
  | .sizeWithValue => "size declaration cannot be made if value is declared"
  | .unnamedInputStream => "input stream declared without a name"
  | .duplicateInputStream stream => "input stream already declared: " ++ stream
  | .emptyForEachValues => "values cannot be empty"
  | .forEachVariable index => "for_each_ var " ++ toString index ++ " must be a variable"
  | .forEachValue => "value is not a QUA array neither iterable"
  | .forEachArity => "number of variables does not match number of array values"
  | .invalidAssignTarget target => "invalid target expression: " ++ target
  | .librarySaveSource source =>
    "library expression " ++ source
      ++ " is not a valid save source. Assign the value to a variable before saving it"
  | .invalidSaveSource source => "invalid source expression: " ++ source
  | .adcTraceSave => "adc_trace can't be used in save"
  | .streamOperator operator => "Can't use " ++ operator ++ " operator on results"
  | .unknownUnits units => "unknown units \"" ++ units ++ "\""
  | .ampArity => "amp can be one value or a matrix of 4"
  | .unknownLibraryFunction library function =>
    "unknown function " ++ function ++ " in library " ++ library
  | .libraryArity library function expected found =>
    library ++ "." ++ function ++ " takes " ++ toString expected ++ " argument(s) but "
      ++ toString found ++ " were given"

end BuildError
end Qua
