import Qua.Expression
import Qua.RenderError

/-!
# Expressions as script text

Operations are written in parentheses and without blanks. A literal that is no finite number and a
call of a function that its library does not support have no text.
-/

namespace Qua

/-- The text of a real as a script literal. -/
def renderReal (x : Binary64) : Except RenderError String :=
  if x.isFinite then .ok (NumberStyle.script.write x) else .error (.nonFiniteLiteral x)

def renderBool (b : Bool) : String := if b then "True" else "False"

def Literal.render : Literal → Except RenderError String
  | .int value => .ok (toString value.toInt)
  | .bool value => .ok (renderBool value)
  | .fixed value => renderReal value

namespace Expression

/-- What is written before the arguments of a call. Functions of the random library are called by
name. -/
def callOpening (library : Library) (function : String) : String :=
  match library with
  | .random => "call_library_function('" ++ library.name ++ "', '" ++ function ++ "', ["
  | _ => library.namespaceName ++ "." ++ function ++ "("

/-- What is written after the arguments of a call. -/
def callClosing : Library → String
  | .random => "])"
  | _ => ")"

mutual

def render : Expression → Except RenderError String
  | .var v => .ok v.text
  | .array name => .ok name
  | .cell name i => do
    let i ← i.render
    return name ++ "[" ++ i ++ "]"
  | .literal value => value.render
  | .binary operator left right => do
    let left ← left.render
    let right ← right.render
    return "(" ++ left ++ operator.symbol ++ right ++ ")"
  | .call library function arguments =>
    if library.supports function then do
      let arguments ← renderArguments arguments
      return callOpening library function ++ arguments ++ callClosing library
    else .error (.unsupportedLibraryFunction library.name function)
  | .length name => .ok (name ++ ".length()")

def renderArguments : List Expression → Except RenderError String
  | [] => .ok ""
  | [e] => e.render
  | e :: rest => do
    let e ← e.render
    let rest ← renderArguments rest
    return e ++ "," ++ rest

end

end Expression

/-- The texts of several expressions with `separator` between them. -/
def renderJoined (separator : String) (expressions : List Expression) : Except RenderError String :=
  (String.intercalate separator) <$> expressions.mapM Expression.render

end Qua
