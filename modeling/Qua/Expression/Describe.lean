import Qua.Expression.Render

/-!
# Expressions in messages

A message names an expression by its text. Where the expression has none, a call of an unsupported
function is shown in its inspected form, and a literal that is no finite number ends the text.
-/

namespace Qua

/-- The inspected form of a list. -/
def inspectList (items : List String) : String := "[" ++ String.intercalate ", " items ++ "]"

def inspectBool (b : Bool) : String := if b then "true" else "false"

def Literal.inspect : Literal → String
  | .int value => "Int(" ++ toString value.toInt ++ ")"
  | .bool value => "Bool(" ++ inspectBool value ++ ")"
  | .fixed value => "Fixed(" ++ NumberStyle.inspection.write value ++ ")"

def Variable.inspect : Variable → String
  | .named name => "Named(" ++ Text.inspect name ++ ")"
  | .io .io1 => "Io(Io1)"
  | .io .io2 => "Io(Io2)"

namespace Expression

/-- A call in inspected form, around that of its arguments. -/
def inspectCall (library : Library) (function : String) (arguments : List String) : String :=
  "LibraryCall \x7b library: " ++ library.namespaceName ++ ", function: " ++ Text.inspect function
    ++ ", arguments: " ++ inspectList arguments ++ " \x7d"

mutual

/-- The constructors of the expression and what they hold. -/
def inspect : Expression → String
  | .var v => "Variable(" ++ v.inspect ++ ")"
  | .array name => "ArrayVar(" ++ Text.inspect name ++ ")"
  | .cell name i =>
    "ArrayCell(ArrayCell \x7b array: " ++ Text.inspect name ++ ", index: " ++ i.inspect
      ++ " \x7d)"
  | .literal value => "Literal(" ++ value.inspect ++ ")"
  | .binary operator left right =>
    "Binary(BinaryExpression \x7b operator: " ++ operator.name ++ ", left: " ++ left.inspect
      ++ ", right: " ++ right.inspect ++ " \x7d)"
  | .call library function arguments =>
    "LibCall(" ++ inspectCall library function (inspectAll arguments) ++ ")"
  | .length name => "ArrayLength(" ++ Text.inspect name ++ ")"

def inspectAll : List Expression → List String
  | [] => []
  | e :: rest => e.inspect :: inspectAll rest

end

/-- Text that may have been cut short, which then nothing follows. -/
structure Excerpt where
  text : String
  cut : Bool

namespace Excerpt

def whole (text : String) : Excerpt := ⟨text, false⟩

def append (a b : Excerpt) : Excerpt := if a.cut then a else ⟨a.text ++ b.text, b.cut⟩

instance : Append Excerpt := ⟨append⟩

end Excerpt

mutual

/-- The text of an expression as far as it goes. -/
def excerpt : Expression → Excerpt
  | .cell name i => .whole (name ++ "[") ++ i.excerpt ++ .whole "]"
  | .literal value =>
    match value.render with
    | .ok text => .whole text
    | .error _ => ⟨"", true⟩
  | .binary operator left right =>
    .whole "(" ++ left.excerpt ++ .whole operator.symbol ++ right.excerpt ++ .whole ")"
  | .call library function arguments =>
    if library.supports function then
      .whole (callOpening library function) ++ excerptArguments arguments
        ++ .whole (callClosing library)
    else .whole (inspectCall library function (inspectAll arguments))
  | .var v => .whole v.text
  | .array name => .whole name
  | .length name => .whole (name ++ ".length()")

def excerptArguments : List Expression → Excerpt
  | [] => .whole ""
  | [e] => e.excerpt
  | e :: rest => e.excerpt ++ .whole "," ++ excerptArguments rest

end

/-- How a message names the expression. -/
def describe (e : Expression) : String := e.excerpt.text

/-- The cell of an array at a scalar index. -/
def index (array index : Expression) : Except ExpressionError Expression :=
  match array with
  | .array name =>
    if index.isScalar then .ok (.cell name index) else .error (.notAScalar index.describe)
  | other => .error (.notAnArray other.describe)

/-- The length of an array. -/
def lengthOf (array : Expression) : Except ExpressionError Expression :=
  match array with
  | .array name => .ok (.length name)
  | other => .error (.notAnArray other.describe)

end Expression
end Qua
