import Qua.Json
import Qua.Script.Term

/-!
# The syntax of scripts as JSON

Every term and statement is an object with a member named for its form. How a real is written is left
to the caller.
-/

namespace Qua.Script

variable (real : Binary64 → Json)

namespace Term

mutual

def toJson : Term → Json
  | .name text => .object [("name", .string text)]
  | .int value => .object [("int", .string (toString value.toNat))]
  | .float value => .object [("float", real value)]
  | .string value => .object [("str", .string value)]
  | .bool value => .object [("bool", .bool value)]
  | .none => .object [("none", .bool true)]
  | .tuple items => .object [("tuple", .array (toJsonAll items))]
  | .list items => .object [("list", .array (toJsonAll items))]
  | .dict entries => .object [("dict", .array (toJsonEntries entries))]
  | .call function arguments keywords =>
    .object [("call", .object [("function", function.toJson),
      ("arguments", .array (toJsonAll arguments)), ("keywords", .array (toJsonKeywords keywords))])]
  | .attribute value key => .object [("attr", .array [value.toJson, .string key])]
  | .index value position => .object [("index", .array [value.toJson, position.toJson])]
  | .binary operator left right =>
    .object [("binary", .array [.string operator.text, left.toJson, right.toJson])]
  | .unary operator operand =>
    .object [("unary", .array [.string operator.text, operand.toJson])]

def toJsonAll : List Term → List Json
  | [] => []
  | term :: rest => term.toJson :: toJsonAll rest

def toJsonEntries : List (Term × Term) → List Json
  | [] => []
  | (key, value) :: rest => .array [key.toJson, value.toJson] :: toJsonEntries rest

def toJsonKeywords : List (String × Term) → List Json
  | [] => []
  | (key, value) :: rest => .array [.string key, value.toJson] :: toJsonKeywords rest

end

end Term

namespace Stmt

def withLine (line : Nat) (form : String) (content : Json) : Json :=
  .object [("line", .integer line), (form, content)]

def targetJson : Option String → Json
  | none => .null
  | some target => .string target

mutual

def toJson : Stmt → Json
  | .block line context target body =>
    withLine line "with" (.object [("context", context.toJson real), ("target", targetJson target),
      ("body", .array (toJsonBlock body))])
  | .assign line target value =>
    withLine line "assign"
      (.object [("target", target.toJson real), ("value", value.toJson real)])
  | .term line content => withLine line "expr" (content.toJson real)
  | .pass line => withLine line "pass" (.bool true)
  | .importing line module names =>
    withLine line "import"
      (.object [("module", .string module), ("names", .array (names.map Json.string))])

def toJsonBlock : List Stmt → List Json
  | [] => []
  | s :: rest => s.toJson :: toJsonBlock rest

end

end Stmt
end Qua.Script
