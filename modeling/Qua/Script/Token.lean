import Qua.Binary64.Text
import Qua.Text.Inspected
import Qua.Text.Quoted

/-!
# Tokens of a script

The words of a script, and three tokens for its layout: the end of a line, and the beginning and end
of an indented block.
-/

namespace Qua.Script

inductive Keyword
  | as_
  | false_
  | from_
  | import_
  | none_
  | not_
  | pass_
  | true_
  | with_
  deriving DecidableEq, Repr

namespace Keyword

def all : List Keyword :=
  [.as_, .false_, .from_, .import_, .none_, .not_, .pass_, .true_, .with_]

def text : Keyword → String
  | .as_ => "as"
  | .false_ => "False"
  | .from_ => "from"
  | .import_ => "import"
  | .none_ => "None"
  | .not_ => "not"
  | .pass_ => "pass"
  | .true_ => "True"
  | .with_ => "with"

def ofText? (word : String) : Option Keyword := all.find? fun keyword => keyword.text = word

end Keyword

inductive Operator
  | ampersand
  | caret
  | doubleEquals
  | greater
  | greaterEqual
  | less
  | lessEqual
  | minus
  | notEquals
  | pipe
  | plus
  | shiftLeft
  | shiftRight
  | slash
  | star
  | tilde
  deriving DecidableEq, Repr

def Operator.text : Operator → String
  | .ampersand => "&"
  | .caret => "^"
  | .doubleEquals => "=="
  | .greater => ">"
  | .greaterEqual => ">="
  | .less => "<"
  | .lessEqual => "<="
  | .minus => "-"
  | .notEquals => "!="
  | .pipe => "|"
  | .plus => "+"
  | .shiftLeft => "<<"
  | .shiftRight => ">>"
  | .slash => "/"
  | .star => "*"
  | .tilde => "~"

inductive Token
  | colon
  | comma
  | dedent
  | dot
  | equals
  /-- The end of the script. -/
  | finish
  | float (value : Binary64)
  | indent
  | integer (value : UInt64)
  | keyword (keyword : Keyword)
  | leftBrace
  | leftBracket
  | leftParen
  | name (text : String)
  | newLine
  | operator (operator : Operator)
  | rightBrace
  | rightBracket
  | rightParen
  | string (value : String)
  deriving DecidableEq, Repr

namespace Token

/-- The token as it is called in a message. -/
def text : Token → String
  | .colon => ":"
  | .comma => ","
  | .dedent => "DEDENT"
  | .dot => "."
  | .equals => "="
  | .finish => "end of input"
  | .float value => NumberStyle.sentence.write value
  | .indent => "INDENT"
  | .integer value => toString value.toNat
  | .keyword k => k.text
  | .leftBrace => "\x7b"
  | .leftBracket => "["
  | .leftParen => "("
  | .name text => text
  | .newLine => "NEWLINE"
  | .operator op => op.text
  | .rightBrace => "\x7d"
  | .rightBracket => "]"
  | .rightParen => ")"
  | .string value => Text.quote value

/-- The token with its class, as it is called where another was expected. -/
def inspect : Token → String
  | .float value => "FLOAT(" ++ NumberStyle.sentence.write value ++ ")"
  | .integer value => "INTEGER(" ++ toString value.toNat ++ ")"
  | .keyword k => "KEYWORD(" ++ k.text ++ ")"
  | .name text => "NAME(" ++ text ++ ")"
  | .operator op => "OPERATOR(" ++ op.text ++ ")"
  | .string value => "STRING(" ++ Text.inspect value ++ ")"
  | other => other.text

end Token

/-- A token and where it starts: lines and columns are counted from one, columns in characters. -/
structure Located where
  token : Token
  line : Nat
  column : Nat
  deriving DecidableEq, Repr

/-- Another token at the same place. -/
def Located.with (t : Located) (token : Token) : Located := { t with token := token }

end Qua.Script
