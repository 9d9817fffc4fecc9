import Qua.Script.Token
import Qua.Text.Lines

/-!
# Errors of reading a script
-/

namespace Qua.Script

inductive ParseErrorKind
  | unexpectedCharacter
  | unterminatedString
  | invalidNumber (text : String)
  | unmatchedBracket (text : String)
  | unclosedBracket
  | unexpectedIndent
  | inconsistentDedent
  | expectedToken (expected found : String)
  | unexpectedEnd
  deriving DecidableEq, Repr

/-- The name of the cause. -/
def ParseErrorKind.name : ParseErrorKind → String
  | .unexpectedCharacter => "UnexpectedCharacter"
  | .unterminatedString => "UnterminatedString"
  | .invalidNumber _ => "InvalidNumber"
  | .unmatchedBracket _ => "UnmatchedBracket"
  | .unclosedBracket => "UnclosedBracket"
  | .unexpectedIndent => "UnexpectedIndent"
  | .inconsistentDedent => "InconsistentDedent"
  | .expectedToken .. => "ExpectedToken"
  | .unexpectedEnd => "UnexpectedEof"

def ParseErrorKind.message : ParseErrorKind → String
  | .unexpectedCharacter => "unexpected character"
  | .unterminatedString => "unterminated string"
  | .invalidNumber text => "invalid number literal " ++ Text.inspect text
  | .unmatchedBracket text => "unmatched " ++ text
  | .unclosedBracket => "unclosed bracket at end of input"
  | .unexpectedIndent => "unexpected indent"
  | .inconsistentDedent => "unindent does not match any outer indentation level"
  | .expectedToken expected found => "expected " ++ expected ++ ", found " ++ found
  | .unexpectedEnd => "unexpected end of input"

structure ParseError where
  line : Nat
  column : Nat
  snippet : String
  kind : ParseErrorKind
  deriving DecidableEq, Repr

namespace ParseError

def message (e : ParseError) : String :=
  "at line " ++ toString e.line ++ ", column " ++ toString e.column ++ " (" ++ e.snippet ++ "): "
    ++ e.kind.message

def atToken (t : Located) (kind : ParseErrorKind) : ParseError :=
  ⟨t.line, t.column, t.token.text, kind⟩

/-- An error where `text` follows: it shows the first characters of the line. -/
def atText (line column : Nat) (text : List Char) (kind : ParseErrorKind) : ParseError :=
  ⟨line, column, String.ofList ((Text.firstLine text).take 20), kind⟩

/-- There is no token left. -/
def noTokens : ParseError := ⟨0, 0, "", .unexpectedEnd⟩

def expected (t : Located) (what : String) : ParseError :=
  let found := match t.token with
    | .finish => "end of input"
    | token => token.inspect
  atToken t (.expectedToken what found)

end ParseError
end Qua.Script
