import Qua.Binary64.Rounding
import Qua.Script.ParseError
import Qua.Text.Affix

/-!
# Lexemes

The text of a script as tokens, line breaks being tokens too. Blanks, comments and escaped line breaks
separate tokens and are skipped. A lexeme is the longest one that the text starts with.
-/

namespace Qua.Script

open Text (digitsValue)

structure Position where
  line : Nat := 1
  column : Nat := 1
  deriving DecidableEq, Repr

namespace Position

/-- The position after a character. -/
def next (p : Position) (c : Char) : Position :=
  if c = '\n' then ⟨p.line + 1, 1⟩ else ⟨p.line, p.column + 1⟩

/-- The position after some text. -/
def after (p : Position) (text : List Char) : Position := text.foldl next p

end Position

/-- Skips what separates tokens, from inside a comment or not. A line break ends a comment and is not
skipped unless it is escaped. -/
def skipTrivia (inComment : Bool) (p : Position) : List Char → Position × List Char
  | [] => (p, [])
  | '\\' :: '\n' :: rest =>
    if inComment then (p.next '\\', '\n' :: rest)
    else skipTrivia false ((p.next '\\').next '\n') rest
  | '\\' :: '\r' :: '\n' :: rest =>
    if inComment then (((p.next '\\').next '\r'), '\n' :: rest)
    else skipTrivia false (((p.next '\\').next '\r').next '\n') rest
  | c :: rest =>
    if inComment then
      if c = '\n' then (p, c :: rest) else skipTrivia true (p.next c) rest
    else if c = ' ' ∨ c = '\t' ∨ c = '\r' ∨ c = '\x0c' then skipTrivia false (p.next c) rest
    else if c = '#' then skipTrivia true (p.next c) rest
    else (p, c :: rest)

/-- A token, its text, and the text that follows. -/
structure Lexeme where
  token : Token
  text : List Char
  rest : List Char

/-- The point and the digits of a fraction, if there is a point. -/
def fractionText : List Char → List Char
  | '.' :: rest => '.' :: rest.takeWhile Char.isDigit
  | _ => []

/-- The sign of an exponent, if there is one. -/
def signText : List Char → List Char
  | '+' :: _ => ['+']
  | '-' :: _ => ['-']
  | _ => []

/-- The exponent that the text starts with; without digits it is none. -/
def exponentText : List Char → List Char
  | c :: rest =>
    if c = 'e' ∨ c = 'E' then
      let sign := signText rest
      let digits := (rest.drop sign.length).takeWhile Char.isDigit
      if digits.isEmpty then [] else c :: (sign ++ digits)
    else []
  | [] => []

/-- The value of an exponent's text. -/
def exponentValue (text : List Char) : Int :=
  match text.drop 1 with
  | '-' :: digits => -(digitsValue digits : Int)
  | '+' :: digits => digitsValue digits
  | digits => digitsValue digits

/-- A number that starts with a digit: with a fraction or an exponent it is a real, else an integer
of at most 64 bits. -/
def numberLexeme (text : List Char) : Except ParseErrorKind Lexeme :=
  let whole := text.takeWhile Char.isDigit
  let rest := text.drop whole.length
  let fraction := fractionText rest
  let rest := rest.drop fraction.length
  let exponent := exponentText rest
  let rest := rest.drop exponent.length
  let number := whole ++ fraction ++ exponent
  if fraction.isEmpty && exponent.isEmpty then
    let n := digitsValue whole
    if n < UInt64.size then .ok ⟨.integer (UInt64.ofNat n), number, rest⟩
    else .error (.invalidNumber (String.ofList number))
  else
    let digits := whole ++ fraction.drop 1
    let value := Binary64.ofDecimal false (digitsValue digits)
      (exponentValue exponent - (fraction.drop 1).length)
    .ok ⟨.float value, number, rest⟩

/-- A name or a keyword. -/
def nameLexeme (text : List Char) : Lexeme :=
  let word := text.takeWhile Text.isNamePart
  let name := String.ofList word
  let token := match Keyword.ofText? name with
    | some keyword => .keyword keyword
    | none => .name name
  ⟨token, word, text.drop word.length⟩

/-- A string literal, the text being what follows its opening quote. -/
def stringLexeme (quote : Char) (text : List Char) : Except ParseErrorKind Lexeme :=
  match Text.unquote quote text with
  | some (value, rest) =>
    .ok ⟨.string (String.ofList value), quote :: text.take (text.length - rest.length), rest⟩
  | none => .error .unterminatedString

/-- An operator or a punctuation mark. -/
def symbolLexeme : List Char → Option Lexeme
  | '<' :: '<' :: rest => some ⟨.operator .shiftLeft, ['<', '<'], rest⟩
  | '>' :: '>' :: rest => some ⟨.operator .shiftRight, ['>', '>'], rest⟩
  | '<' :: '=' :: rest => some ⟨.operator .lessEqual, ['<', '='], rest⟩
  | '>' :: '=' :: rest => some ⟨.operator .greaterEqual, ['>', '='], rest⟩
  | '=' :: '=' :: rest => some ⟨.operator .doubleEquals, ['=', '='], rest⟩
  | '!' :: '=' :: rest => some ⟨.operator .notEquals, ['!', '='], rest⟩
  | '<' :: rest => some ⟨.operator .less, ['<'], rest⟩
  | '>' :: rest => some ⟨.operator .greater, ['>'], rest⟩
  | '+' :: rest => some ⟨.operator .plus, ['+'], rest⟩
  | '-' :: rest => some ⟨.operator .minus, ['-'], rest⟩
  | '*' :: rest => some ⟨.operator .star, ['*'], rest⟩
  | '/' :: rest => some ⟨.operator .slash, ['/'], rest⟩
  | '&' :: rest => some ⟨.operator .ampersand, ['&'], rest⟩
  | '|' :: rest => some ⟨.operator .pipe, ['|'], rest⟩
  | '^' :: rest => some ⟨.operator .caret, ['^'], rest⟩
  | '~' :: rest => some ⟨.operator .tilde, ['~'], rest⟩
  | ':' :: rest => some ⟨.colon, [':'], rest⟩
  | ',' :: rest => some ⟨.comma, [','], rest⟩
  | '.' :: rest => some ⟨.dot, ['.'], rest⟩
  | '=' :: rest => some ⟨.equals, ['='], rest⟩
  | '\x7b' :: rest => some ⟨.leftBrace, ['\x7b'], rest⟩
  | '\x7d' :: rest => some ⟨.rightBrace, ['\x7d'], rest⟩
  | '[' :: rest => some ⟨.leftBracket, ['['], rest⟩
  | ']' :: rest => some ⟨.rightBracket, [']'], rest⟩
  | '(' :: rest => some ⟨.leftParen, ['('], rest⟩
  | ')' :: rest => some ⟨.rightParen, [')'], rest⟩
  | _ => none

/-- The lexeme that a text starts with. -/
def lexeme (text : List Char) : Except ParseErrorKind Lexeme :=
  match text with
  | [] => .error .unexpectedCharacter
  | c :: rest =>
    if c = '\n' then .ok ⟨.newLine, [c], rest⟩
    else if c = '"' ∨ c = '\'' then stringLexeme c rest
    else if c.isDigit then numberLexeme text
    else if Text.isNameStart c then .ok (nameLexeme text)
    else
      match symbolLexeme text with
      | some lexeme => .ok lexeme
      | none => .error .unexpectedCharacter

/-- The tokens of a text and its end. Every lexeme has a character, so that the fuel need not exceed
the length of the text. -/
def scanFrom : Nat → Position → List Char → Except ParseError (List Located)
  | 0, _, _ => .ok []
  | fuel + 1, p, text =>
    let (p, text) := skipTrivia false p text
    if text.isEmpty then .ok [⟨.finish, p.line, p.column⟩]
    else
      match lexeme text with
      | .error kind => .error (.atText p.line p.column text kind)
      | .ok found => do
        let rest ← scanFrom fuel (p.after found.text) found.rest
        return ⟨found.token, p.line, p.column⟩ :: rest

/-- The tokens of a script, line breaks included. -/
def scan (script : String) : Except ParseError (List Located) :=
  let text := script.toList
  scanFrom (text.length + 1) {} text

end Qua.Script
