import Qua.Script.Layout
import Qua.Script.Term

/-!
# Parsing terms

Binary operators associate to the left on seven levels; `not` reaches as far as its term does, and the
other unary operators bind tighter than all binary ones. Each function gives back the tokens that it
leaves. The fuel bounds the nesting of calls: a term of `n` tokens needs no more than eight times as
much.
-/

namespace Qua.Script

/-- Reads off the front of the tokens. -/
abbrev Parser (α : Type) := StateT (List Located) (Except ParseError) α

namespace Parser

/-- The first token, which stays. -/
def peek : Parser Located := fun tokens =>
  match tokens with
  | [] => .error .noTokens
  | t :: _ => .ok (t, tokens)

/-- The first token, which is taken. -/
def next : Parser Located := fun tokens =>
  match tokens with
  | [] => .error .noTokens
  | t :: rest => .ok (t, rest)

/-- Drops the first token. -/
def skip : Parser Unit := do
  let _ ← next

/-- Takes a token that has to be the given one. -/
def expect (token : Token) : Parser Unit := do
  let t ← next
  if t.token = token then return () else throw (.expected t token.text)

/-- Takes a name. -/
def takeName (what : String) : Parser String := do
  let t ← next
  match t.token with
  | .name text => return text
  | _ => throw (.expected t what)

/-- The name of a keyword argument, if the tokens start with one and an equals sign. -/
def keywordName? : Parser (Option String) := fun tokens =>
  match tokens with
  | ⟨.name text, _, _⟩ :: ⟨.equals, _, _⟩ :: _ => .ok (some text, tokens)
  | _ => .ok (none, tokens)

/-- After an item: a comma is taken, and the closing token is left. -/
def separator (closing : Token) : Parser Unit := do
  let t ← peek
  if t.token = .comma then skip
  else if t.token = closing then return ()
  else throw (.expected t ("`,` or `" ++ closing.text ++ "`"))

def outOfFuel : Parser α := throw .noTokens

end Parser

/-- How tightly a binary operator binds. -/
def Operator.level? : Operator → Option Nat
  | .doubleEquals | .notEquals | .less | .lessEqual | .greater | .greaterEqual => some 1
  | .pipe => some 2
  | .caret => some 3
  | .ampersand => some 4
  | .shiftLeft | .shiftRight => some 5
  | .plus | .minus => some 6
  | .star | .slash => some 7
  | .tilde => none

/-- The unary operator that a token is before an operand. -/
def Token.unary? : Token → Option UnaryOperator
  | .operator .minus => some .minus
  | .operator .plus => some .plus
  | .operator .tilde => some .invert
  | _ => none

/-- The term that a token is by itself. -/
def Token.atom? : Token → Option Term
  | .name text => some (.name text)
  | .integer value => some (.int value)
  | .float value => some (.float value)
  | .string value => some (.string value)
  | .keyword .true_ => some (.bool true)
  | .keyword .false_ => some (.bool false)
  | .keyword .none_ => some .none
  | _ => none

namespace Parser

mutual

def term : Nat → Parser Term
  | 0 => outOfFuel
  | fuel + 1 => do
    let t ← peek
    if t.token = .keyword .not_ then
      skip
      let operand ← term fuel
      return .unary .not operand
    else operation 0 fuel

/-- An operand and the operations that follow with operators above a level. -/
def operation (level : Nat) : Nat → Parser Term
  | 0 => outOfFuel
  | fuel + 1 => do
    let left ← operand fuel
    operations level left fuel

/-- The operations that follow a term, with operators above a level. -/
def operations (level : Nat) (left : Term) : Nat → Parser Term
  | 0 => outOfFuel
  | fuel + 1 => do
    let t ← peek
    match t.token with
    | .operator op =>
      match op.level? with
      | some above =>
        if level < above then
          skip
          let right ← operation above fuel
          operations level (.binary op left right) fuel
        else return left
      | none => return left
    | _ => return left

/-- An operand with its unary operators. -/
def operand : Nat → Parser Term
  | 0 => outOfFuel
  | fuel + 1 => do
    let t ← peek
    match t.token.unary? with
    | some op =>
      skip
      let operand ← operand fuel
      return .unary op operand
    | none =>
      let value ← atom fuel
      postfixes value fuel

/-- The calls, attributes and indices that follow a term. -/
def postfixes (value : Term) : Nat → Parser Term
  | 0 => outOfFuel
  | fuel + 1 => do
    let t ← peek
    match t.token with
    | .leftParen =>
      skip
      let (positional, keywords) ← arguments false fuel
      postfixes (.call value positional keywords) fuel
    | .dot =>
      skip
      let name ← takeName "an attribute name"
      postfixes (.attribute value name) fuel
    | .leftBracket =>
      skip
      let index ← term fuel
      expect .rightBracket
      postfixes (.index value index) fuel
    | _ => return value

/-- A term that starts with its first token. -/
def atom : Nat → Parser Term
  | 0 => outOfFuel
  | fuel + 1 => do
    let t ← next
    match t.token with
    | .leftParen => parenthesized fuel
    | .leftBracket => Term.list <$> items .rightBracket fuel
    | .leftBrace => Term.dict <$> entries fuel
    | token =>
      match token.atom? with
      | some value => return value
      | none => throw (.expected t "an expression")

/-- After an opening parenthesis: one term, or with a comma a tuple. -/
def parenthesized : Nat → Parser Term
  | 0 => outOfFuel
  | fuel + 1 => do
    let t ← peek
    if t.token = .rightParen then
      skip
      return .tuple []
    else
      let item ← term fuel
      let t ← next
      match t.token with
      | .rightParen => return item
      | .comma =>
        let rest ← items .rightParen fuel
        return .tuple (item :: rest)
      | _ => throw (.expected t "`,` or `)`")

/-- Items up to a closing token, which is taken. -/
def items (closing : Token) : Nat → Parser (List Term)
  | 0 => outOfFuel
  | fuel + 1 => do
    let t ← peek
    if t.token = closing then
      skip
      return []
    else
      let item ← term fuel
      separator closing
      let rest ← items closing fuel
      return item :: rest

/-- The entries of a dictionary up to its brace. -/
def entries : Nat → Parser (List (Term × Term))
  | 0 => outOfFuel
  | fuel + 1 => do
    let t ← peek
    if t.token = .rightBrace then
      skip
      return []
    else
      let key ← term fuel
      expect .colon
      let value ← term fuel
      separator .rightBrace
      let rest ← entries fuel
      return (key, value) :: rest

/-- The arguments of a call up to its parenthesis; after a keyword argument all have keywords. -/
def arguments (afterKeyword : Bool) : Nat → Parser (List Term × List (String × Term))
  | 0 => outOfFuel
  | fuel + 1 => do
    let t ← peek
    if t.token = .rightParen then
      skip
      return ([], [])
    else
      match ← keywordName? with
      | some name =>
        skip
        skip
        let value ← term fuel
        separator .rightParen
        let (positional, keywords) ← arguments true fuel
        return (positional, (name, value) :: keywords)
      | none =>
        if afterKeyword then throw (.expected t "a keyword argument")
        else
          let value ← term fuel
          separator .rightParen
          let (positional, keywords) ← arguments false fuel
          return (value :: positional, keywords)

end

/-- A term, with fuel for all tokens that are left. -/
def expression : Parser Term := fun tokens => term (8 * tokens.length + 8) tokens

/-- A dotted name after its first part. -/
def dottedTail : Nat → String → Parser String
  | 0, _ => outOfFuel
  | fuel + 1, name => fun tokens =>
    match tokens with
    | ⟨.dot, _, _⟩ :: rest => (do
        let part ← takeName "a name"
        dottedTail fuel (name ++ "." ++ part)) rest
    | _ => .ok (name, tokens)

def dottedName : Parser String := do
  let name ← takeName "a name"
  fun tokens => dottedTail (tokens.length + 1) name tokens

/-- The names that follow an imported name. -/
def importTail : Nat → Parser (List String)
  | 0 => outOfFuel
  | fuel + 1 => fun tokens =>
    match tokens with
    | ⟨.comma, _, _⟩ :: rest => (do
        let name ← takeName "a name"
        let names ← importTail fuel
        return name :: names) rest
    | _ => .ok ([], tokens)

/-- What is taken from a module: a star, or names. -/
def importNames : Parser (List String) := do
  let t ← peek
  if t.token = .operator .star then
    skip
    return ["*"]
  else
    let name ← takeName "a name"
    let names ← fun tokens => importTail (tokens.length + 1) tokens
    return name :: names

/-- A statement on one line, without the end of the line. -/
def simpleContent : Parser Stmt := do
  let t ← peek
  match t.token with
  | .keyword .pass_ =>
    skip
    return .pass t.line
  | .keyword .import_ =>
    skip
    let module ← dottedName
    return .importing t.line module []
  | .keyword .from_ =>
    skip
    let module ← dottedName
    expect (.keyword .import_)
    let names ← importNames
    return .importing t.line module names
  | _ =>
    let target ← expression
    let after ← peek
    if after.token = .equals then
      skip
      let value ← expression
      return .assign t.line target value
    else return .term t.line target

/-- A statement on one line. -/
def simple : Parser Stmt := do
  let statement ← simpleContent
  expect .newLine
  return statement

/-- The name that a block gives to its context. -/
def blockTarget : Parser (Option String) := do
  let t ← peek
  if t.token = .keyword .as_ then
    skip
    some <$> takeName "a name"
  else return none

mutual

/-- Statements up to a token that ends their block, which is taken. -/
def block (terminator : Token) : Nat → Parser (List Stmt)
  | 0 => outOfFuel
  | fuel + 1 => do
    let t ← peek
    if t.token = terminator then
      skip
      return []
    else if t.token = .indent then throw (.atToken t .unexpectedIndent)
    else
      let first ← statement fuel
      let rest ← block terminator fuel
      return first :: rest

def statement : Nat → Parser Stmt
  | 0 => outOfFuel
  | fuel + 1 => do
    let t ← peek
    if t.token = .keyword .with_ then
      skip
      let context ← expression
      let target ← blockTarget
      expect .colon
      let body ← suite fuel
      return .block t.line context target body
    else simple

/-- The body of a block: one statement on the same line, or indented lines. -/
def suite : Nat → Parser (List Stmt)
  | 0 => outOfFuel
  | fuel + 1 => do
    let t ← peek
    if t.token = .newLine then
      skip
      expect .indent
      block .dedent fuel
    else
      let only ← simple
      return [only]

end

end Parser

/-- The statements of a script. -/
def parse (script : String) : Except ParseError (List Stmt) := do
  let tokens ← lex script
  let (statements, _) ← Parser.block .finish (3 * tokens.length + 3) tokens
  return statements

end Qua.Script
