import Qua.Script.Lexer

/-!
# Layout

Lines and their indentation as tokens. Line breaks inside brackets and of blank lines are dropped; a
deeper line opens a block, and a shallower one closes blocks down to a level that is open.
-/

namespace Qua.Script

/-- The number of levels that a line at `column` closes, and the levels that stay open. The innermost
level comes first. -/
def closeLevels (column : Nat) : List Nat → Nat × List Nat
  | [] => (0, [])
  | level :: outer =>
    if column < level then
      let (n, levels) := closeLevels column outer
      (n + 1, levels)
    else (0, level :: outer)

/-- What the first token of a line says about indentation: the layout tokens before it, and the levels
open after them. -/
def indentLine (levels : List Nat) (first : Located) :
    Except ParseError (List Located × List Nat) :=
  if levels.head?.any (· < first.column) then
    .ok ([first.with .indent], first.column :: levels)
  else
    let (n, levels) := closeLevels first.column levels
    if levels.head? = some first.column then .ok (List.replicate n (first.with .dedent), levels)
    else .error (.atToken first .inconsistentDedent)

/-- The number of brackets open after a token. -/
def bracketDepth (depth : Nat) (t : Located) : Except ParseError Nat :=
  match t.token with
  | .leftParen | .leftBracket | .leftBrace => .ok (depth + 1)
  | .rightParen | .rightBracket | .rightBrace =>
    if depth = 0 then .error (.atToken t (.unmatchedBracket t.token.text)) else .ok (depth - 1)
  | _ => .ok depth

/-- What ends the script: the line that is not ended, and the open levels. -/
def closing (levels : List Nat) (atLineStart : Bool) (finish : Located) : List Located :=
  (if atLineStart then [] else [finish.with .newLine])
    ++ List.replicate (levels.length - 1) (finish.with .dedent) ++ [finish]

/-- The layout of tokens, with the levels and the number of brackets open before them. -/
def layoutFrom (levels : List Nat) (depth : Nat) (atLineStart : Bool) :
    List Located → Except ParseError (List Located)
  | [] => .ok []
  | t :: rest =>
    match t.token with
    | .newLine =>
      if depth = 0 && !atLineStart then do
        let rest ← layoutFrom levels depth true rest
        return t :: rest
      else layoutFrom levels depth atLineStart rest
    | .finish =>
      if 0 < depth then .error (.atToken t .unclosedBracket)
      else .ok (closing levels atLineStart t)
    | _ => do
      let (marks, levels) ← if atLineStart then indentLine levels t else .ok ([], levels)
      let depth ← bracketDepth depth t
      let rest ← layoutFrom levels depth false rest
      return marks ++ t :: rest

def layout (tokens : List Located) : Except ParseError (List Located) :=
  layoutFrom [1] 0 true tokens

/-- The tokens of a script with its layout. -/
def lex (script : String) : Except ParseError (List Located) := do
  let tokens ← scan script
  layout tokens

end Qua.Script
