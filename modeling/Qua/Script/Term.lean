import Qua.Script.Token

/-!
# The syntax of scripts

Terms and statements as they are written, before any name has a meaning.
-/

namespace Qua.Script

inductive UnaryOperator
  | minus
  | plus
  | invert
  | not
  deriving DecidableEq, Repr

def UnaryOperator.text : UnaryOperator → String
  | .minus => "-"
  | .plus => "+"
  | .invert => "~"
  | .not => "not"

inductive Term
  | name (text : String)
  | int (value : UInt64)
  | float (value : Binary64)
  | string (value : String)
  | bool (value : Bool)
  | none
  | tuple (items : List Term)
  | list (items : List Term)
  | dict (entries : List (Term × Term))
  | call (function : Term) (arguments : List Term) (keywords : List (String × Term))
  | attribute (value : Term) (name : String)
  | index (value index : Term)
  | binary (operator : Operator) (left right : Term)
  | unary (operator : UnaryOperator) (operand : Term)
  deriving Repr

instance : Inhabited Term := ⟨.none⟩

def Term.name? : Term → Option String
  | .name text => some text
  | _ => Option.none

/-- A statement with the number of its line. -/
inductive Stmt
  | block (line : Nat) (context : Term) (target : Option String) (body : List Stmt)
  | assign (line : Nat) (target value : Term)
  | term (line : Nat) (term : Term)
  | pass (line : Nat)
  /-- An import names a module and, with `from`, what is taken from it. -/
  | importing (line : Nat) (module : String) (names : List String)
  deriving Repr

def Stmt.line : Stmt → Nat
  | .block line .. => line
  | .assign line .. => line
  | .term line _ => line
  | .pass line => line
  | .importing line .. => line

end Qua.Script
