import Qua.Library
import Qua.Literal

/-!
# Expressions

What a program computes while it runs. Expressions are formed without being evaluated, and literals
are never folded.
-/

namespace Qua

/-- The two registers through which a program exchanges values with the outside. -/
inductive Register
  | io1
  | io2
  deriving DecidableEq, Repr

namespace Register

def all : List Register := [.io1, .io2]

def name : Register → String
  | .io1 => "IO1"
  | .io2 => "IO2"

def ofName? : String → Option Register
  | "IO1" => some .io1
  | "IO2" => some .io2
  | _ => none

end Register

inductive Variable
  | named (name : String)
  | io (register : Register)
  deriving DecidableEq, Repr

def Variable.text : Variable → String
  | .named name => name
  | .io r => r.name

inductive BinaryOperator
  | add
  | sub
  | mul
  | div
  | shl
  | shr
  | and
  | or
  | xor
  | eq
  | lt
  | le
  | gt
  | ge
  deriving DecidableEq, Repr

namespace BinaryOperator

def all : List BinaryOperator :=
  [.add, .sub, .mul, .div, .shl, .shr, .and, .or, .xor, .eq, .lt, .le, .gt, .ge]

def symbol : BinaryOperator → String
  | .add => "+"
  | .sub => "-"
  | .mul => "*"
  | .div => "/"
  | .shl => "<<"
  | .shr => ">>"
  | .and => "&"
  | .or => "|"
  | .xor => "^"
  | .eq => "=="
  | .lt => "<"
  | .le => "<="
  | .gt => ">"
  | .ge => ">="

/-- The name of the operator in stored and inspected programs. -/
def name : BinaryOperator → String
  | .add => "Add"
  | .sub => "Sub"
  | .mul => "Mul"
  | .div => "Div"
  | .shl => "Shl"
  | .shr => "Shr"
  | .and => "And"
  | .or => "Or"
  | .xor => "Xor"
  | .eq => "Eq"
  | .lt => "Lt"
  | .le => "Le"
  | .gt => "Gt"
  | .ge => "Ge"

def ofSymbol? (text : String) : Option BinaryOperator := all.find? fun op => op.symbol = text

end BinaryOperator

inductive Expression
  | var (v : Variable)
  /-- A whole array, which only some positions accept. -/
  | array (name : String)
  | cell (array : String) (index : Expression)
  | literal (value : Literal)
  | binary (operator : BinaryOperator) (left right : Expression)
  /-- A library call; the function need not be a supported one. -/
  | call (library : Library) (function : String) (arguments : List Expression)
  /-- The length of an array. -/
  | length (array : String)
  deriving Repr

namespace Expression

instance : Inhabited Expression := ⟨.literal (.bool false)⟩

def named (name : String) : Expression := .var (.named name)

def bool (value : Bool) : Expression := .literal (.bool value)

def int (value : Int32) : Expression := .literal (.int value)

def fixed (value : Binary64) : Expression := .literal (.fixed value)

/-- Everything but a whole array. -/
def isScalar : Expression → Bool
  | .array _ => false
  | _ => true

/-- The name of a variable that is not a register. -/
def variableName? : Expression → Option String
  | .var (.named name) => some name
  | _ => none

def arrayName? : Expression → Option String
  | .array name => some name
  | _ => none

def literal? : Expression → Option Literal
  | .literal value => some value
  | _ => none

/-- The negation is a subtraction from zero. -/
def neg (e : Expression) : Expression := .binary .sub (int 0) e

/-- The complement is the exclusive or with true. -/
def complement (e : Expression) : Expression := .binary .xor e (bool true)

mutual

/-- Equality of expressions, in which literals are compared by `Literal.same`. -/
def same : Expression → Expression → Bool
  | .var a, .var b => a == b
  | .array a, .array b => a == b
  | .cell a i, .cell b j => a == b && same i j
  | .literal a, .literal b => a.same b
  | .binary o l r, .binary p m s => o == p && same l m && same r s
  | .call l f as, .call m g bs => l == m && f == g && sameAll as bs
  | .length a, .length b => a == b
  | _, _ => false

def sameAll : List Expression → List Expression → Bool
  | [], [] => true
  | a :: as, b :: bs => same a b && sameAll as bs
  | _, _ => false

end

instance : BEq Expression := ⟨same⟩

end Expression
end Qua
