import Qua.Stream.Function
import Qua.Stream.Source

/-!
# Stream operators

The operators from which pipelines are composed. An operator puts its name first and what it reads
from last; arithmetic has its two operands in order.
-/

namespace Qua

inductive ArithmeticOperator
  | add
  | subtract
  | multiply
  | divide
  deriving DecidableEq, Repr

namespace ArithmeticOperator

def all : List ArithmeticOperator := [.add, .subtract, .multiply, .divide]

def symbol : ArithmeticOperator → String
  | .add => "+"
  | .subtract => "-"
  | .multiply => "*"
  | .divide => "/"

def ofSymbol? (text : String) : Option ArithmeticOperator := all.find? fun op => op.symbol = text

end ArithmeticOperator

/-- An operand of stream arithmetic. -/
inductive StreamOperand
  | stream (token : StreamToken)
  | number (value : StreamNumber)
  | vector (values : List StreamNumber)
  deriving DecidableEq, Repr

def StreamOperand.token : StreamOperand → StreamToken
  | .stream token => token
  | .number value => .number value
  | .vector values => .vector values

namespace StreamToken

/-- An operator with arguments, applied to the stream `parent`. -/
def apply (operator : String) (arguments : List StreamToken) (parent : StreamToken) : StreamToken :=
  .list (.atom operator :: (arguments ++ [parent]))

def average (parent : StreamToken) : StreamToken := apply "average" [] parent

def buffer (dimensions : List Int64) (parent : StreamToken) : StreamToken :=
  apply "buffer" (dimensions.map integer) parent

def bufferAndSkip (length skip : Int64) (parent : StreamToken) : StreamToken :=
  apply "bufferAndSkip" [integer length, integer skip] parent

def map (function : StreamFunction) (parent : StreamToken) : StreamToken :=
  apply "map" [function.token] parent

def flatten (parent : StreamToken) : StreamToken := apply "flatten" [] parent

def skip (length : Int64) (parent : StreamToken) : StreamToken :=
  apply "skip" [integer length] parent

def skipLast (length : Int64) (parent : StreamToken) : StreamToken :=
  apply "skipLast" [integer length] parent

def take (length : Int64) (parent : StreamToken) : StreamToken :=
  apply "take" [integer length] parent

def histogram (bins : List (List StreamNumber)) (parent : StreamToken) : StreamToken :=
  apply "histogram" [.list (.atom vectorSymbol :: bins.map vector)] parent

def zip (other parent : StreamToken) : StreamToken := apply "zip" [other] parent

def arithmetic (operator : ArithmeticOperator) (left right : StreamOperand) : StreamToken :=
  .list [.atom operator.symbol, left.token, right.token]

end StreamToken
end Qua
