import Qua.Build.Block
import Qua.Build.Library
import Qua.Replay.Error
import Qua.Script.Term
import Qua.Stream.Operator

/-!
# Values

What the terms of a script stand for while it is replayed, and what operators make of them. Numbers
stay numbers until a position needs an expression; then they are literals.
-/

namespace Qua.Replay

inductive Value
  | none
  | bool (value : Bool)
  | int (value : Int64)
  | float (value : Binary64)
  | string (value : String)
  | list (items : List Value)
  | tuple (items : List Value)
  /-- A dictionary, of which nothing is kept. -/
  | dict
  | expression (value : Expression)
  | type (scalarType : ScalarType)
  | source (source : ResultSource)
  | stream (token : StreamToken)
  | function (function : StreamFunction)
  | pulse (pulse : Pulse) (amp : Option Amp)
  | amp (amp : Amp)
  | process (process : MeasureProcess)

namespace Value

/-- What a message calls the value. -/
def kind : Value → String
  | .none => "None"
  | .bool _ => "a bool"
  | .int _ => "an int"
  | .float _ => "a float"
  | .string _ => "a string"
  | .list _ => "a list"
  | .tuple _ => "a tuple"
  | .dict => "a dict"
  | .expression _ => "a QUA expression"
  | .type _ => "a QUA type"
  | .source _ => "a declared stream"
  | .stream _ => "a result stream"
  | .function _ => "a stream function"
  | .pulse .. => "a pulse"
  | .amp _ => "an amp"
  | .process _ => "a measure process"

def mismatch (value : Value) (expected : String) : Faulty α :=
  .error (.typeMismatch expected value.kind)

def isNone : Value → Bool
  | .none => true
  | _ => false

def isStream : Value → Bool
  | .source _ => true
  | .stream _ => true
  | _ => false

def toLiteral : Value → Faulty Literal
  | .bool value => .ok (.bool value)
  | .int value => Faulty.ofExpression (Literal.ofInt value.toInt)
  | .float value => .ok (.fixed value)
  | .expression (.literal value) => .ok value
  | other => other.mismatch "a literal"

def toLiterals (items : List Value) : Faulty (List Literal) := items.mapM toLiteral

def toExpression : Value → Faulty Expression
  | .expression value => .ok value
  | other => Expression.literal <$> other.toLiteral

def toText : Value → Faulty String
  | .string value => .ok value
  | other => other.mismatch "a string"

def toInt : Value → Faulty Int64
  | .int value => .ok value
  | other => other.mismatch "an int"

def toBool : Value → Faulty Bool
  | .bool value => .ok value
  | other => other.mismatch "a bool"

def toType : Value → Faulty ScalarType
  | .type scalarType => .ok scalarType
  | other => other.mismatch "int, fixed or bool"

def toItems : Value → Faulty (List Value)
  | .list items => .ok items
  | .tuple items => .ok items
  | other => other.mismatch "a list"

def toInts (value : Value) : Faulty (List Int64) := do
  let items ← value.toItems
  items.mapM toInt

def toNumber : Value → Faulty StreamNumber
  | .int value => .ok (.int value)
  | .float value => .ok (.fixed value)
  | other => other.mismatch "a number"

def toNumbers (value : Value) : Faulty (List StreamNumber) := do
  let items ← value.toItems
  items.mapM toNumber

def toInitialValue : Value → Faulty InitialValue
  | .list items => .array <$> toLiterals items
  | .tuple items => .array <$> toLiterals items
  | other => .scalar <$> other.toLiteral

def toLibraryArgument : Value → Faulty LibraryArgument
  | .list items => .literals <$> toLiterals items
  | .tuple items => .literals <$> toLiterals items
  | other => .expression <$> other.toExpression

def toForEachValues : Value → Faulty ForEachValues
  | .list items => .literals <$> toLiterals items
  | .tuple items => .literals <$> toLiterals items
  | other => .array <$> other.toExpression

def toStreamTarget : Value → Faulty StreamTarget
  | .string tag => .ok (.tag tag)
  | .source given => .ok (.source given)
  | other => other.mismatch "a tag or a declared stream"

def toOperand : Value → Faulty StreamOperand
  | .source given => .ok (.stream given.token)
  | .stream token => .ok (.stream token)
  | .list items => .vector <$> items.mapM toNumber
  | .tuple items => .vector <$> items.mapM toNumber
  | other => .number <$> other.toNumber

def toWeight : Value → Faulty DemodWeight
  | .list items => .vector <$> items.mapM toNumber
  | .tuple items => .vector <$> items.mapM toNumber
  | other => .scalar <$> other.toNumber

def toPulse : Value → Faulty (Pulse × Option Amp)
  | .string name => .ok (.named name, Option.none)
  | .pulse shape scale => .ok (shape, scale)
  | other => other.mismatch "a pulse"

def toProcess : Value → Faulty MeasureProcess
  | .process given => .ok given
  | other => other.mismatch "a measure process"

end Value

/-- The operator of expressions that an operator of the script stands for. -/
def expressionOperator? : Script.Operator → Option BinaryOperator
  | .plus => some .add
  | .minus => some .sub
  | .star => some .mul
  | .slash => some .div
  | .shiftLeft => some .shl
  | .shiftRight => some .shr
  | .ampersand => some .and
  | .pipe => some .or
  | .caret => some .xor
  | .doubleEquals => some .eq
  | .less => some .lt
  | .lessEqual => some .le
  | .greater => some .gt
  | .greaterEqual => some .ge
  | .notEquals => none
  | .tilde => none

def streamOperator? : Script.Operator → Option ArithmeticOperator
  | .plus => some .add
  | .minus => some .subtract
  | .star => some .multiply
  | .slash => some .divide
  | _ => none

/-- Arithmetic with a stream as an operand. -/
def streamBinary (operator : Script.Operator) (left right : Value) : Faulty Value :=
  match streamOperator? operator with
  | none => .error (.build (.streamOperator operator.text))
  | some op => do
    let left ← left.toOperand
    let right ← right.toOperand
    return .stream (.arithmetic op left right)

def expressionBinary (operator : Script.Operator) (left right : Value) : Faulty Value :=
  match expressionOperator? operator with
  | none => .error (.unsupportedOperator operator.text)
  | some op => do
    let left ← left.toExpression
    let right ← right.toExpression
    return .expression (.binary op left right)

/-- A list repeated; less than once is not at all. -/
def repeated (items : List Value) (count : Int64) : Value :=
  .list (List.replicate count.toInt.toNat items).flatten

/-- A binary operation. Pulses are scaled, and lists repeated and joined; everything else is an
operation of expressions. -/
def binary (operator : Script.Operator) (left right : Value) : Faulty Value :=
  if left.isStream || right.isStream then streamBinary operator left right
  else
    match operator, left, right with
    | .star, .string name, .amp amp => .ok (.pulse (.named name) (some amp))
    | .star, .pulse pulse Option.none, .amp amp => .ok (.pulse pulse (some amp))
    | .plus, .list first, .list second => .ok (.list (first ++ second))
    | .star, .list items, .int count => .ok (repeated items count)
    | .star, .int count, .list items => .ok (repeated items count)
    | operator, left, right => expressionBinary operator left right

/-- A unary operation on anything that is not computed at once. -/
def expressionUnary (operator : Script.UnaryOperator) (operand : Value) : Faulty Value :=
  if operand.isStream then .error (.build (.streamOperator operator.text))
  else
    match operator with
    | .minus => do
      let e ← operand.toExpression
      return .expression e.neg
    | .not | .invert => do
      let e ← operand.toExpression
      return .expression e.complement
    | .plus => operand.mismatch "a number"

/-- A unary operation. Numbers are negated and booleans inverted at once. -/
def unary (operator : Script.UnaryOperator) (operand : Value) : Faulty Value :=
  match operator, operand with
  | .minus, .int value => .ok (.int (-value))
  | .minus, .float value => .ok (.float (-value))
  | .plus, .int value => .ok (.int value)
  | .plus, .float value => .ok (.float value)
  | .plus, .expression value => .ok (.expression value)
  | .not, .bool value => .ok (.bool !value)
  | .invert, .bool value => .ok (.bool !value)
  | operator, operand => expressionUnary operator operand

end Qua.Replay
