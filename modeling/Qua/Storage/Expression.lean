import Qua.Storage

/-!
# The binary form of expressions and stream tokens
-/

namespace Qua

open Stored

instance : Stored Literal where
  write
    | .int value => variant 0 ++ write value
    | .bool value => variant 1 ++ write value
    | .fixed value => variant 2 ++ write value
  read := do
    match ← readVariant with
    | 0 => Literal.int <$> read
    | 1 => Literal.bool <$> read
    | 2 => Literal.fixed <$> read
    | _ => Reader.fail

instance : Stored Register where
  write := writeChoice Register.all
  read := readChoice Register.all

instance : Stored Variable where
  write
    | .named name => variant 0 ++ write name
    | .io r => variant 1 ++ write r
  read := do
    match ← readVariant with
    | 0 => Variable.named <$> read
    | 1 => Variable.io <$> read
    | _ => Reader.fail

instance : Stored BinaryOperator where
  write := writeChoice BinaryOperator.all
  read := readChoice BinaryOperator.all

instance : Stored Library where
  write := writeChoice Library.all
  read := readChoice Library.all

namespace Expression

mutual

def bytes : Expression → List UInt8
  | .var v => variant 0 ++ write v
  | .array name => variant 1 ++ write name
  | .cell name i => variant 2 ++ write name ++ i.bytes
  | .literal value => variant 3 ++ write value
  | .binary operator left right => variant 4 ++ write operator ++ left.bytes ++ right.bytes
  | .call library function arguments =>
    variant 5 ++ write library ++ write function
      ++ writeCounted arguments.length (bytesOfAll arguments)
  | .length name => variant 6 ++ write name

def bytesOfAll : List Expression → List UInt8
  | [] => []
  | e :: rest => e.bytes ++ bytesOfAll rest

end

/-- Reads an expression that is nested less deeply than the fuel. -/
def ofBytes : Nat → Reader Expression
  | 0 => Reader.fail
  | fuel + 1 => do
    match ← readVariant with
    | 0 => Expression.var <$> read
    | 1 => Expression.array <$> read
    | 2 => do
      let array ← read
      let index ← ofBytes fuel
      return .cell array index
    | 3 => Expression.literal <$> read
    | 4 => do
      let operator ← read
      let left ← ofBytes fuel
      let right ← ofBytes fuel
      return .binary operator left right
    | 5 => do
      let library ← read
      let function ← read
      let arguments ← readCounted (ofBytes fuel)
      return .call library function arguments
    | 6 => Expression.length <$> read
    | _ => Reader.fail

end Expression

/-- Every level of nesting takes a byte, so their number bounds the depth. -/
instance : Stored Expression where
  write := Expression.bytes
  read := fun input => Expression.ofBytes (input.length + 1) input

namespace StreamToken

mutual

def bytes : StreamToken → List UInt8
  | .atom value => variant 0 ++ write value
  | .list items => variant 1 ++ writeCounted items.length (bytesOfItems items)

def bytesOfItems : List StreamToken → List UInt8
  | [] => []
  | token :: rest => token.bytes ++ bytesOfItems rest

end

/-- Reads a token that is nested less deeply than the fuel. -/
def ofBytes : Nat → Reader StreamToken
  | 0 => Reader.fail
  | fuel + 1 => do
    match ← readVariant with
    | 0 => StreamToken.atom <$> read
    | 1 => StreamToken.list <$> readCounted (ofBytes fuel)
    | _ => Reader.fail

end StreamToken

/-- Every level of nesting takes a byte, so their number bounds the depth. -/
instance : Stored StreamToken where
  write := StreamToken.bytes
  read := fun input => StreamToken.ofBytes (input.length + 1) input

end Qua
