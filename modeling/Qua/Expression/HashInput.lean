import Qua.Bytes
import Qua.Expression

/-!
# Hash inputs

The bytes from which a hash of an expression is computed. They say themselves where each part ends,
and numbers that are the same have the same bytes.
-/

namespace Qua

namespace HashInput

/-- A string ends in a byte that no UTF-8 form holds. -/
def ofText (s : String) : List UInt8 := utf8Bytes s ++ [255]

def ofIndex (n : Nat) : List UInt8 := wordBytes 8 n

end HashInput

open HashInput (ofText ofIndex)

def Literal.hashInput : Literal → List UInt8
  | .int value => ofText "Int" ++ wordBytes 4 value.toUInt32.toNat
  | .bool value => ofText "Bool" ++ [if value then 1 else 0]
  | .fixed value => ofText "Fixed" ++ wordBytes 8 value.representative.bits.toNat

def Variable.hashInput : Variable → List UInt8
  | .named name => ofIndex 0 ++ ofText name
  | .io register => ofIndex 1 ++ ofIndex (Register.all.idxOf register)

namespace Expression

mutual

def hashInput : Expression → List UInt8
  | .var v => ofIndex 0 ++ v.hashInput
  | .array name => ofIndex 1 ++ ofText name
  | .cell name i => ofIndex 2 ++ (ofText name ++ i.hashInput)
  | .literal value => ofIndex 3 ++ value.hashInput
  | .binary operator left right =>
    ofIndex 4 ++ (ofIndex (BinaryOperator.all.idxOf operator) ++ (left.hashInput ++ right.hashInput))
  | .call library function arguments =>
    ofIndex 5 ++ (ofIndex (Library.all.idxOf library) ++ (ofText function
      ++ (ofIndex arguments.length ++ hashInputOfAll arguments)))
  | .length name => ofIndex 6 ++ ofText name

def hashInputOfAll : List Expression → List UInt8
  | [] => []
  | e :: rest => e.hashInput ++ hashInputOfAll rest

end

end Expression
end Qua
