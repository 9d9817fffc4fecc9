import Qua.Action.Render
import Qua.Text.Affix

/-!
# Declarations

The variables, arrays and input streams of a program, and the script line that declares each.
-/

namespace Qua

/-- What an input stream's variable is named, before the name of the stream. -/
def inputStreamPrefix : String := "input_stream_"

structure Declaration where
  name : String
  scalarType : ScalarType
  size : UInt64
  /-- The number of dimensions: zero for a scalar. -/
  dimension : UInt8
  isInputStream : Bool
  value : List Literal
  deriving BEq, Repr

namespace Declaration

def isArray (d : Declaration) : Bool := d.dimension != 0

/-- The name of the input stream that is declared. -/
def inputStream? (d : Declaration) : Option String :=
  if d.isInputStream then Text.withoutPrefix? inputStreamPrefix d.name else none

/-- The initial value or the size, as a further argument. -/
def renderValue (d : Declaration) : Except RenderError String :=
  match d.isArray, d.value with
  | false, [] => .ok ""
  | false, [value] => do
    let value ← value.render
    return ", value=" ++ value
  | true, [] => .ok (", size=" ++ toString d.size.toNat)
  | _, values => do
    let values ← values.mapM Literal.render
    return ", value=[" ++ String.intercalate ", " values ++ "]"

def render (d : Declaration) : Except RenderError String := do
  let value ← d.renderValue
  let declared := match d.inputStream? with
    | some stream => "declare_input_stream(" ++ d.scalarType.name ++ ", " ++ Text.quote stream
    | none => "declare(" ++ d.scalarType.name
  return d.name ++ " = " ++ declared ++ value ++ ")"

end Declaration
end Qua
