/-!
# Scalar types

The types of variables and of the cells of arrays.
-/

namespace Qua

inductive ScalarType
  | int
  | bool
  | fixed
  deriving DecidableEq, Repr

namespace ScalarType

def all : List ScalarType := [.int, .bool, .fixed]

/-- The name of the type in a script. -/
def name : ScalarType → String
  | .int => "int"
  | .bool => "bool"
  | .fixed => "fixed"

def ofName? : String → Option ScalarType
  | "int" => some .int
  | "bool" => some .bool
  | "fixed" => some .fixed
  | _ => none

end ScalarType
end Qua
