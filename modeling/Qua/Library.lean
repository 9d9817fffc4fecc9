/-!
# Libraries of functions

The four libraries, the functions that each supports, and how many arguments they take.
-/

namespace Qua

inductive Library
  | math
  | cast
  | util
  | random
  deriving DecidableEq, Repr

namespace Library

def all : List Library := [.math, .cast, .util, .random]

/-- The name by which a function of the library is called through `call_library_function`. -/
def name : Library → String
  | .math => "math"
  | .cast => "cast"
  | .util => "util"
  | .random => "random"

/-- The name of the library as the module of a call. -/
def namespaceName : Library → String
  | .math => "Math"
  | .cast => "Cast"
  | .util => "Util"
  | .random => "Random"

def ofName? (text : String) : Option Library := all.find? fun library => library.name = text

def ofNamespace? (text : String) : Option Library :=
  all.find? fun library => library.namespaceName = text

/-- The supported functions, each with the number of its arguments. -/
def functions : Library → List (String × Nat)
  | .math =>
    [("log", 2), ("pow", 2), ("div", 2), ("exp", 1), ("pow2", 1), ("ln", 1), ("log2", 1),
      ("log10", 1), ("sqrt", 1), ("inv_sqrt", 1), ("inv", 1), ("msb", 1), ("elu", 1), ("aelu", 1),
      ("selu", 1), ("relu", 1), ("plrelu", 2), ("lrelu", 2), ("sin2pi", 1), ("cos2pi", 1), ("abs", 1),
      ("sin", 1), ("cos", 1), ("sum", 1), ("max", 1), ("min", 1), ("argmax", 1), ("argmin", 1),
      ("dot", 2)]
  | .cast =>
    [("mul_int_by_fixed", 2), ("mul_fixed_by_int", 2), ("to_int", 1), ("to_fixed", 1),
      ("to_bool", 1), ("unsafe_cast_int", 1), ("unsafe_cast_fixed", 1), ("unsafe_cast_bool", 1)]
  | .util => [("cond", 3)]
  | .random => [("rand_int", 2), ("rand_fixed", 1)]

/-- The number of arguments of a function, if it is supported. -/
def arity? (library : Library) (function : String) : Option Nat :=
  (library.functions.find? fun (name, _) => name = function).map Prod.snd

def supports (library : Library) (function : String) : Bool := (library.arity? function).isSome

end Library
end Qua
