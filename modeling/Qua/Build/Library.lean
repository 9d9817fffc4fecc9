import Qua.Build.Statement

/-!
# Building library calls

Calls are checked against the functions of the library, and lists of literals among their arguments
become arrays.
-/

namespace Qua

inductive LibraryArgument
  | expression (value : Expression)
  | literals (values : List Literal)

namespace Build

def libraryArgument : LibraryArgument → Build Expression
  | .expression value => return value
  | .literals values => declareLiterals values

def libraryCall (library : Library) (function : String) (arguments : List LibraryArgument) :
    Build Expression := do
  match library.arity? function with
  | none => throw (.unknownLibraryFunction library.namespaceName function)
  | some expected =>
    if arguments.length ≠ expected then
      throw (.libraryArity library.namespaceName function expected arguments.length)
    let arguments ← arguments.mapM libraryArgument
    return .call library function arguments

/-- Declares the variable that holds the state of a random generator. -/
def random (seed : Int32) : Build Expression := declare .int (some (.scalar (.int seed))) none

def randInt (seed max : Expression) : Build Expression :=
  libraryCall .random "rand_int" [.expression seed, .expression max]

def randFixed (seed : Expression) : Build Expression :=
  libraryCall .random "rand_fixed" [.expression seed]

end Build
end Qua
