import Qua.Binary64.Text
import Qua.Stream.Token

/-!
# Numbers in pipelines

Numbers stand in a token as text: integers in decimal, reals as script literals.
-/

namespace Qua

inductive StreamNumber
  | int (value : Int64)
  | fixed (value : Binary64)
  deriving DecidableEq, Repr

namespace StreamToken

def integer (n : Int64) : StreamToken := .atom (toString n.toInt)

/-- A real that is not finite is written as in a sentence. -/
def number : StreamNumber → StreamToken
  | .int n => integer n
  | .fixed x => .atom (if x.isFinite then NumberStyle.script.write x else NumberStyle.sentence.write x)

def vector (values : List StreamNumber) : StreamToken :=
  .list (.atom vectorSymbol :: values.map number)

end StreamToken
end Qua
