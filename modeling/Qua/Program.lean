import Qua.Declaration
import Qua.ResultAnalysis
import Qua.Statement.Traversal

/-!
# Programs

Declarations, a body and the saved results. Flags say which features the body uses.
-/

namespace Qua

structure Metadata where
  usesCommandTimestamps : Bool := false
  usesFastFrameRotation : Bool := false
  deriving DecidableEq, Repr

structure Program where
  declarations : List Declaration := []
  body : List Statement := []
  results : ResultAnalysis := {}
  metadata : Metadata := {}
  deriving BEq

namespace Program

/-- The first declaration of that name. -/
def declaration? (p : Program) (name : String) : Option Declaration :=
  p.declarations.find? fun d => d.name == name

/-- The streams that the body writes to and the saves read, each once. -/
def streamNames (p : Program) : List String :=
  (Statement.blockStreamNames p.body
    ++ p.results.entries.flatMap fun entry => entry.pipeline.sourceNames).eraseDups

end Program
end Qua
