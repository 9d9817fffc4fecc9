import Qua.Stream.Render
import Qua.Text.Quoted

/-!
# Result analysis

The pipelines whose results are kept, each under a tag of its own.
-/

namespace Qua

/-- Whether the last result of a pipeline is kept or all of them. -/
inductive SaveKind
  | save
  | saveAll
  deriving DecidableEq, Repr

def SaveKind.all : List SaveKind := [.save, .saveAll]

def SaveKind.name : SaveKind → String
  | .save => "save"
  | .saveAll => "save_all"

structure SaveEntry where
  kind : SaveKind
  tag : String
  /-- The entry was made for a stream that is only known by its tag. -/
  auto : Bool
  pipeline : StreamToken
  deriving DecidableEq, Repr

namespace SaveEntry

def render (entry : SaveEntry) : Except RenderError String := do
  let pipeline ← entry.pipeline.render
  return pipeline ++ "." ++ entry.kind.name ++ "(" ++ Text.quote entry.tag ++ ")"

def mapSources (f : String → String) (entry : SaveEntry) : SaveEntry :=
  { entry with pipeline := entry.pipeline.mapSources f }

def kindRank : SaveKind → Nat
  | .save => 0
  | .saveAll => 1

/-- By kind, tag, the flag and pipeline. -/
def compare (a b : SaveEntry) : Ordering :=
  (Ord.compare (kindRank a.kind) (kindRank b.kind)).then
    ((Ord.compare a.tag b.tag).then
      ((Ord.compare a.auto b.auto).then (a.pipeline.compare b.pipeline)))

end SaveEntry

structure ResultAnalysis where
  entries : List SaveEntry := []
  deriving DecidableEq, Repr

namespace ResultAnalysis

def containsTag (saves : ResultAnalysis) (tag : String) : Bool :=
  saves.entries.any fun entry => entry.tag == tag

/-- Adds an entry whose tag is not yet used. -/
def add? (saves : ResultAnalysis) (entry : SaveEntry) : Option ResultAnalysis :=
  if saves.containsTag entry.tag then none else some ⟨saves.entries ++ [entry]⟩

end ResultAnalysis

/-- The message for a tag that is already used. -/
def duplicateTagMessage (tag : String) : String :=
  "can not save two streams with the same tag: " ++ Text.inspect tag

end Qua
