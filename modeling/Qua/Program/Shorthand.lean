import Qua.Program
import Qua.Stream.Source

/-!
# Shorthands of streams

A stream that only feeds saves made for a tag is written as that tag, and is neither declared nor
saved in the script. Main definition: `Program.shorthand?`.
-/

namespace Qua

namespace Program

/-- A tag without the suffix that selects an input of a trace. -/
def withoutInputSuffix (tag : String) : String :=
  match Text.withoutSuffix? "_input1" tag with
  | some rest => rest
  | none => (Text.withoutSuffix? "_input2" tag).getD tag

/-- Whether the first tag is to be preferred: fewer bytes, then string order. -/
def isShorterTag (a b : String) : Bool :=
  a.utf8ByteSize < b.utf8ByteSize || a.utf8ByteSize == b.utf8ByteSize && a < b

/-- The shorter of two tags. -/
def shorterTag (a b : String) : String := if isShorterTag b a then b else a

def shortestTag? : List String → Option String
  | [] => none
  | tag :: rest => some (rest.foldl shorterTag tag)

/-- The saves that read a stream. -/
def savesOf (p : Program) (stream : String) : List SaveEntry :=
  p.results.entries.filter fun entry => entry.pipeline.sourceNames.contains stream

/-- The tag that stands for a stream. -/
def shorthand? (p : Program) (stream : String) : Option String :=
  let saves := p.savesOf stream
  if saves.all SaveEntry.auto then
    (shortestTag? (saves.map SaveEntry.tag)).map fun tag =>
      if ResultSource.isTraceName stream then withoutInputSuffix tag else tag
  else none

end Program
end Qua
