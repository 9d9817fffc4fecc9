import Qua.Program

/-!
# The canonical form

Programs that differ in locations, in the counters of their stream names and in the order of their
saves have one canonical form: locations are blank, streams are numbered in the order of their first
use, in the body and then in the saves by tag, and the saves are sorted.
-/

namespace Qua.Program

/-- The location of every statement of a canonical program. -/
def strippedLocation : String := "stripped"

/-- New names for streams: their number in the list behind the old name without its counter. -/
def numbered (names : List String) : List (String × String) :=
  names.zipIdx.map fun (name, n) => (name, Text.withoutTrailingDigits name ++ toString n)

/-- The new name of a stream, or the old one if it has none. -/
def renameBy (table : List (String × String)) (name : String) : String :=
  (table.lookup name).getD name

/-- The saves in the order of their tags; equal tags keep their order. -/
def entriesByTag (p : Program) : List SaveEntry :=
  p.results.entries.mergeSort fun a b => (compare a.tag b.tag).isLE

/-- The streams in the order in which they are numbered. -/
def canonicalOrder (p : Program) : List String :=
  (Statement.blockStreamNames p.body
    ++ p.entriesByTag.flatMap fun entry => entry.pipeline.sourceNames).eraseDups

def canonical (p : Program) : Program :=
  let rename := renameBy (numbered p.canonicalOrder)
  let entries := p.entriesByTag.map (SaveEntry.mapSources rename)
  { p with
    body := Statement.mapBlock (Action.mapStreams rename) (fun _ => strippedLocation) p.body
    results := ⟨entries.mergeSort fun a b => (a.compare b).isLE⟩ }

end Qua.Program
