import Qua.Json.Printer
import Qua.Program.Canonical
import Qua.Program.ToJson
import Qua.Replay.Run
import Qua.Text.Lines

/-!
# Round trips

A script is right for a program if replaying it builds a program with the same canonical form. What
is wrong with one that is not is said in a comment.
-/

namespace Qua

/-- A comment with a title, as a part of a script. -/
def commentBlock (title : String) (lines : List String) : String :=
  "\n\n####     " ++ title ++ "     ####\n#\n"
    ++ String.join (lines.map fun line => "#  " ++ line ++ "\n")
    ++ "#\n################################################\n"

/-- What replaying a script showed. -/
inductive RoundTrip
  | equal
  /-- The canonical forms of the program and of what the script builds. -/
  | mismatch (program replayed : Program)
  | failed (error : ReplayError)

namespace RoundTrip

def name : RoundTrip → String
  | .equal => "Equal"
  | .mismatch .. => "Mismatch"
  | .failed _ => "Failed"

def isEqual : RoundTrip → Bool
  | .equal => true
  | _ => false

/-- The comment on a script that is not right. -/
def diagnostic : RoundTrip → String
  | .equal => ""
  | .mismatch program replayed =>
    commentBlock "SERIALIZATION WAS NOT COMPLETE"
      ["Original   " ++ (program.toJson .real).print, "Serialized " ++ (replayed.toJson .real).print]
  | .failed error => commentBlock "SERIALIZATION VALIDATION ERROR" (Text.lines error.message)

end RoundTrip

/-- Replays a script and compares what it builds with the program. -/
def Program.verify (p : Program) (script : String) : RoundTrip :=
  match Program.ofScript script with
  | .error e => .failed e
  | .ok replayed =>
    if p.canonical == replayed.canonical then .equal else .mismatch p.canonical replayed.canonical

end Qua
