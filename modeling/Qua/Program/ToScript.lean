import Qua.Configuration
import Qua.Program.Listing
import Qua.Program.RoundTrip

/-!
# Programs as scripts

A whole script: a header, the listing of the program, comments on what is wrong with it, and the
configuration. Main definition: `Program.toScript`.
-/

namespace Qua

structure ScriptOptions where
  /-- Replay the script and comment on what is wrong with it. -/
  verify : Bool := true
  header : Bool := true
  configuration : Option Json := none

namespace ScriptOptions

def headerText (options : ScriptOptions) : String :=
  if options.header then "# Single QUA script generated by qua-rs\n# qua-rs version: 0.1.0\n\n" else ""

/-- The configuration, and a comment if it cannot be written as a literal. -/
def configurationText (options : ScriptOptions) : String × String :=
  match options.configuration with
  | none => ("None", "")
  | some configuration =>
    match Configuration.literal configuration with
    | .ok literal => (literal, "")
    | .error e =>
      (configuration.print, commentBlock "CONFIG SERIALIZATION ERROR" (Text.lines e.message))

end ScriptOptions

/-- The script that builds a program. It fails only if the program has no listing. -/
def Program.toScript (p : Program) (options : ScriptOptions := {}) : Except RenderError String := do
  let text ← p.text
  let (configuration, comment) := options.configurationText
  let diagnostic := if options.verify then (p.verify text).diagnostic else ""
  return options.headerText ++ text ++ comment ++ diagnostic ++ "\nconfig = " ++ configuration ++ "\n"

end Qua
