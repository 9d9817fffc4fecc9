import Qua.Json.Reader
import Qua.Program.ToScript
import Qua.Storage.Program

/-!
# The command line

What can be asked for, how it is read from the arguments, and what is answered: everything but the
reading and writing of files.
-/

namespace Qua

inductive Command
  /-- Print the script of a stored program. -/
  | script (program : String) (configuration : Option String) (verify : Bool)
  /-- Print the script of the program that a script builds. -/
  | check (script : String)
  /-- Store the program that a script builds. -/
  | convert (script output : String)
  deriving DecidableEq, Repr

namespace Command

def usage : String :=
  "Render, check and convert QUA programs\n\n"
    ++ "Usage: qua-cli <COMMAND>\n\n"
    ++ "Commands:\n"
    ++ "  script [--config <CONFIG>] [--no-verify] <PROGRAM>\n"
    ++ "           Print the script which rebuilds a saved program\n"
    ++ "  check <SCRIPT>\n"
    ++ "           Replay a script and print the script regenerated from the program it builds\n"
    ++ "  convert <SCRIPT> <OUTPUT>\n"
    ++ "           Replay a script and save the program it builds in the binary format\n"

/-- Takes the options of `script` out of its arguments; what is left are operands. -/
def scriptOptions (configuration : Option String) (verify : Bool) :
    List String → Option (List String × Option String × Bool)
  | [] => some ([], configuration, verify)
  | ["-c"] => none
  | ["--config"] => none
  | "-c" :: path :: rest => scriptOptions (some path) verify rest
  | "--config" :: path :: rest => scriptOptions (some path) verify rest
  | "--no-verify" :: rest => scriptOptions configuration false rest
  | argument :: rest =>
    match Text.withoutPrefix? "--config=" argument with
    | some path => scriptOptions (some path) verify rest
    | none =>
      if Text.startsWith "-" argument then none
      else
        (scriptOptions configuration verify rest).map fun (operands, options) =>
          (argument :: operands, options)

/-- The command that the arguments ask for. -/
def ofArguments? : List String → Option Command
  | "script" :: arguments =>
    match scriptOptions none true arguments with
    | some ([program], configuration, verify) => some (.script program configuration verify)
    | _ => none
  | ["check", path] => some (.check path)
  | ["convert", path, output] => some (.convert path output)
  | _ => none

/-- A failure and the cause of it. -/
def failureText (what cause : String) : String :=
  "Error: " ++ what ++ "\n\nCaused by:\n    " ++ cause

/-- The program that the script of a file builds. -/
def replay (path script : String) : Except String Program :=
  (Program.ofScript script).mapError fun e =>
    failureText ("Failed to replay the script in " ++ path ++ ".") e.message

/-- The script of a replayed program. -/
def checked (p : Program) : Except String String :=
  p.toScript.mapError fun e =>
    failureText "Failed to render the replayed program as a script." e.message

/-- The program that a file holds. -/
def load (path : String) (bytes : List UInt8) : Except String Program :=
  match Program.deserialize? bytes with
  | some p => .ok p
  | none =>
    .error (failureText ("Failed to load program from " ++ path ++ ".") "io error: unexpected end of file")

/-- The configuration that a file holds. -/
def loadConfiguration (path text : String) : Except String Json :=
  match Json.read? text with
  | some configuration => .ok configuration
  | none =>
    .error (failureText ("Failed to parse configuration in " ++ path ++ ".") "invalid JSON")

/-- The script of a stored program. -/
def scripted (p : Program) (configuration : Option Json) (verify : Bool) : Except String String :=
  (p.toScript { verify, configuration }).mapError fun e =>
    failureText "Failed to render program as a script." e.message

end Command
end Qua
