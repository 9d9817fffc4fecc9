import Qua.CommandLine

/-!
# The program

Reads and writes the files that a command names.
-/

namespace Qua.Command

/-- Stops with a message, which is printed. -/
abbrev Task (α : Type) := ExceptT String IO α

/-- Makes an attempt to read or write, whose failure is one of `what`. -/
def attempt (what : String) (action : IO α) : Task α := do
  match ← action.toBaseIO with
  | .ok value => return value
  | .error e => throw (failureText what (toString e))

def readScript (path : String) : Task String :=
  attempt ("Failed to read " ++ path ++ ".") (IO.FS.readFile path)

def run : Command → Task Unit
  | .script program configuration verify => do
    let bytes ← attempt ("Failed to load program from " ++ program ++ ".")
      (IO.FS.readBinFile program)
    let p ← liftExcept (load program bytes.data.toList)
    let configuration ← configuration.mapM fun path => do
      let text ← attempt ("Failed to read configuration from " ++ path ++ ".") (IO.FS.readFile path)
      liftExcept (loadConfiguration path text)
    IO.print (← liftExcept (scripted p configuration verify))
  | .check path => do
    let p ← liftExcept (replay path (← readScript path))
    IO.print (← liftExcept (checked p))
  | .convert path output => do
    let p ← liftExcept (replay path (← readScript path))
    attempt ("Failed to save program to " ++ output ++ ".")
      (IO.FS.writeBinFile output ⟨p.serialize.toArray⟩)
where
  liftExcept {α : Type} (result : Except String α) : Task α := ExceptT.mk (pure result)

end Qua.Command

def main (arguments : List String) : IO UInt32 := do
  match Qua.Command.ofArguments? arguments with
  | none =>
    IO.eprint Qua.Command.usage
    return 2
  | some command =>
    match ← command.run with
    | .ok () => return 0
    | .error message =>
      IO.eprintln message
      return 1
