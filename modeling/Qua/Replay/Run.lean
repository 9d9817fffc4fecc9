import Qua.Build.Session
import Qua.Replay.Evaluate
import Qua.Script.Parser

/-!
# Replaying scripts

A script is replayed statement by statement, its one program block being where the program is built.
Main definition: `Program.ofScript`.
-/

namespace Qua
namespace Replay

open Script (Term Stmt)

/-- Gives the faults of a statement its line. -/
def atLine (line : Nat) (run : Replay α) : Replay α := fun state =>
  match run state with
  | .ok result => .ok result
  | .error e => .error (e.atLine line)

/-- Sets the location of the statements that are built. -/
def setLocation (location : String) : Replay Unit :=
  modify fun state => { state with draft := { state.draft with location := location } }

def bind (name : String) (value : Value) : Replay Unit :=
  modify fun state => { state with environment := (name, value) :: state.environment }

/-- Opens the scope of a block. -/
def openScope (context : Term) : Replay Nat := do
  if !(← get).inProgram then fault (.outsideProgram (contextName context))
  match context with
  | .call function arguments keywords =>
    match function.name? with
    | none => fault (.unknownFunction (contextName function))
    | some name =>
      if name = "program" then fault .duplicateProgram
      let arguments ← evaluateAll arguments
      let keywords ← evaluateKeywords keywords
      perform (scope name) (.of name arguments keywords)
  | _ => fault (.unknownFunction (contextName context))

mutual

def statement : Stmt → Replay Unit
  | .pass _ => return ()
  | .importing .. => return ()
  | .assign _ target value => do
    match target.name? with
    | some name =>
      let value ← evaluate value
      bind name value
    | none => fault (.typeMismatch "a name to assign to" "an expression")
  | .term _ term => do
    let _ ← evaluate term
  | .block _ context _ body => do
    let id ← openScope context
    statements body
    build (Build.closeScope id)

/-- The statements of a block; what they build has the location of their line. -/
def statements : List Stmt → Replay Unit
  | [] => return ()
  | s :: rest => do
    setLocation ("script:" ++ toString s.line)
    atLine s.line (statement s)
    statements rest

end

/-- Whether a block is the program, and if so whether its call has arguments. -/
def programCall? : Term → Option Bool
  | .call (.name "program") arguments keywords => some (!(arguments.isEmpty && keywords.isEmpty))
  | _ => none

/-- A statement outside of all blocks. -/
def topLevel : Stmt → Replay Unit
  | .block _ context _ body => do
    match programCall? context with
    | some hasArguments =>
      if hasArguments then fault (.unexpectedArgument "program" "0")
      let state ← get
      if 0 < state.programs then fault .duplicateProgram
      set { state with programs := state.programs + 1, inProgram := true }
      statements body
      modify fun state => { state with inProgram := false }
    | none => fault (.outsideProgram (contextName context))
  | s => statement s

/-- All statements of a script, among which there has to be a program. -/
def module (script : List Stmt) : Replay Unit := do
  script.forM fun s => atLine s.line (topLevel s)
  if (← get).programs = 0 then fault .missingProgram

end Replay

/-- The program that a script builds. -/
def Program.ofScript (script : String) : Except ReplayError Program :=
  match Script.parse script with
  | .error e => .error { fault := .parse e }
  | .ok statements =>
    match Replay.module statements {} with
    | .error e => .error e
    | .ok ((), state) =>
      match Session.finishDraft state.draft with
      | .ok program => .ok program
      | .error e => .error { fault := .build e }

end Qua
