import Qua.Build.Path
import Qua.Program
import Qua.Stream.Source

/-!
# Drafts

A program while it is built, with the scopes that are open and what is needed to name things. A step
of a build changes the draft or fails; after a failure there is no draft.
-/

namespace Qua

/-- What statements are built in. -/
inductive Scope
  | program
  /-- A block of the program. -/
  | body (path : Path)
  /-- A loop whose parts are opened one by one, at an index of a block. -/
  | loop (block : Path) (index : Nat)
  /-- A switch over a value, which becomes a conditional of its block with the first case. -/
  | switch (block : Path) (value : Expression) (isUnsafe : Bool) (index : Option Nat)
  /-- The stream processing. -/
  | results

def Scope.isProgram : Scope → Bool
  | .program => true
  | _ => false

structure Frame where
  id : Nat
  scope : Scope

structure Draft where
  program : Program := {}
  /-- The open scopes, the innermost first; the last one is the program. -/
  scopes : List Frame := [⟨0, .program⟩]
  nextScope : Nat := 1
  /-- How many scalars have been named. -/
  scalars : Nat := 0
  /-- How many arrays have been named. -/
  arrays : Nat := 0
  /-- How many streams have been named. -/
  streams : Nat := 0
  inputStreams : List String := []
  /-- The streams that were declared for a tag. -/
  shorthands : List (String × ResultSource) := []
  /-- The location given to new statements. -/
  location : String := ""

/-- A step of a build. -/
abbrev Build (α : Type) := StateT Draft (Except BuildError) α

namespace Build

/-- The innermost scope. -/
def innermost : Build (Option Scope) := return (← get).scopes.head?.map Frame.scope

/-- Opens a scope and gives the number by which it is closed. -/
def openScope (scope : Scope) : Build Nat := do
  let draft ← get
  set { draft with
    scopes := ⟨draft.nextScope, scope⟩ :: draft.scopes
    nextScope := draft.nextScope + 1 }
  return draft.nextScope

/-- Closes a scope, which has to be the innermost one. -/
def closeScope (id : Nat) : Build Unit := do
  let draft ← get
  match draft.scopes with
  | frame :: outer =>
    if frame.id = id && !frame.scope.isProgram then set { draft with scopes := outer }
    else throw .unexpectedStack
  | [] => throw .unexpectedStack

/-- The block that statements are appended to. -/
def bodyPath : Build Path := do
  match ← innermost with
  | some .program => return []
  | some (.body path) => return path
  | _ => throw (.expectedScope "scope with body.")

/-- Edits the block at a path. -/
def edit (path : Path) (change : Edit (List Statement) α) : Build α := do
  let draft ← get
  match Edit.atPath path change draft.program.body with
  | .ok (result, body) =>
    set { draft with program := { draft.program with body := body } }
    return result
  | .error e => throw e

/-- Appends a statement to the innermost block, at the current location. -/
def append (statement : String → Statement) : Build Unit := do
  let path ← bodyPath
  let location := (← get).location
  let _ ← edit path (Edit.push (statement location))

/-- Appends an action. -/
def act (action : Action) : Build Unit := append (.action action)

/-- Appends a statement and opens one of its blocks. -/
def openBlock (statement : String → Statement) (selector : Selector) : Build Nat := do
  let path ← bodyPath
  let location := (← get).location
  let index ← edit path (Edit.push (statement location))
  openScope (.body (path ++ [(index, selector)]))

/-- Makes an error of an expression one of the build. -/
def lift (result : Except ExpressionError α) : Build α :=
  match result with
  | .ok value => return value
  | .error e => throw (.expression e)

/-- Changes the flags of the program. -/
def modifyMetadata (f : Metadata → Metadata) : Build Unit :=
  modify fun draft =>
    { draft with program := { draft.program with metadata := f draft.program.metadata } }

end Build
end Qua
