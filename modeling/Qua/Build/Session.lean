import Qua.Build.Block
import Qua.Build.Library

/-!
# Sessions

A session applies steps one after the other. The first step that fails poisons it: every later step
fails with the reason of that first failure, and no program comes of it.
-/

namespace Qua

structure Session where
  draft : Draft := {}
  /-- The message of the first failure. -/
  poison : Option String := none

namespace Session

/-- Applies a step. -/
def apply (step : Build α) (session : Session) : Except BuildError α × Session :=
  match session.poison with
  | some reason => (.error (.poisoned reason), session)
  | none =>
    match step session.draft with
    | .ok (result, draft) => (.ok result, { session with draft := draft })
    | .error e => (.error e, { session with poison := some e.message })

/-- Applies steps until one fails; with none, not even poison is noticed. -/
def applyEach (steps : List (Build Unit)) (session : Session) : Except BuildError Unit × Session :=
  match steps with
  | [] => (.ok (), session)
  | step :: rest =>
    match session.apply step with
    | (.ok (), session) => session.applyEach rest
    | (.error e, session) => (.error e, session)

/-- Closes a scope. -/
def close (id : Nat) (session : Session) : Except BuildError Unit × Session :=
  session.apply (Build.closeScope id)

/-- Lets go of a scope, which closes it. That it is not the innermost one shows only later. -/
def release (id : Nat) (session : Session) : Session :=
  if session.poison.isSome then session else (session.close id).2

/-- The program of a draft whose scopes are all closed. -/
def finishDraft (draft : Draft) : Except BuildError Program :=
  if 1 < draft.scopes.length then .error (.unclosedScopes (draft.scopes.length - 1))
  else .ok draft.program

/-- The finished program. -/
def finish (session : Session) : Except BuildError Program :=
  match session.poison with
  | some reason => .error (.poisoned reason)
  | none => finishDraft session.draft

end Session
end Qua
