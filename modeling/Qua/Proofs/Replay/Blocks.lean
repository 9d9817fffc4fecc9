import Qua.Proofs.Replay.Standing
import Qua.Replay.Run

/-!
# Scripts of one program

A script that only has a program block builds what the statements of the block build. Main statement:
`ofScript_programLines`.
-/

namespace Qua

open Replay
open Script (Stmt Outline ReadsAll linesOf programLines lineNumbersOf numbersFrom)

/-- The script whose program block has the lines. -/
def Script.ofLines (lines : List String) : String :=
  Line.renderAll (⟨0, "from qm.qua import *"⟩ :: ⟨0, ""⟩ :: ⟨0, "with program() as prog:"⟩ ::
    lines.map fun line => ⟨1, line⟩)

theorem Script.ofLines_eq {os : List Outline} (h : linesOf 1 os = lines.map fun line => ⟨1, line⟩) :
    ofLines lines = Line.renderAll (programLines os) := by rw [ofLines, programLines, h]

namespace Replay

/-- In the program block, before its first line. -/
def State.started : State := { inProgram := true, programs := 1 }

theorem standing_started : Standing [] ⟨[], {}⟩ [] [⟨0, .program⟩] State.started where
  ready := ⟨rfl, fun _ h => (nomatch h), fun _ _ => rfl⟩
  streams _ _ h := nomatch h
  programs := rfl
  draft := ⟨1, "", rfl⟩

/-- The statements of the one program block of a script. -/
theorem module_program {stmts : List Stmt} (h : statements stmts State.started = .ok ((), s))
    (hp : s.programs = 1) (line line' : Nat) (names : List String) :
    module [.importing line "qm.qua" names,
      .block line' (.call (.name "program") [] []) (some "prog") stmts] {} =
        .ok ((), { s with inProgram := false }) := by
  have himport : atLine line (topLevel (.importing line "qm.qua" names)) {} = .ok ((), {}) := by
    rw [atLine, topLevel, statement]
    · rfl
    · rintro _ _ _ _ ⟨⟩
  have hrun : (statements stmts >>= fun _ => modify fun state => { state with inProgram := false })
      State.started = .ok ((), { s with inProgram := false }) := by
    rw [bind_run, h]
    rfl
  have hblock : topLevel (.block line' (.call (.name "program") [] []) (some "prog") stmts) {} =
      .ok ((), { s with inProgram := false }) := by
    rw [topLevel]
    exact hrun
  have hat : atLine line' (topLevel (.block line' (.call (.name "program") [] []) (some "prog") stmts)) {} =
      .ok ((), { s with inProgram := false }) := by rw [atLine, hblock]
  refine bind_eq_ok.mpr ⟨(), _, bind_eq_ok.mpr ⟨(), _, himport, bind_eq_ok.mpr ⟨(), _, hat, rfl⟩⟩, ?_⟩
  rw [bind_run, get_run]
  simp only [hp]
  rfl

end Replay

/-- A script with one program block builds what its statements build at their lines. -/
theorem ofScript_numbered {os : List Outline} {P : List Stmt → Program → Prop} (hne : os ≠ [])
    (hreads : ∃ stmts, ReadsAll os stmts)
    (h : ∀ stmts, ReadsAll os stmts → lineNumbersOf stmts = numbersFrom 4 (linesOf 1 os) →
      ∃ s, statements stmts State.started = .ok ((), s) ∧
        s.programs = 1 ∧ s.draft.scopes.length = 1 ∧ P stmts s.draft.program) :
    ∃ stmts p, Program.ofScript (Line.renderAll (programLines os)) = .ok p ∧ P stmts p := by
  obtain ⟨stmts₀, hreads⟩ := hreads
  obtain ⟨line, line', stmts, hread, hnumbers, hparse⟩ := hreads.parse hne
  obtain ⟨s, hrun, hp, hs, hbuilt⟩ := h stmts hread hnumbers
  refine ⟨stmts, s.draft.program, ?_, hbuilt⟩
  rw [Program.ofScript, hparse]
  simp only [module_program hrun hp, Session.finishDraft, hs]
  rfl

/-- A script with one program block builds what its statements build. -/
theorem ofScript_programLines {os : List Outline} {P : List Stmt → Program → Prop} (hne : os ≠ [])
    (hreads : ∃ stmts, ReadsAll os stmts)
    (h : ∀ stmts, ReadsAll os stmts → ∃ s, statements stmts State.started = .ok ((), s) ∧
      s.programs = 1 ∧ s.draft.scopes.length = 1 ∧ P stmts s.draft.program) :
    ∃ stmts p, Program.ofScript (Line.renderAll (programLines os)) = .ok p ∧ P stmts p :=
  ofScript_numbered hne hreads fun stmts hr _ => h stmts hr

end Qua
