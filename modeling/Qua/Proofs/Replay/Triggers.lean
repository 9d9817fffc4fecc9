import Qua.Proofs.Replay.Arrangement
import Qua.Proofs.Replay.Blocks
import Qua.Proofs.Replay.Declarations

/-!
# Triggers

What waits for a trigger is written with its elements and up to three keywords, each behind a comma of its
own: without elements there is nothing for the first of these to stand behind. Main statement:
`WaitForTrigger.line_readsBack`.
-/

namespace Qua

open Replay
open Script (Outline ReadsAll linesOf linesOf_append)

section

variable {ds : List Declaration} {hs : List (String × Expression)}

theorem Declaration.named_over {d : Declaration} (hd : d ∈ ds) (hw : d.Writable) (hs : d.isArray = false) :
    (Expression.named d.name).Over (handlesOf ds) := by
  refine ⟨hw.identifier, fun handle hmem => ?_⟩
  obtain rfl := List.mem_singleton.mp hmem
  refine List.mem_map.mpr ⟨d, hd, ?_⟩
  rw [Declaration.handle, hs]
  rfl

theorem declarations_rendered (hw : ∀ d ∈ ds, d.Writable) (hd : ∀ d ∈ ds, d.Shaped) :
    ∃ texts, ds.mapM Declaration.render = .ok texts := by
  induction ds with
  | nil => exact ⟨[], rfl⟩
  | cons d ds ih =>
    rw [List.forall_mem_cons] at hw hd
    obtain ⟨text, hc⟩ := Declaration.call_ok hw.1 hd.1
    obtain ⟨texts, hr⟩ := ih hw.2 hd.2
    refine ⟨(d.name ++ " = " ++ text) :: texts, ?_⟩
    rw [List.mapM_cons, Declaration.render_eq, hc, hr]
    rfl

/-- The line appends the statement again, to any block of a program that declares the variable. -/
theorem WaitForTrigger.replays {w : WaitForTrigger} (hw : w.Separated)
    (ht : ∀ name ∈ w.timeTagTarget, (Expression.named name).Over hs) (C : Context) (block : List Statement)
    (hpath : scopes.head?.bind (·.scope.blockPath?) = some (Context.path C)) :
    Replays hs [.term w.render] x x scopes (C.plug block)
      (nextLine >>= fun l => pure (Statement.action (.waitForTrigger w) l))
      fun s => C.plug (block ++ [s]) := by
  refine .term rfl fun s number location h hd => ?_
  have htarget : (w.timeTagTarget.map Expression.named).mapM Build.triggerTarget = pure w.timeTagTarget := by
    cases w.timeTagTarget <;> rfl
  have hact : Build.act (.waitForTrigger w) (x.draft.moved ⟨C.plug block, scopes, number, location⟩) =
      .ok ((), x.draft.moved
        ⟨C.plug (block ++ [.action (.waitForTrigger w) location]), scopes, number, location⟩) :=
    Build.act_run (.waitForTrigger w) x.draft ⟨hpath, rfl⟩
  have hstep : Build.waitForTrigger w.elements w.pulse w.trigger (w.timeTagTarget.map .named) s.draft =
      .ok ((), x.draft.moved
        ⟨C.plug (block ++ [.action (.waitForTrigger w) location]), scopes, number, location⟩) := by
    rw [Build.waitForTrigger_eq, Build.triggerAction, htarget, hd]
    exact hact
  exact ⟨_, _, (h.ready.separatedTrigger hw ht hstep).operand.term, h.moved rfl rfl⟩

/-- Waiting for a trigger reads back. Behind the declarations of a program, one of which may be the variable
of the time tag, the line of the statement appends it again, if it has an element or no keyword. -/
theorem WaitForTrigger.line_readsBack (hn : Numbered ds) (hw : ∀ d ∈ ds, d.Writable)
    (hd : ∀ d ∈ ds, d.Shaped) {w : WaitForTrigger} (hs : w.Separated)
    (ht : ∀ target ∈ w.timeTagTarget, ∃ d ∈ ds, d.isArray = false ∧ d.name = target) :
    ∃ lines location, ds.mapM Declaration.render = .ok lines ∧
      Program.ofScript (Script.ofLines (lines ++ [w.render])) =
        .ok { declarations := ds, body := [.action (.waitForTrigger w) location] } := by
  obtain ⟨lines, hr⟩ := declarations_rendered hw hd
  obtain ⟨os, hlines, hdeclared⟩ := declarations_run hn hw hd hr
  have htarget : ∀ name ∈ w.timeTagTarget, (Expression.named name).Over (handlesOf ds) := by
    rintro name hname
    obtain ⟨d, hd, harray, rfl⟩ := ht name hname
    exact Declaration.named_over hd (hw d hd) harray
  have hpath : [Frame.mk 0 .program].head?.bind (·.scope.blockPath?) = some (Context.path []) := rfl
  have hwaits {s} (h : Standing (handlesOf ds) (.declared ds) [] [⟨0, .program⟩] s) :=
    WaitForTrigger.replays hs htarget [] [] hpath h
  obtain ⟨⟨before, hbefore⟩, hall⟩ := hdeclared standing_started
  have hreads : ∃ stmts, ReadsAll (os ++ [.term w.render]) stmts := by
    obtain ⟨-, s, -, hst⟩ := hall before hbefore
    obtain ⟨⟨after, hafter⟩, -⟩ := hwaits hst
    exact ⟨before ++ after, hbefore.append hafter⟩
  have hbuilds (stmts) (h : ReadsAll (os ++ [.term w.render]) stmts) : ∃ s,
      statements stmts State.started = .ok ((), s) ∧ s.programs = 1 ∧ s.draft.scopes.length = 1 ∧
        ∃ l, s.draft.program = { declarations := ds, body := [.action (.waitForTrigger w) l] } := by
    obtain ⟨before, after, rfl, hb, ha⟩ := h.of_append
    obtain ⟨-, s, hrun, hst⟩ := hall before hb
    obtain ⟨a, s', hplaced, hrun', hst'⟩ := (hwaits hst).2 after ha
    obtain ⟨number, location, hdraft⟩ := hst'.draft
    have ha : Statement.action (.waitForTrigger w) _ = a := congrArg Prod.fst (hplaced [])
    refine ⟨s', by rw [statements_append hrun, hrun'], hst'.programs, ?_⟩
    rw [hdraft, ← ha]
    exact ⟨rfl, _, rfl⟩
  obtain ⟨-, p, hscript, location, rfl⟩ := ofScript_programLines
    (P := fun _ p => ∃ l, p = { declarations := ds, body := [.action (.waitForTrigger w) l] })
    (by simp) hreads hbuilds
  have hall : linesOf 1 (os ++ [.term w.render]) = (lines ++ [w.render]).map fun line => ⟨1, line⟩ := by
    rw [linesOf_append, hlines, List.map_append]
    rfl
  exact ⟨lines, location, hr, by rwa [Script.ofLines_eq hall]⟩

end

namespace WaitForTrigger

/-- Without an element, a keyword stands behind a comma of its own, which no script has. -/
theorem line_not_readsBack :
    let w : WaitForTrigger := ⟨[], some "p", none, none⟩
    (∃ d, Build.waitForTrigger [] (some "p") none none {} = .ok ((), d) ∧
      d.program.body = [.action (.waitForTrigger w) ""]) ∧
    ∀ p, Program.ofScript (Script.ofLines [w.render]) ≠ .ok p := by
  intro w
  refine ⟨⟨_, rfl, rfl⟩, fun p hp => ?_⟩
  have hfails : (Program.ofScript (Script.ofLines [w.render])).toBool = false := by decide +kernel
  rw [hp] at hfails
  nomatch hfails

/-- Two elements, a pulse, an output of another element, and the second variable of the program. -/
theorem line_readsBack_all :
    let ds : List Declaration := [⟨"v1", .bool, 1, 0, false, []⟩, ⟨"v2", .int, 1, 0, false, [.int (-3)]⟩]
    let w : WaitForTrigger := ⟨["a\"b", ""], some "p, q", some ⟨"e", some "o)"⟩, some "v2"⟩
    Numbered ds ∧ (∀ d ∈ ds, d.Writable) ∧ (∀ d ∈ ds, d.Shaped) ∧ w.Separated ∧
      (∃ d ∈ ds, d.isArray = false ∧ d.name = "v2") ∧
    ∃ lines location, ds.mapM Declaration.render = .ok lines ∧
      Program.ofScript (Script.ofLines (lines ++ [w.render])) =
        .ok { declarations := ds, body := [.action (.waitForTrigger w) location] } := by
  intro ds w
  have hn : Numbered ds := @Numbered.snoc [_] _ (@Numbered.snoc [] _ .nil rfl) rfl
  have hw : ∀ d ∈ ds, d.Writable := by
    simp only [ds, List.forall_mem_cons]
    exact ⟨⟨by decide, nofun⟩, ⟨by decide, by simp [Literal.Finite]⟩, nofun⟩
  have hd : ∀ d ∈ ds, d.Shaped := by
    simp only [ds, List.forall_mem_cons]
    exact ⟨.scalar rfl rfl (by simp), .scalar rfl rfl (by simp), nofun⟩
  have hs : w.Separated := .inl (List.cons_ne_nil _ _)
  have ht : ∃ d ∈ ds, d.isArray = false ∧ d.name = "v2" :=
    ⟨_, List.mem_cons_of_mem _ List.mem_cons_self, rfl, rfl⟩
  exact ⟨hn, hw, hd, hs, ht, line_readsBack hn hw hd hs fun target h => Option.some.inj h ▸ ht⟩

end WaitForTrigger

end Qua
