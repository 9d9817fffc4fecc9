import Qua.Program.ToScript
import Qua.Proofs.Replay.Steps

/-!
# Replaying a script at other lines

The statements of a script at other lines build the same program up to locations, and a script goes on
to do so after comments and before its configuration. Main statement: `ofScript_continued`.
-/

namespace Qua

/-- No step of a call looks at locations. -/
theorem Build.respected_unlocated : Build.Respected True fun d e => d.unlocated = e.unlocated where
  request asked := asked.step_local.blind
  leaf leaf _ := .forM (Build.Leaf.blind leaf)
  loopCondition := Build.blind_setLoopCondition
  enter := Build.Entry.blind
  close := Build.blind_closeScope
  located _ _ _ _ h := h

namespace Replay

open Script (Term Stmt)

/-- After a script without a block, the module still builds what it did. -/
theorem module_append (h : Script.AllAlike ss ss') (hm : module ss {} = .ok ((), s)) {last : Stmt}
    (hlast : ∀ s, ∃ environment, topLevel last s = .ok ((), { s with environment := environment })) :
    ∃ t, module (ss' ++ [last]) {} = .ok ((), t) ∧ s.draft.unlocated = t.draft.unlocated := by
  obtain ⟨⟨⟩, u, hu, hm⟩ := bind_eq_ok.mp hm
  obtain ⟨v, hv, hdraft, hvu⟩ := simulates_topLevels Build.respected_unlocated h
    (Script.allows_true _) ⟨rfl, rfl⟩ hu
  obtain ⟨environment, hlast⟩ := hlast v
  rw [bind_run, get_run] at hm
  simp only at hm
  split at hm
  · nomatch hm
  · next hprograms =>
    obtain ⟨-, rfl⟩ := pure_eq_ok.mp hm
    refine ⟨{ v with environment := environment }, ?_, hdraft⟩
    have hall : (ss' ++ [last]).forM (fun s => atLine s.line (topLevel s)) {} =
        .ok ((), { v with environment := environment }) := by
      rw [List.forM_eq_forM, List.forM_append, bind_run, ← List.forM_eq_forM, hv]
      change (atLine last.line (topLevel last) >>= fun _ => pure ()) v = _
      rw [bind_run, atLine, hlast]
      rfl
    rw [module, bind_run, hall]
    simp only
    rw [bind_run, get_run]
    simp only
    rw [if_neg]
    · rfl
    · rwa [hvu]

end Replay

open Replay (evaluate) in
/-- A script builds the same program, up to locations, after lines without tokens and before more of them
and the assignment of a value that does not depend on the program. -/
theorem ofScript_continued (h : Program.ofScript text = .ok p) (he : Text.Ended text.toList)
    (hb : Script.Blank before) (hb' : Script.Blank comment) (hn : Text.IsIdentifier name)
    (ht : Script.Spread (Script.ReadsTerm · t) literal) (hv : ∀ s, ∃ value, evaluate t s = .ok (value, s)) :
    ∃ q, Program.ofScript (before ++ (text ++ (comment ++
        Line.render ⟨0, name ++ " = " ++ literal⟩))) = .ok q ∧ p.unlocated = q.unlocated := by
  unfold Program.ofScript at h ⊢
  cases hp : Script.parse text with
  | error e =>
    rw [hp] at h
    cases h
  | ok ss =>
    rw [hp] at h
    simp only at h
    obtain ⟨ss', number, hall, hparse⟩ := Script.parse_continued hp he hb hb' hn ht
    rw [hparse]
    simp only
    cases hm : Replay.module ss {} with
    | error e =>
      rw [hm] at h
      cases h
    | ok result =>
      obtain ⟨⟨⟩, s⟩ := result
      rw [hm] at h
      simp only at h
      have hassign (s : Replay.State) : ∃ environment, Replay.topLevel (.assign number (.name name) t) s =
          .ok ((), { s with environment := environment }) := by
        obtain ⟨value, hv⟩ := hv s
        refine ⟨(name, value) :: s.environment, ?_⟩
        change (evaluate t >>= Replay.bind name) s = _
        rw [bind_run, hv]
        rfl
      obtain ⟨u, hu, hdraft⟩ := Replay.module_append hall hm hassign
      have hscopes : s.draft.scopes = u.draft.scopes := (congrArg Draft.scopes hdraft :)
      have hprogram : s.draft.program.unlocated = u.draft.program.unlocated := (congrArg Draft.program hdraft :)
      rw [hu]
      simp only [Session.finishDraft, ← hscopes] at h ⊢
      split at h
      · next program hfinish =>
        split at hfinish
        · cases hfinish
        · next hclosed =>
          obtain rfl := Except.ok.inj hfinish
          obtain rfl := Except.ok.inj h
          rw [if_neg hclosed]
          exact ⟨_, rfl, hprogram⟩
      · cases h

end Qua
