import Qua.Proofs.Build.Shorthands
import Qua.Proofs.Canonical
import Qua.Proofs.Replay.Locations
import Qua.Proofs.Script.Comments
import Qua.Proofs.Script.Listing

/-!
# Replaying whole scripts

The script of a program builds what its listing builds, up to locations: its header and the comment on
what is wrong with it have no tokens, and its configuration comes after the program. Main statement:
`Program.toScript_replays`.
-/

namespace Qua
namespace Program

/-- A script adds to the listing only lines without tokens and the assignment of the configuration. -/
theorem toScript_eq {p : Program} {text : String} (h : p.text = .ok text) {options : ScriptOptions}
    (hc : options.configurationText = (configuration, "")) :
    ∃ comment, Script.Blank comment ∧ p.toScript options = .ok (options.headerText ++
      (text ++ (comment ++ Line.render ⟨0, "config" ++ " = " ++ configuration⟩))) := by
  let diagnostic := if options.verify then (p.verify text).diagnostic else ""
  have hdiagnostic : Script.Blank diagnostic := by
    unfold diagnostic
    split
    · exact (p.verify text).blank_diagnostic
    · exact Script.blank_empty
  have hscript : p.toScript options =
      .ok (options.headerText ++ text ++ "" ++ diagnostic ++ "\nconfig = " ++ configuration ++ "\n") := by
    rw [toScript, h, hc]
    rfl
  refine ⟨diagnostic ++ "\n", hdiagnostic.append Script.blank_newLine, hscript.trans (congrArg Except.ok ?_)⟩
  rw [← String.toList_inj]
  simp [Line.render, Line.indentation]

/-- Replaying the script of a program, with or without its header and the comment of the verifier, builds
what replaying the listing builds. -/
theorem toScript_replays {p q : Program} {text : String} (ht : p.text = .ok text)
    (hq : ofScript text = .ok q) (options : ScriptOptions) (hc : options.configuration = none) :
    ∃ script replayed, p.toScript options = .ok script ∧ ofScript script = .ok replayed ∧
      q.unlocated = replayed.unlocated := by
  have hconfiguration : options.configurationText = ("None", "") := by rw [ScriptOptions.configurationText, hc]
  obtain ⟨comment, hcomment, hscript⟩ := toScript_eq ht hconfiguration
  have hname : Text.IsIdentifier "config" := by decide
  obtain ⟨replayed, hreplayed, hsame⟩ := ofScript_continued hq (text_ended ht)
    options.blank_headerText hcomment hname Script.IsPrimary.none.term.spread fun _ => ⟨.none, rfl⟩
  exact ⟨_, replayed, hscript, hreplayed, hsame⟩

/-- A loop whose body is built before its initialisation. The tag stands for a stream of timestamps when
the loop is built, and for a saved stream when its script is replayed. -/
def loopFromBody : Build Unit := do
  let v ← Build.declare .int none none
  let loop ← Build.openLoop
  let body ← Build.openLoopPart .body
  Build.play (.named "pulse") "q" { timestampStream := some (.tag "x") }
  Build.closeScope body
  let init ← Build.openLoopPart .init
  Build.save v (.tag "x")
  Build.closeScope init
  Build.setLoopCondition (.bool true)
  Build.closeScope loop

/-- A script that saves more or fewer results than the program is not right for it. -/
theorem verify_of_length {p q : Program} {text : String} (hq : ofScript text = .ok q)
    (h : p.results.entries.length ≠ q.results.entries.length) : (p.verify text).isEqual = false := by
  have hne : ¬(p.canonical == q.canonical) = true := by
    intro he
    have hresults : p.canonical.results = q.canonical.results :=
      (congrArg results ((beq_iff _ _).mp he) :)
    rw [← length_canonical p, ← length_canonical q, hresults] at h
    exact h rfl
  rw [verify, hq]
  simp only [hne, Bool.false_eq_true, if_false]
  rfl

theorem toScript_replays_loopFromBody :
    ∃ p text q, (({} : Session).apply loopFromBody).2.finish = .ok p ∧ p.text = .ok text ∧
      ofScript text = .ok q ∧ (p.verify text).isEqual = false ∧ ∃ script replayed,
        p.toScript {} = .ok script ∧ ofScript script = .ok replayed ∧ q.unlocated = replayed.unlocated := by
  let p := (({} : Session).apply loopFromBody).2.draft.program
  let text := "from qm.qua import *

with program() as prog:
    v1 = declare(int)
    with for_():
        with for_init_():
            save(v1, \"x\")
        for_cond(True)
        with for_update_():
            pass
        with for_body_():
            play(\"pulse\", \"q\", timestamp_stream=\"x\")
"
  have hfinish : (({} : Session).apply loopFromBody).2.finish = .ok p :=
    Session.finish_eq_ok.mpr ⟨by decide +kernel, by decide +kernel, rfl⟩
  have ht : p.text = .ok text := by decide +kernel
  have hsaves : (fun q => q.results.entries.length) <$> ofScript text = .ok 2 := by
    set_option maxRecDepth 4000 in
    rw [ofScript, Script.parse, show text = String.ofList _ from rfl, Script.lex_ofList]
    decide +kernel
  obtain ⟨q, hq, hlength⟩ := except_map_eq_ok.mp hsaves
  have hverify : (p.verify text).isEqual = false :=
    verify_of_length hq (by rw [hlength]; decide +kernel)
  exact ⟨p, text, q, hfinish, ht, hq, hverify, toScript_replays ht hq {} rfl⟩

end Program
end Qua
