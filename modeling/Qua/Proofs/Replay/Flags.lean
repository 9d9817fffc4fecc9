import Qua.Proofs.Build.Shorthands
import Qua.Proofs.Replay.Sessions

/-!
# The flags of a program

The flags of every program, whether a session or a script has built it, agree with its body, except that a
fast rotation of no elements raises its flag too. The text of a program does not mention the flags, which a
replay finds again for that reason. Main statement: `Session.metadata_agrees`.
-/

namespace Qua

open Statement (actionsOf walkBlock)

/-- The actions of the body, whatever they stand in. -/
def Program.actions (p : Program) : List Action := actionsOf (walkBlock p.body)

/-- The flags agree with the actions of the body; the one for fast rotations may be raised without any if `E`
holds. -/
structure Program.Flagged (E : Prop) (p : Program) : Prop where
  timestamps : p.metadata.usesCommandTimestamps = true ↔ ∃ a ∈ p.actions, a.writesTimestamps = true
  rotates : (∃ a ∈ p.actions, a.rotatesFast = true) → p.metadata.usesFastFrameRotation = true
  rotated : p.metadata.usesFastFrameRotation = true → (∃ a ∈ p.actions, a.rotatesFast = true) ∨ E

theorem Program.Flagged.weaken {E E' : Prop} {p : Program} (h : p.Flagged E) (hE : E → E') : p.Flagged E' :=
  ⟨h.timestamps, h.rotates, fun hr => (h.rotated hr).imp_right hE⟩

theorem Draft.Flagged.program {E : Prop} {d : Draft} (h : d.Flagged E) : d.program.Flagged E := by
  have hfinds (p : Action → Bool) : d.finds p = true ↔ ∃ a ∈ d.program.actions, p a = true := List.any_eq_true
  constructor
  · rw [h.timestamps, hfinds]
  · rw [← hfinds]
    exact h.rotates
  · rw [← hfinds]
    exact h.rotated

/-- The flags of a draft that a session has made. -/
theorem Draft.Made.flagged {E : Prop} {d : Draft} (h : d.Made E) : d.Flagged E := by
  obtain ⟨events, ha, hs⟩ := h
  exact Session.run_flagged ha Site.scoped_initial Draft.flagged_initial hs

namespace Session

/-- In every program that a session finishes, and in every program of a script, the flag for timestamps is
raised if and only if some `play` or `measure`, nested however deep, has a stream for them, and the flag for fast
rotations is raised if there is a fast rotation. If there is none, that flag is raised only if a fast rotation
of no elements was called for. -/
theorem metadata_agrees (p : Program) :
    (∀ events, (∀ event ∈ events, Event.isGenuine event = true) → (run events {}).2.finish = .ok p →
      p.Flagged (∃ event ∈ events, event.isEmptyRotation = true)) ∧
    ∀ script, Program.ofScript script = .ok p →
      ∃ ss, Script.parse script = .ok ss ∧ p.Flagged (∃ call ∈ Script.callsBlock ss, call.IsEmptyRotation) := by
  refine ⟨fun events hg h => ?_, fun script h => ?_⟩
  · obtain ⟨hpoison, -, rfl⟩ := finish_eq_ok.mp h
    have hs : (run events {}).2 = ⟨(run events {}).2.draft, none⟩ := congrArg (Session.mk _) hpoison
    have hmade : (run events {}).2.draft.Made (∃ event ∈ events, event.isEmptyRotation = true) :=
      ⟨events, fun event he => ⟨hg event he, fun hempty => ⟨event, he, hempty⟩⟩, hs⟩
    exact hmade.flagged.program
  · obtain ⟨ss, hss, hmade⟩ := ofScript_made h
    obtain ⟨d, hd, rfl⟩ := hmade (∃ call ∈ Script.callsBlock ss, call.IsEmptyRotation)
      fun call hc hempty => ⟨call, hc, hempty⟩
    exact ⟨ss, hss, hd.flagged.program⟩

/-- A fast rotation of no elements raises the flag, and there is no fast rotation in the body. -/
theorem metadata_not_agrees : ∃ events p, (∀ event ∈ events, Event.isGenuine event = true) ∧
    (run events {}).2.finish = .ok p ∧ p.metadata.usesFastFrameRotation = true ∧
      ¬∃ a ∈ p.actions, a.rotatesFast = true := by
  refine ⟨[.call (.leaf (.fastFrameRotation (.int 1) (.int 0) [])) "1"], _, ?_, rfl, rfl, ?_⟩
  · simp [Event.isGenuine, Leaf.isGenuine]
  · rintro ⟨a, ha, -⟩
    nomatch ha

/-- Both flags are raised for a measurement and a rotation inside a loop, and the flag for timestamps is not
raised for the script of a rotation. -/
theorem metadata_agrees_nested :
    let events : List Event := [.call (.enter (.block .infiniteLoop)) "1",
      .call (.leaf (.measure "p" "q" { timestampStream := some (.tag "t") })) "2",
      .call (.leaf (.fastFrameRotation (.int 1) (.int 0) ["q"])) "3", .close 1]
    let script := "with program() as prog:\n    fast_frame_rotation(1, 0, \"q\")\n"
    (∃ p, (run events {}).2.finish = .ok p ∧ p.metadata = ⟨true, true⟩ ∧ p.Flagged False) ∧
      ∃ p, Program.ofScript script = .ok p ∧ p.metadata = ⟨false, true⟩ ∧ p.Flagged False := by
  intro events script
  constructor
  · have hmetadata : Program.metadata <$> (run events {}).2.finish = .ok ⟨true, true⟩ := by decide +kernel
    obtain ⟨p, hp, hmetadata⟩ := except_map_eq_ok.mp hmetadata
    have hgenuine : ∀ event ∈ events, event.isGenuine = true := by decide
    have hnone : ∀ event ∈ events, event.isEmptyRotation = false := by decide
    refine ⟨p, hp, hmetadata, ((metadata_agrees p).1 events hgenuine hp).weaken ?_⟩
    rintro ⟨event, he, hempty⟩
    exact nomatch (hnone event he).symm.trans hempty
  · have hmetadata : Program.metadata <$> Program.ofScript script = .ok ⟨false, true⟩ := by decide +kernel
    obtain ⟨p, hp, hmetadata⟩ := except_map_eq_ok.mp hmetadata
    have hcalls : Script.callsBlock <$> Script.parse script =
        .ok [⟨"program", 0⟩, ⟨"fast_frame_rotation", 3⟩] := by decide +kernel
    obtain ⟨ss, hss, hflagged⟩ := (metadata_agrees p).2 script hp
    obtain ⟨ss', hss', hcalls⟩ := except_map_eq_ok.mp hcalls
    obtain rfl := Except.ok.inj (hss.symm.trans hss')
    refine ⟨p, hp, hmetadata, hflagged.weaken ?_⟩
    rw [hcalls]
    simp [Script.NamedCall.IsEmptyRotation]

end Session
end Qua
