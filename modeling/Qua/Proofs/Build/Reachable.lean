import Qua.Proofs.Build.Discipline

/-!
# Sessions that have not failed

What has been made of a session by any events, as long as none has failed: its scopes are in order,
and the innermost of them decides which calls it takes next. Main statement: `Session.run_disciplined`.
-/

namespace Qua

open Site (Closes)

namespace Site

/-- The scope of that number is the innermost one, and not the program. -/
def IsInnermost (number : Nat) (s : Site) : Prop :=
  ∃ scope outer, s.scopes = ⟨number, scope⟩ :: outer ∧ scope.isProgram = false

theorem scoped_initial : ({} : Draft).site.Scoped where
  bottom := ⟨[], rfl, by simp⟩
  ordered := List.pairwise_singleton ..
  fresh frame hf := by
    obtain rfl := List.mem_singleton.mp hf
    exact Nat.zero_lt_one
  resolved frame hf := by
    obtain rfl := List.mem_singleton.mp hf
    trivial

end Site

namespace Event

/-- What an event that does not fail has done with the scopes. -/
def Moves : Event → Outcome → Site → Site → Prop
  | .call _ _, outcome => outcome.Moves
  | .close number, _ => Closes number
  | .drop number, _ => Closes number

theorem Moves.scoped {event : Event} {s t : Site} (h : event.Moves outcome s t) (hs : s.Scoped) :
    t.Scoped := by
  cases event with
  | call call l =>
    cases outcome with
    | scope number => exact Site.Opens.scoped h hs
    | _ => exact Site.Keeps.scoped h hs
  | close number => exact Site.Closes.scoped h hs
  | drop number => exact Site.Closes.scoped h hs

/-- The event fails: it answers an error, or lets go of a scope that is not the innermost one. -/
def FailsWith (e : BuildError) (s : Site) (event : Event) (answer : Answer) : Prop :=
  answer = .error e ∨ e = .unexpectedStack ∧ ∃ number, event = .drop number ∧ ¬s.IsInnermost number

theorem close_cases (number : Nat) (d : Draft) :
    (d.site.IsInnermost number ∧ ∃ t, Session.close number ⟨d, none⟩ = (.ok (), ⟨t, none⟩) ∧
      Closes number d.site t.site) ∨
    (¬d.site.IsInnermost number ∧ Session.close number ⟨d, none⟩ =
      (.error .unexpectedStack, ⟨d, some BuildError.unexpectedStack.message⟩)) := by
  obtain ⟨scope, outer, hs, hp, hrun⟩ | ⟨hn, hrun⟩ := Build.closeScope_cases d number
  · refine .inl ⟨⟨scope, outer, hs, hp⟩, _, by simp [Session.close, Session.apply, hrun]; rfl, ?_⟩
    exact ⟨⟨scope, hp, hs⟩, rfl, rfl⟩
  · exact .inr ⟨hn, by simp [Session.close, Session.apply, hrun]⟩

/-- An event fails and poisons the session, or it does not and moves the scopes. -/
theorem perform_cases (event : Event) (h : d.site.Scoped) :
    (∃ outcome t, event.perform ⟨d, none⟩ = (.ok outcome, ⟨t, none⟩) ∧
      event.Moves outcome d.site t.site) ∨
    (∃ answer d' e, event.perform ⟨d, none⟩ = (answer, ⟨d', some e.message⟩) ∧
      event.FailsWith e d.site answer) := by
  cases event with
  | call call l =>
    obtain ⟨-, -, ⟨-, outcome, t, hrun, hm⟩ | ⟨-, e, d', hrun, -⟩⟩ := call.perform_settles l h
    · exact .inl ⟨outcome, t, hrun, hm⟩
    · exact .inr ⟨.error e, d', e, hrun, .inl rfl⟩
  | close number =>
    obtain ⟨-, t, hrun, hc⟩ | ⟨hn, hrun⟩ := close_cases number d
    · exact .inl ⟨.done, t, Calls.bind_ok hrun, hc⟩
    · refine .inr ⟨.error .unexpectedStack, d, .unexpectedStack, ?_, .inl rfl⟩
      simp only [perform, bind, ExceptT.bind, ExceptT.mk, StateT.bind, hrun]
      rfl
  | drop number =>
    obtain ⟨-, t, hrun, hc⟩ | ⟨hn, hrun⟩ := close_cases number d
    · exact .inl ⟨.done, t, by simp [perform, Session.release, hrun], hc⟩
    · exact .inr ⟨.ok .done, d, .unexpectedStack, by simp [perform, Session.release, hrun],
        .inr ⟨rfl, number, rfl, hn⟩⟩

/-- In a poisoned session, what adds nothing does nothing, and all else is answered with the reason. -/
def answerAfter (reason : String) : Event → Answer
  | .call (.leaf (.resetFrame [])) _ => .ok .done
  | .call (.leaf (.frameRotation _ [])) _ => .ok .done
  | .call (.leaf (.frameRotation2pi _ [])) _ => .ok .done
  | .drop _ => .ok .done
  | _ => .error (.poisoned reason)

theorem callEach_poisoned {steps : List (Build Unit)} (h : steps ≠ []) (d : Draft) (reason : String) :
    Calls.callEach steps ⟨d, some reason⟩ = (.error (.poisoned reason), ⟨d, some reason⟩) := by
  cases steps with
  | nil => exact absurd rfl h
  | cons step steps => rfl

theorem perform_poisoned (event : Event) (d : Draft) (reason : String) :
    event.perform ⟨d, some reason⟩ = (event.answerAfter reason, ⟨d, some reason⟩) := by
  cases event with
  | close number => rfl
  | drop number => rfl
  | call call l =>
    cases call with
    | leaf made =>
      have hrun (h : made.steps ≠ []) : perform (.call (.leaf made) l) ⟨d, some reason⟩ =
          (.error (.poisoned reason), ⟨d, some reason⟩) := by
        simp only [perform, Call.perform, bind, ExceptT.bind, ExceptT.mk, StateT.bind]
        rw [callEach_poisoned (by simpa using h)]
        rfl
      cases made with
      | resetFrame elements => cases elements <;> rfl
      | frameRotation angle elements => cases elements <;> rfl
      | frameRotation2pi angle elements => cases elements <;> rfl
      | _ => exact hrun (by simp [Leaf.steps])
    | _ => rfl

end Event

namespace Session

theorem run_poisoned (events : List Event) (d : Draft) (reason : String) :
    run events ⟨d, some reason⟩ = (events.map (Event.answerAfter reason), ⟨d, some reason⟩) := by
  induction events with
  | nil => rfl
  | cons event events ih => rw [run_cons, Event.perform_poisoned, ih, List.map_cons]

/-- The scopes of a session are in order as long as it has not failed. -/
theorem run_scoped (events : List Event) (hd : d.site.Scoped)
    (h : (run events ⟨d, none⟩).2.poison = none) :
    ∃ t, (run events ⟨d, none⟩).2 = ⟨t, none⟩ ∧ t.site.Scoped := by
  induction events generalizing d with
  | nil => exact ⟨d, rfl, hd⟩
  | cons event events ih =>
    rw [run_cons] at h ⊢
    obtain ⟨outcome, t, hrun, hm⟩ | ⟨answer, d', e, hrun, -⟩ := event.perform_cases hd
    · rw [hrun] at h ⊢
      exact ih (hm.scoped hd) h
    · rw [hrun, run_poisoned] at h
      nomatch h

/-- In every session that has not failed, the open scopes lie on the program, which has the number 0;
their numbers grow inwards; and each finds the block or the statement it stands for. Calls with valid
operands are taken exactly in the scopes that admit them, only the innermost scope can be released, and no
call fails over the stack of scopes. -/
theorem run_disciplined (events : List Event) (h : (run events {}).2.poison = none) :
    let s := (run events {}).2
    s.draft.site.Scoped ∧
    (∀ call l, Call.Valid s.draft call →
      ((∃ outcome, (call.perform l s).1 = .ok outcome) ↔ call.Admitted s.draft.site)) ∧
    (∀ number, (∃ outcome, ((Event.close number).perform s).1 = .ok outcome) ↔
      s.draft.site.IsInnermost number) ∧
    (∀ number, ((Event.drop number).perform s).2.poison = none ↔
      s.draft.site.IsInnermost number) ∧
    ∀ call l, (Call.perform l call s).1 ≠ .error .unexpectedStack := by
  intro s
  obtain ⟨d, hs, hd⟩ := run_scoped events Site.scoped_initial h
  replace hs : s = ⟨d, none⟩ := hs
  clear_value s
  subst hs
  refine ⟨hd, fun call l hv => ?_, fun number => ?_, fun number => ?_, fun call l => ?_⟩
  · obtain ⟨operands, ho, ⟨ha, outcome, t, hrun, -⟩ | ⟨ha, e, d', hrun, -⟩⟩ :=
      call.perform_settles l hd
    · exact ⟨fun _ => ha.2, fun _ => ⟨outcome, by rw [hrun]⟩⟩
    · refine ⟨fun ⟨outcome, hok⟩ => ?_, fun hadmitted => absurd ⟨ho hv, hadmitted⟩ ha⟩
      rw [hrun] at hok
      nomatch hok
  · obtain ⟨hi, t, hrun, -⟩ | ⟨hn, hrun⟩ := Event.close_cases number d
    · exact ⟨fun _ => hi, fun _ => ⟨.done, by rw [Event.perform, Calls.bind_ok hrun]; rfl⟩⟩
    · refine ⟨fun ⟨outcome, hok⟩ => ?_, fun hi => absurd hi hn⟩
      simp only [Event.perform, bind, ExceptT.bind, ExceptT.mk, StateT.bind, hrun] at hok
      nomatch hok
  · obtain ⟨hi, t, hrun, -⟩ | ⟨hn, hrun⟩ := Event.close_cases number d
    · exact ⟨fun _ => hi, fun _ => by simp [Event.perform, Session.release, hrun]⟩
    · simp [Event.perform, Session.release, hrun, hn]
  · obtain ⟨-, -, ⟨-, outcome, t, hrun, -⟩ | ⟨-, e, d', hrun, he⟩⟩ := call.perform_settles l hd
    · rw [hrun]
      simp
    · rw [hrun]
      exact fun h => he (Except.error.inj h)

/-- With a switch after its first case, `default` is admitted and `else` is not. -/
theorem run_disciplined_switch :
    let s := (run [.call (.enter (.switch (.named "v1") false)) "1",
      .call (.enter (.case (.int 0))) "2", .close 2] {}).2
    s.poison = none ∧ (∃ outcome, ((Call.enter .default).perform "3" s).1 = .ok outcome) ∧
      ¬∃ outcome, ((Call.enter .otherwise).perform "3" s).1 = .ok outcome := by
  obtain ⟨-, hcalls, -⟩ := run_disciplined
    [.call (.enter (.switch (.named "v1") false)) "1", .call (.enter (.case (.int 0))) "2", .close 2] rfl
  refine ⟨rfl, (hcalls (.enter .default) "3" trivial).mpr ?_, fun h => ?_⟩
  · exact ⟨[], .named "v1", false, 0, _, _, _, _, _, rfl, rfl⟩
  · obtain ⟨_, _, _, _, _, _, _, hp, -⟩ := (hcalls (.enter .otherwise) "3" trivial).mp h
    nomatch hp

end Session
end Qua
