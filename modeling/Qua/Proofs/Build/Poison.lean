import Qua.Proofs.Build.Reachable

/-!
# Programs come of whole sessions

From what the events of a session answer it can be told which scopes are open, and whether anything has
failed. A program comes of the session only if nothing has and no scope is open. Main statement:
`Session.finish_or_poisoned`.
-/

namespace Qua

open Site (key)

/-- The scopes that are open after an event, the innermost first, if it has not failed: a call opens the
scope that it answers, and only the innermost scope is released. -/
def Event.openAfter (opened : List Nat) : Event → Answer → Option (List Nat)
  | .call _ _, .ok (.scope number) => some (number :: opened)
  | .call _ _, .ok _ => some opened
  | .close number, .ok _ => if opened.head? = some number then some opened.tail else none
  | .drop number, .ok _ => if opened.head? = some number then some opened.tail else none
  | _, .error _ => none

namespace Session

/-- The scopes that are open after events of which none has failed. -/
def openScopes : List Nat → List (Event × Answer) → Option (List Nat)
  | opened, [] => some opened
  | opened, (event, answer) :: rest =>
    (event.openAfter opened answer).bind fun opened => openScopes opened rest

/-- The events of a session from its start on, with their answers. -/
def transcript (events : List Event) : List (Event × Answer) := events.zip (run events {}).1

/-- The session has not failed, and those are its open scopes besides the program. -/
structure Tracks (opened : List Nat) (s : Session) : Prop where
  unfailed : s.poison = none
  inOrder : s.draft.site.Scoped
  keys : s.draft.scopes.map key = opened.map (·, false) ++ [(0, true)]

theorem tracks_initial : Tracks [] {} := ⟨rfl, Site.scoped_initial, rfl⟩

/-- The innermost open scope is the innermost scope of the session. -/
theorem Tracks.innermost {opened : List Nat} {s : Session} (h : Tracks opened s) (number : Nat) :
    s.draft.site.IsInnermost number ↔ opened.head? = some number := by
  have hk := h.keys
  constructor
  · rintro ⟨scope, outer, hs, hp⟩
    rw [show s.draft.scopes = _ from hs, List.map_cons] at hk
    cases opened with
    | nil =>
      obtain ⟨hk, -⟩ := List.cons.inj hk
      rw [show scope.isProgram = true from (Prod.mk.inj hk).2] at hp
      nomatch hp
    | cons id opened =>
      obtain ⟨hk, -⟩ := List.cons.inj hk
      exact congrArg some (Prod.mk.inj hk).1.symm
  · intro ho
    obtain ⟨opened, rfl⟩ := List.head?_eq_some_iff.mp ho
    rw [List.map_cons, List.cons_append] at hk
    obtain ⟨⟨id, scope⟩, outer, hs, he, -⟩ := List.map_eq_cons_iff.mp hk
    obtain ⟨rfl, hp⟩ := Prod.mk.inj (he : (id, scope.isProgram) = (number, false))
    exact ⟨scope, outer, hs, hp⟩

/-- An event that moves the scopes leaves those open that can be told from its answer. -/
theorem Tracks.moves {opened : List Nat} {event : Event} (h : Tracks opened ⟨d, none⟩)
    (hm : event.Moves outcome d.site t.site) :
    ∃ opened', event.openAfter opened (.ok outcome) = some opened' ∧ Tracks opened' ⟨t, none⟩ := by
  have hw := hm.scoped h.inOrder
  have hrelease (number : Nat) (hc : Site.Closes number d.site t.site) :
      opened.head? = some number ∧ Tracks opened.tail ⟨t, none⟩ := by
    obtain ⟨scope, hp, hs⟩ := hc.scopes
    have ho := (h.innermost number).mp ⟨scope, t.scopes, hs, hp⟩
    obtain ⟨opened, rfl⟩ := List.head?_eq_some_iff.mp ho
    have hk := h.keys
    rw [show d.scopes = _ from hs] at hk
    exact ⟨ho, rfl, hw, (List.cons.inj hk).2⟩
  cases event with
  | call call l =>
    cases outcome with
    | scope number =>
      obtain ⟨between, scope, hk, rfl, hp, -, ht⟩ := hm
      refine ⟨d.nextScope :: opened, rfl, rfl, hw, ?_⟩
      rw [show t.scopes = _ from congrArg Site.scopes ht, Site.opened, List.map_cons, hk.keys]
      rw [show d.site.scopes.map key = _ from h.keys, key, hp, hk.nextScope]
      rfl
    | _ => exact ⟨opened, rfl, rfl, hw, (Site.Keeps.keys hm).trans h.keys⟩
  | close number =>
    obtain ⟨ho, ht⟩ := hrelease number hm
    exact ⟨opened.tail, by rw [Event.openAfter, if_pos ho], ht⟩
  | drop number =>
    obtain ⟨ho, ht⟩ := hrelease number hm
    exact ⟨opened.tail, by rw [Event.openAfter, if_pos ho], ht⟩

/-- An event either can be told from its answer to have failed, and has poisoned the session, or the
scopes that are open then can be told. -/
theorem Tracks.perform {opened : List Nat} {s : Session} (h : Tracks opened s) (event : Event) :
    (∃ opened', event.openAfter opened (event.perform s).1 = some opened' ∧
      Tracks opened' (event.perform s).2) ∨
    (event.openAfter opened (event.perform s).1 = none ∧
      ∃ d e, (event.perform s).2 = ⟨d, some e.message⟩ ∧
        event.FailsWith e s.draft.site (event.perform s).1) := by
  obtain ⟨d, poison⟩ := s
  obtain rfl : poison = none := h.unfailed
  obtain ⟨outcome, t, hrun, hm⟩ | ⟨answer, d', e, hrun, hf⟩ := event.perform_cases h.inOrder
  · rw [hrun]
    exact .inl (h.moves hm)
  · rw [hrun]
    refine .inr ⟨?_, d', e, rfl, hf⟩
    obtain rfl | ⟨-, number, rfl, hn⟩ := hf
    · cases event <;> rfl
    · rw [h.innermost] at hn
      cases answer with
      | error e => rfl
      | ok outcome => rw [Event.openAfter, if_neg hn]

/-- Events either leave those scopes open that can be told from their answers, or there is a first one
among them that fails. -/
theorem Tracks.run {opened : List Nat} {s : Session} (h : Tracks opened s) (events : List Event) :
    (∃ opened', openScopes opened (events.zip (run events s).1) = some opened' ∧
      Tracks opened' (run events s).2) ∨
    (openScopes opened (events.zip (run events s).1) = none ∧
      ∃ before event after d e, events = before ++ event :: after ∧
        (openScopes opened (before.zip (Session.run before s).1)).isSome ∧
        (event.perform (Session.run before s).2).2 = ⟨d, some e.message⟩ ∧
        event.FailsWith e (Session.run before s).2.draft.site
          (event.perform (Session.run before s).2).1) := by
  induction events generalizing opened s with
  | nil => exact .inl ⟨opened, rfl, h⟩
  | cons event events ih =>
    rw [run_cons, List.zip_cons_cons, openScopes]
    obtain ⟨opened', ho, ht⟩ | ⟨ho, d, e, hrun, hf⟩ := h.perform event
    · rw [ho, Option.bind_some]
      obtain hopen | ⟨hn, before, failing, after, d, e, rfl, hb, hrun, hf⟩ := ih ht
      · exact .inl hopen
      · refine .inr ⟨hn, event :: before, failing, after, d, e, rfl, ?_, hrun, hf⟩
        rwa [run_cons, List.zip_cons_cons, openScopes, ho, Option.bind_some]
    · rw [ho]
      exact .inr ⟨rfl, [], event, events, d, e, rfl, rfl, hrun, hf⟩

theorem Tracks.finish {opened : List Nat} {s : Session} (h : Tracks opened s) :
    s.finish = if opened = [] then .ok s.draft.program else .error (.unclosedScopes opened.length) := by
  obtain ⟨d, poison⟩ := s
  obtain rfl : poison = none := h.unfailed
  have hl : d.scopes.length = opened.length + 1 := by
    simpa using congrArg List.length h.keys
  cases opened with
  | nil => simp [Session.finish, finishDraft, hl]
  | cons number opened => simp [Session.finish, finishDraft, hl]

/-- A program comes of a session exactly if no event has failed and each scope opened was released while
it was the innermost one. After the first event that fails, every later one is answered with its message,
which nothing replaces, and so is the end of the session, whatever the event has left of the draft. -/
theorem finish_or_poisoned (events : List Event) :
    ((∃ p, (run events {}).2.finish = .ok p) ↔ openScopes [] (transcript events) = some []) ∧
    (openScopes [] (transcript events) = none →
      ∃ before event after e, events = before ++ event :: after ∧
        (openScopes [] (transcript before)).isSome ∧
        event.FailsWith e (run before {}).2.draft.site (event.perform (run before {}).2).1 ∧
        (run events {}).1 = (run before {}).1 ++
          (event.perform (run before {}).2).1 :: after.map (Event.answerAfter e.message) ∧
        (run events {}).2.finish = .error (.poisoned e.message) ∧
        ∀ (d : Draft) (later : List Event),
          run later ⟨d, some e.message⟩ =
            (later.map (Event.answerAfter e.message), ⟨d, some e.message⟩) ∧
          finish ⟨d, some e.message⟩ = .error (.poisoned e.message)) := by
  obtain ⟨opened, ho, ht⟩ | ⟨hn, before, event, after, d, e, rfl, hb, hrun, hf⟩ :=
    tracks_initial.run events
  · rw [transcript, ho, ht.finish]
    refine ⟨?_, fun h => nomatch h⟩
    cases opened with
    | nil => simp
    | cons number opened => simp
  · have hlater : run (before ++ event :: after) {} =
        ((run before {}).1 ++ (event.perform (run before {}).2).1 ::
          after.map (Event.answerAfter e.message), ⟨d, some e.message⟩) := by
      rw [run_append, run_cons, hrun, run_poisoned]
    rw [transcript, hn]
    refine ⟨?_, fun _ => ⟨before, event, after, e, rfl, hb, hf, by rw [hlater], by rw [hlater]; rfl,
      fun d later => ⟨run_poisoned later d e.message, rfl⟩⟩⟩
    rw [hlater]
    exact ⟨fun ⟨p, hp⟩ => (nomatch hp), fun h => (nomatch h)⟩

/-- Releasing the outer of two scopes fails; a declaration is answered with the reason of that, and a
release with nothing. -/
theorem finish_or_poisoned_release :
    let events : List Event := [.call (.enter (.conditional (.named "v1") false)) "1",
      .call (.enter (.block .strictTiming)) "2", .close 1,
      .call (.request (.declare .int none none)) "3", .drop 2]
    openScopes [] (transcript events) = none ∧ ∃ before event after e,
      events = before ++ event :: after ∧
        event.FailsWith e (run before {}).2.draft.site (event.perform (run before {}).2).1 ∧
        (run events {}).2.finish = .error (.poisoned e.message) := by
  intro events
  have hn : openScopes [] (transcript events) = none := rfl
  obtain ⟨before, event, after, e, he, -, hf, -, hp, -⟩ := (finish_or_poisoned events).2 hn
  exact ⟨hn, before, event, after, e, he, hf, hp⟩

end Session
end Qua
