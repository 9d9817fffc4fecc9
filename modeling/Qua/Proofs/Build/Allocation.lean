import Qua.Proofs.Build.Shorthands

/-!
# Names do not clash

However a session mixes declarations of its own, input streams and all that is declared on the way, no
two declarations have the same name, no two streams have, and no stream is named like a declaration. Main
statement: `Session.names_distinct`.
-/

namespace Qua

open Declaration (isNumbered stem)
open Build (Adds Along Course useTag)

-- ---------------------------------------------------------------------------
-- Declarations
-- ---------------------------------------------------------------------------

/-- The declarations of a draft have their names in order, and the draft knows how many there are. -/
structure Draft.Named (d : Draft) : Prop where
  numbered : Numbered d.program.declarations
  handedOut : ∀ isArray, d.handedOut isArray = d.program.declarations.countP (isNumbered isArray)
  inputStreams : ∀ e ∈ d.program.declarations, e.isInputStream = true → e.name ∈ d.inputStreams

theorem Draft.named_initial : ({} : Draft).Named where
  numbered := .nil
  handedOut isArray := by cases isArray <;> rfl
  inputStreams _ h := nomatch h

/-- Streams, saves and what is not gathered do not matter. -/
theorem Draft.Named.of_eq {d t : Draft} (h : d.Named) (hd : t.program.declarations = d.program.declarations)
    (hn : ∀ isArray, t.handedOut isArray = d.handedOut isArray) (hi : t.inputStreams = d.inputStreams) :
    t.Named where
  numbered := hd ▸ h.numbered
  handedOut isArray := by rw [hn, hd, h.handedOut]
  inputStreams := by rw [hd, hi]; exact h.inputStreams

theorem Build.Adds.named {declaration : Declaration} {d t : Draft} (h : Adds declaration d t)
    (hd : d.Named) : t.Named := by
  cases h with
  | numbered hi hn =>
    have hfollows : declaration.Follows d.program.declarations := by
      simpa [Declaration.Follows, hi, ← hd.handedOut] using hn
    refine ⟨?_, fun isArray => ?_, ?_⟩
    · rw [Draft.declaring, Draft.declarations_handOut]
      exact hd.numbered.snoc hfollows
    · have hone : [declaration].countP (isNumbered isArray) =
          if declaration.isArray == isArray then 1 else 0 := by
        simp [isNumbered, hi]
      change (d.handOut declaration.isArray).handedOut isArray = _
      rw [d.handedOut_handOut, hd.handedOut, Draft.declaring, Draft.declarations_handOut,
        List.countP_append, hone]
    · intro e he hei
      rw [Draft.declaring, Draft.declarations_handOut, List.mem_append, List.mem_singleton] at he
      rw [Draft.declaring, Draft.inputStreams_handOut]
      obtain he | rfl := he
      · exact hd.inputStreams e he hei
      · rw [hi] at hei
        cases hei
  | inputStream stream hi hn hne hnew =>
    have hfollows : declaration.Follows d.program.declarations := by
      rw [Declaration.Follows, if_pos hi]
      refine ⟨⟨stream, hn, hne⟩, fun e he hei hname => hnew ?_⟩
      exact hname ▸ hd.inputStreams e he hei
    refine ⟨hd.numbered.snoc hfollows, fun isArray => ?_, ?_⟩
    · have hnone : [declaration].countP (isNumbered isArray) = 0 := by simp [isNumbered, hi]
      rw [Draft.declaring, List.countP_append, hnone]
      exact hd.handedOut isArray
    · intro e he hei
      obtain he | he := List.mem_append.mp he
      · exact List.mem_cons_of_mem _ (hd.inputStreams e he hei)
      · obtain rfl := List.mem_singleton.mp he
        exact List.mem_cons_self

theorem Draft.named_course : Course fun d t => d.Named → t.Named where
  of_eq d t h hd := by
    have hdeclarations := congrArg (fun x : Draft => x.program.declarations) h
    have hhanded (isArray : Bool) := congrArg (fun x : Draft => x.handedOut isArray) h
    have hinputs := congrArg (fun x : Draft => x.inputStreams) h
    exact hd.of_eq hdeclarations hhanded hinputs
  trans _ _ _ h h' hd := h' (h hd)
  declares _ _ _ _ d _ t h hd := by
    obtain ⟨declaration, hadds⟩ := Build.declareNamed_adds h
    exact hadds.named hd

theorem Draft.along_named (role : TagRole) (tag : String) :
    Along (fun d t => d.Named → t.Named) (useTag role tag) := by
  intro d source t h hd
  obtain ⟨r, -, rfl⟩ := Build.useTag_eq_ok h
  exact hd.of_eq rfl (fun _ => rfl) rfl

theorem Request.along_named (asked : Request) : Along (fun d t => d.Named → t.Named) asked.step := by
  cases asked with
  | declareStream isAdcTrace =>
    intro d outcome t h hd
    obtain ⟨source, rfl, hs⟩ := map_eq_ok.mp h
    rw [Build.declareStream_run] at hs
    obtain ⟨-, rfl⟩ := Prod.mk.inj (Except.ok.inj hs)
    exact hd.of_eq rfl (fun _ => rfl) rfl
  | registerSave kind tag pipeline =>
    intro d outcome t h hd
    obtain ⟨_, s, hs, h⟩ := Qua.bind_eq_ok.mp h
    obtain ⟨-, rfl⟩ := pure_eq_ok.mp h
    obtain ⟨-, rfl⟩ := Build.addSave_eq_ok hs
    exact hd.of_eq rfl (fun _ => rfl) rfl
  | _ => exact Request.along Draft.named_course rfl

-- ---------------------------------------------------------------------------
-- Streams
-- ---------------------------------------------------------------------------

namespace Registry

/-- Names of different streams that have been declared. -/
structure Names (r : Registry) (names : List String) : Prop where
  named : ∀ name ∈ names, r.IsNamed name
  nodup : names.Nodup

variable {r r' : Registry} {names : List String}

theorem Names.perm (h : r.Names names) (hp : names.Perm names') : r.Names names' :=
  ⟨fun name hn => h.named name (hp.mem_iff.mpr hn), hp.nodup_iff.mp h.nodup⟩

/-- The next stream has a name of its own. -/
theorem Names.next (h : r.Names names) (isAdcTrace : Bool) (hr : r'.streams = r.streams + 1) :
    r'.Names ((r.next isAdcTrace).name :: names) where
  named := List.forall_mem_cons.mpr ⟨⟨isAdcTrace, _, rfl, hr ▸ Nat.le_refl _⟩,
    fun name hn => (h.named name hn).mono (hr ▸ Nat.le_succ _)⟩
  nodup := List.nodup_cons.mpr ⟨fun hn => (h.named _ hn).ne_next isAdcTrace rfl, h.nodup⟩

/-- The streams of the script, and those that stand for tags. -/
def streamNames (own : List String) (r : Registry) : List String :=
  own ++ r.shorthands.map fun (_, source) => source.name

theorem names_initial : ({} : Draft).registry.Names (({} : Draft).registry.streamNames []) where
  named _ h := nomatch h
  nodup := List.nodup_nil

theorem Names.declared (h : r.Names (r.streamNames own)) (isAdcTrace : Bool) :
    r.declared.Names (r.declared.streamNames (own ++ [(r.next isAdcTrace).name])) := by
  refine (h.next isAdcTrace rfl).perm ?_
  rw [streamNames, streamNames, List.append_assoc, List.singleton_append]
  exact List.perm_middle.symm

theorem Names.tagged (h : r.Names (r.streamNames own)) (role : TagRole) (tag : String) :
    (r.tagged role tag).Names ((r.tagged role tag).streamNames own) :=
  (h.next role.isAdcTrace rfl).perm List.perm_middle.symm

theorem Names.usesTags (h : r.Names (r.streamNames own)) (hu : r.UsesTags r') :
    r'.Names (r'.streamNames own) := by
  induction hu with
  | refl r => exact h
  | first role tag _ _ _ ih => exact ih (h.tagged role tag)

end Registry

theorem Calls.bind_answers {m : Calls α} {f : α → Calls Outcome}
    (hf : ∀ a s, Answer.streams (f a s).1 = []) (s : Session) : Answer.streams ((m >>= f) s).1 = [] := by
  simp only [bind, ExceptT.bind, ExceptT.mk, StateT.bind]
  rcases m s with ⟨_ | a, t⟩
  · rfl
  · exact hf a t

/-- Streams are answered to requests only. -/
theorem Event.answers_nothing {event : Event} (h : ∀ asked l, event ≠ .call (.request asked) l)
    (s : Session) : Answer.streams (event.perform s).1 = [] := by
  cases event with
  | close number => exact Calls.bind_answers (fun _ _ => rfl) s
  | drop number => rfl
  | call made l =>
    cases made with
    | request asked => exact absurd rfl (h asked l)
    | leaf leaf => exact Calls.bind_answers (fun _ _ => rfl) s
    | loopCondition condition => exact Calls.bind_answers (fun _ _ => rfl) s
    | enter entry =>
      rw [perform, Call.perform, map_eq_pure_bind]
      exact Calls.bind_answers (fun _ _ => rfl) s

namespace Registry.Names

variable {r r' : Registry}

theorem records {asked : Request} (h : r.Names (r.streamNames own))
    (hr : (Call.request asked).Records r r' outcome) :
    r'.Names (r'.streamNames (own ++ Answer.streams (.ok outcome))) := by
  have htags (hr : outcome.stream? = none ∧ r.UsesTags r') :
      r'.Names (r'.streamNames (own ++ Answer.streams (.ok outcome))) := by
    rw [Answer.streams, hr.1, Option.toList_none, List.map_nil, List.append_nil]
    exact h.usesTags hr.2
  cases asked with
  | declareStream isAdcTrace =>
    obtain ⟨rfl, rfl⟩ := hr
    exact h.declared isAdcTrace
  | registerSave kind tag pipeline =>
    obtain ⟨hs, -, rfl⟩ := hr
    rw [Answer.streams, hs, Option.toList_none, List.map_nil, List.append_nil]
    exact ⟨h.named, h.nodup⟩
  | _ => exact htags hr

/-- An event, whether it fails or not, gives new names to the streams that it declares. -/
theorem performed (event : Event) (s : Session)
    (h : s.draft.registry.Names (s.draft.registry.streamNames own)) :
    (event.perform s).2.draft.registry.Names
      ((event.perform s).2.draft.registry.streamNames (own ++ Answer.streams (event.perform s).1)) := by
  by_cases hr : ∃ asked l, event = .call (.request asked) l
  · obtain ⟨asked, l, rfl⟩ := hr
    obtain ⟨d, poison⟩ := s
    simp only [Event.perform, Call.perform, Calls.call, Session.apply]
    cases poison with
    | some reason => simpa [Answer.streams] using h
    | none =>
      cases ha : asked.step { d with location := l } with
      | error e =>
        have hrun : Build.located l asked.step d = .error e := ha
        simpa [hrun, Answer.streams] using h
      | ok result =>
        obtain ⟨outcome, t⟩ := result
        have hrun : Build.located l asked.step d = .ok (outcome, t) := ha
        simp only [hrun]
        exact h.records (Request.step_records (d := { d with location := l }) ha)
  · have hnot : ∀ asked l, event ≠ .call (.request asked) l := fun asked l he => hr ⟨asked, l, he⟩
    rw [Event.answers_nothing hnot, List.append_nil]
    exact h.usesTags (event.along Build.usesTags Build.useTag_usesTags
      (fun asked l he => absurd he (hnot asked l)) s)

theorem run (events : List Event) (s : Session)
    (h : s.draft.registry.Names (s.draft.registry.streamNames own)) :
    (Session.run events s).2.draft.registry.Names ((Session.run events s).2.draft.registry.streamNames
      (own ++ (Session.run events s).1.flatMap Answer.streams)) := by
  induction events generalizing s own with
  | nil => simpa using h
  | cons event events ih =>
    rw [Session.run_cons, List.flatMap_cons, ← List.append_assoc]
    exact ih _ (h.performed event s)

end Registry.Names

namespace Session

/-- The names of the streams that a session has declared, and of those that stand for tags. -/
def streamNames (events : List Event) : List String :=
  (run events {}).2.draft.registry.streamNames ((run events {}).1.flatMap Answer.streams)

/-- In every session, whether it fails or not, the names of all declarations differ; variables, and arrays,
are numbered in the order of their declaration; the names of all streams differ, those of the script and
those that stand for tags; and no stream is named like a declaration. -/
theorem names_distinct (events : List Event) :
    let declarations := (run events {}).2.draft.program.declarations
    (declarations.map Declaration.name).Nodup ∧
    (∀ isArray, (declarations.filter (isNumbered isArray)).map Declaration.name =
      (List.range (declarations.countP (isNumbered isArray))).map fun i =>
        (if isArray then "a" else "v") ++ toString (i + 1)) ∧
    (streamNames events).Nodup ∧
    (streamNames events).Disjoint (declarations.map Declaration.name) := by
  intro declarations
  have hd : (run events {}).2.draft.Named :=
    run_along Draft.named_course Draft.along_named Request.along_named events {} Draft.named_initial
  have hs : (run events {}).2.draft.registry.Names (streamNames events) :=
    Registry.Names.run events {} Registry.names_initial
  refine ⟨hd.numbered.nodup, hd.numbered.names, hs.nodup, fun name hn hv => ?_⟩
  obtain ⟨isAdcTrace, n, rfl, -⟩ := hs.named name hn
  obtain ⟨e, he, hname⟩ := List.mem_map.mp hv
  exact hd.numbered.name_ne_stream he isAdcTrace n hname

end Session
end Qua
