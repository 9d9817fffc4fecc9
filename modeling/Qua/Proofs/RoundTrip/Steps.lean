import Qua.Proofs.RoundTrip.Making

/-!
# Steps of a session

A call whose operands are made of what the session has answered before leaves a draft that is grounded in the
last one: its actions and conditions are over the variables and arrays, its streams are those of the script or
of tags whose uses are permitted. What the call answers can be used in the same way. Main statement: `Event.upholds`.
-/

namespace Qua

open Build (Along Course Local Keeps Makes useTag located)
open Draft (Widens)

/-- The step leaves a draft as demanded, if that leads to the last one. -/
def Build.Upholds (last : Draft) (D : Demands) (m : Build α) : Prop :=
  ∀ ⦃d a t⦄, m d = .ok (a, t) → t.Widens last → d.Meets D → t.Meets D

theorem Build.Keeps.upholds {D : Demands} {m : Build α} (h : Keeps D m) : Upholds last D m :=
  fun _ _ _ hrun _ hd => (h hd hrun).2

theorem Registry.UsesTags.mem_saves {r r' : Registry} (h : r.UsesTags r') (he : entry ∈ r'.saves) :
    entry ∈ r.saves ∨ entry.auto = true := by
  induction h with
  | refl r => exact .inl he
  | @first r r' role tag _ _ _ ih =>
    obtain he | ha := ih he
    · obtain he | he := List.mem_append.mp he
      · exact .inl he
      · exact .inr (TagRole.mem_saves he).1
    · exact .inr ha

section

variable {last : Draft} {permitted : Set (TagRole × String)} {own : List String} {given : List Outcome}

-- ---------------------------------------------------------------------------
-- Statements
-- ---------------------------------------------------------------------------

namespace Build

/-- A step that builds nothing and only uses tags keeps all that is demanded. -/
theorem keeps_of_local {m : Build α} (hm : Local m)
    (hu : Along (fun d t => d.registry.UsesTags t.registry) m) : Keeps (last.grounding permitted own) m := by
  intro d a t hd h
  have hsite := hm.site_eq h
  have hbody : t.program.body = d.program.body := congrArg Site.body hsite
  have hscopes : t.scopes = d.scopes := congrArg Site.scopes hsite
  refine ⟨trivial, fun _ _ => trivial, hbody ▸ hd.body, fun entry he => ?_, hscopes ▸ hd.scopes⟩
  obtain he | ha := (hu h).mem_saves he
  · exact hd.saves entry he
  · intro hn
    rw [ha] at hn
    cases hn

theorem uses_useTag : ∀ use : TagRole × String,
    Along (fun d t => d.registry.UsesTags t.registry) (useTag use.1 use.2) :=
  fun use => useTag_usesTags use.1 use.2

theorem upholds_act {m : Build Action} (hk : Keeps (last.grounding permitted own) m)
    (hm : Makes last (last.grounding permitted own).action m) :
    Upholds last (last.grounding permitted own) (m >>= act) := by
  intro d u t h ht hd
  obtain ⟨a, s, hs, h⟩ := bind_eq_ok.mp h
  have hst : s.Widens t := Draft.widens.along_append _ h
  exact (keeps_act (hm hs (hst.trans ht)) (hk hd hs).2 h).2

end Build

open Build

theorem Leaf.upholds (hl : last.Identified) {leaf : Leaf} (h : leaf.Founded permitted own last) :
    ∀ step ∈ leaf.steps, Upholds last (last.grounding permitted own) step := by
  cases leaf with
  | play pulse element options =>
    rw [steps, play_eq, List.forall_mem_singleton]
    exact upholds_act (keeps_of_local (local_playAction _ _ _)
      (usesTags.along_playAction _ _ _ fun use _ => uses_useTag use)) (makes_playAction hl h)
  | measure pulse element options =>
    rw [steps, measure_eq, List.forall_mem_singleton]
    exact upholds_act (keeps_of_local (local_measureAction _ _ _)
      (usesTags.along_measureAction _ _ _ fun use _ => uses_useTag use)) (makes_measureAction h)
  | waitForTrigger elements pulse trigger target =>
    rw [steps, waitForTrigger_eq, List.forall_mem_singleton]
    exact upholds_act (keeps_of_local (local_triggerAction _ _ _ _)
      (usesTags.along_triggerAction _ _ _ _)) (makes_triggerAction h)
  | assign target value =>
    rw [steps, assign_eq, List.forall_mem_singleton]
    exact upholds_act (keeps_of_local (local_assignAction _ _)
      (usesTags.along_assignAction _ _)) (makes_assignAction h)
  | save source stream =>
    rw [steps, save_eq, List.forall_mem_singleton]
    exact upholds_act (keeps_of_local (local_saveAction _ _)
      (usesTags.along_saveAction _ _ fun use _ => uses_useTag use)) (makes_saveAction h)
  | plain action =>
    have hplain : action.isPlain = true := h.genuine
    have hformed : action.Formed := by cases action <;> trivial
    have huses : action.streamUses = [] := by cases action <;> first | rfl | cases hplain
    have haction : (last.grounding permitted own).action action :=
      ⟨⟨h.expressions, h.integers, hformed⟩, huses ▸ List.forall_mem_nil _⟩
    exact List.forall_mem_singleton.mpr (keeps_act haction).upholds
  | resetFrame elements =>
    refine List.forall_mem_map.mpr fun element _ => Keeps.upholds ?_
    exact keeps_act ⟨⟨List.forall_mem_nil _, List.forall_mem_nil _, trivial⟩, List.forall_mem_nil _⟩
  | frameRotation angle elements =>
    have hangle : (inTurns angle).Over last.handles := Expression.over_binary.mpr
      ⟨h.expressions angle (List.mem_singleton.mpr rfl),
        Expression.over_literal (show inverseTwoPi.isFinite = true by decide)⟩
    refine List.forall_mem_map.mpr fun element _ => Keeps.upholds ?_
    exact keeps_act ⟨⟨List.forall_mem_singleton.mpr hangle, List.forall_mem_nil _, trivial⟩, List.forall_mem_nil _⟩
  | frameRotation2pi angle elements =>
    refine List.forall_mem_map.mpr fun element _ => Keeps.upholds ?_
    exact keeps_act ⟨⟨h.expressions, List.forall_mem_nil _, trivial⟩, List.forall_mem_nil _⟩
  | fastFrameRotation cosine sine elements =>
    refine List.forall_mem_cons.mpr ⟨(keeps_modifyMetadata _).upholds,
      List.forall_mem_map.mpr fun element _ => Keeps.upholds ?_⟩
    exact keeps_act ⟨⟨h.expressions, List.forall_mem_nil _, trivial⟩, List.forall_mem_nil _⟩

-- ---------------------------------------------------------------------------
-- Scopes
-- ---------------------------------------------------------------------------

theorem Opening.upholds (hl : last.Identified) {opening : Opening}
    (h : ∀ e ∈ opening.expressions, e.Over last.handles) :
    Upholds last (last.grounding permitted own) opening.enter := by
  cases opening with
  | whileLoop condition => exact (keeps_openWhile (h condition (List.mem_singleton.mpr rfl))).upholds
  | infiniteLoop =>
    exact (keeps_openWhile (Expression.over_literal (show (Literal.bool true).Finite from trivial))).upholds
  | strictTiming => exact keeps_openStrictTiming.upholds
  | counted target init condition update =>
    simp only [expressions, List.forall_mem_cons] at h
    obtain ⟨ht, hi, hc, hu, -⟩ := h
    intro d number t hrun hlast hd
    obtain ⟨place, s, hs, hrun⟩ := bind_eq_ok.mp hrun
    have hst : s.Widens t := Draft.widens.along_openBlock _ _ hrun
    have hplace := makes_assignTarget ht hs (hst.trans hlast)
    have hs := keeps_of_local (local_assignTarget target) (usesTags.along_assignTarget target) hd hs
    have hassign {value : Expression} (hv : value.Over last.handles) (l : String) :
        Statement.AllMeet (last.grounding permitted own) [.action (.assign place value) l] :=
      ⟨grounding_assign hplace hv, trivial⟩
    have hloop (l : String) : (Statement.loop [.action (.assign place init) l] (some condition)
        [.action (.assign place update) l] [] l).Meets (last.grounding permitted own) := by
      refine ⟨?_, hassign hi l, hassign hu l, trivial⟩
      rintro _ ⟨⟩
      exact hc
    exact (keeps_openBlock hloop _ hs.2 hrun).2
  | forEach targets values =>
    rw [enter, openForEach_eq]
    intro d number t hrun hlast hd
    obtain ⟨is, s, hs, hrun⟩ := bind_eq_ok.mp hrun
    have hst : s.Widens t := Draft.widens.along_openBlock _ _ hrun
    have his := makes_iterators hl h hs (hst.trans hlast)
    have hs := keeps_of_local (local_iterators targets values) (usesTags.along_iterators targets values) hd hs
    have hloop (l : String) : (Statement.forEach is [] l).Meets (last.grounding permitted own) := ⟨his, trivial⟩
    exact (keeps_openBlock hloop _ hs.2 hrun).2

theorem Entry.upholds (hl : last.Identified) {entry : Entry}
    (h : ∀ e ∈ entry.expressions, e.Over last.handles) :
    Upholds last (last.grounding permitted own) entry.step := by
  have hfirst {e : Expression} (h : ∀ x ∈ [e], x.Over last.handles) : e.Over last.handles :=
    List.forall_mem_singleton.mp h
  cases entry with
  | conditional condition isUnsafe => exact (keeps_openIf (hfirst h) isUnsafe).upholds
  | elif condition => exact (keeps_openElif (hfirst h)).upholds
  | otherwise => exact keeps_openElse.upholds
  | switch value isUnsafe => exact (keeps_openSwitch (hfirst h) isUnsafe).upholds
  | case value => exact (keeps_openCase (hfirst h)).upholds
  | default => exact keeps_openDefault.upholds
  | block opening => exact Opening.upholds hl h
  | loop => exact keeps_openLoop.upholds
  | loopPart which => exact (keeps_openLoopPart which.selector).upholds
  | results => exact keeps_openResults.upholds

-- ---------------------------------------------------------------------------
-- Requests
-- ---------------------------------------------------------------------------

/-- A pipeline that is saved can be written if it has a text. -/
theorem grounding_save {kind : SaveKind} {tag : String} {pipeline : StreamToken}
    (h : pipeline.MadeOf given) (hg : Grounds last.handles own given) :
    (last.grounding permitted own).save ⟨kind, tag, false, pipeline⟩ :=
  fun _ => h.pipeline hg

theorem Request.upholds {asked : Request} (h : ∀ pipeline ∈ asked.pipelines, pipeline.MadeOf given)
    (hg : Grounds last.handles own given) : Upholds last (last.grounding permitted own) asked.step := by
  have hother {asked : Request} (ha : asked.isRegistration = false) :
      Upholds last (last.grounding permitted own) asked.step :=
    (keeps_of_local asked.step_local (asked.along usesTags ha)).upholds
  cases asked with
  | declareStream isAdcTrace =>
    intro d outcome t hrun _ hd
    obtain ⟨source, rfl, hs⟩ := map_eq_ok.mp hrun
    rw [declareStream_run] at hs
    obtain ⟨-, rfl⟩ := Prod.mk.inj (Except.ok.inj hs)
    exact hd.of_eq rfl rfl rfl rfl
  | registerSave kind tag pipeline =>
    intro d outcome t hrun _ hd
    obtain ⟨_, s, hs, hrun⟩ := Qua.bind_eq_ok.mp hrun
    obtain ⟨-, rfl⟩ := pure_eq_ok.mp hrun
    obtain ⟨-, rfl⟩ := addSave_eq_ok hs
    have hsave : (last.grounding permitted own).save ⟨kind, tag, false, pipeline⟩ :=
      grounding_save (h pipeline (List.mem_singleton.mpr rfl)) hg
    exact ⟨fun _ _ => trivial, hd.body, List.forall_mem_append.mpr ⟨hd.saves, List.forall_mem_singleton.mpr hsave⟩,
      hd.scopes⟩
  | declare | declareInputStream | libraryCall | random | amp => exact hother rfl

/-- What a request answers can be used as an operand. -/
theorem Request.makes (hl : last.Identified) {asked : Request}
    (h : ∀ e ∈ asked.expressions, e.Over last.handles) :
    Makes last (fun outcome => ∀ e, outcome = .expression e → e.Over last.handles) asked.step := by
  have hexpression {m : Build Expression} (hm : Makes last (Expression.Over last.handles) m) :
      Makes last (fun outcome => ∀ e, outcome = .expression e → e.Over last.handles)
        (Outcome.expression <$> m) := by
    refine hm.map fun e he => ?_
    rintro _ ⟨⟩
    exact he
  have hnone {α : Type} {m : Build α} {f : α → Outcome} (hf : ∀ a e, f a ≠ .expression e) :
      Makes last (fun outcome => ∀ e, outcome = .expression e → e.Over last.handles) (f <$> m) := by
    intro d outcome t hrun _ e he
    obtain ⟨a, rfl, -⟩ := map_eq_ok.mp hrun
    exact absurd he (hf a e)
  cases asked with
  | declare | declareInputStream => exact hexpression (makes_declareNamed hl _ _ _ _)
  | random seed => exact hexpression (makes_declareNamed hl .int (some (.scalar (.int seed))) none none)
  | libraryCall library function arguments => exact hexpression (makes_libraryCall hl h)
  | declareStream | amp => exact hnone fun _ _ => by simp
  | registerSave kind tag pipeline =>
    intro d outcome t hrun _ e he
    obtain ⟨_, s, -, hrun⟩ := Qua.bind_eq_ok.mp hrun
    obtain ⟨rfl, -⟩ := pure_eq_ok.mp hrun
    cases he

-- ---------------------------------------------------------------------------
-- Calls
-- ---------------------------------------------------------------------------

variable {D : Demands} {d t : Draft}

theorem Draft.Meets.located (h : d.Meets D) (l : String) : Draft.Meets D { d with location := l } :=
  h.of_eq rfl rfl rfl rfl

theorem Calls.call_upholds {step : Build α} (hu : Upholds last D step) (hd : d.Meets D)
    (h : Calls.call (Build.located l step) ⟨d, none⟩ = (.ok a, ⟨t, none⟩)) (ht : t.Widens last) : t.Meets D := by
  obtain ⟨s, hs, hst⟩ := Calls.call_eq_ok h
  obtain rfl := congrArg Session.draft hst
  exact hu hs ht (hd.located l)

theorem Calls.callEach_upholds {steps : List (Build Unit)} (hu : ∀ step ∈ steps, Upholds last D step)
    (hw : ∀ step ∈ steps, Build.Along Widens step) (hd : d.Meets D)
    (h : Calls.callEach (steps.map (Build.located l)) ⟨d, none⟩ = (.ok (), ⟨t, none⟩)) (ht : t.Widens last) :
    t.Meets D := by
  induction steps generalizing d with
  | nil =>
    obtain rfl := congrArg Session.draft (Prod.mk.inj h).2
    exact hd
  | cons step steps ih =>
    obtain ⟨hfirst, hsteps⟩ := List.forall_mem_cons.mp hu
    obtain ⟨-, hwidens⟩ := List.forall_mem_cons.mp hw
    obtain ⟨s, hs, h⟩ := Calls.callEach_cons_eq_ok h
    have hrest := Draft.widens.calls_callEach (List.forall_mem_map.mpr fun step hm =>
      Draft.widens.along_located l (hwidens step hm)) ⟨s, none⟩
    rw [h] at hrest
    exact ih hsteps hwidens (hfirst hs (hrest.trans ht) (hd.located l)) h

theorem Call.upholds (hl : last.Identified) {made : Call} (hm : (Event.call made l).ComposedOf given)
    (hu : ∀ use ∈ (Event.call made l).uses, use ∈ permitted) (hg : Grounds last.handles own given)
    (h : made.perform l ⟨d, none⟩ = (.ok outcome, ⟨t, none⟩))
    (ht : t.Widens last) (hd : d.Meets (last.grounding permitted own)) : t.Meets (last.grounding permitted own) := by
  cases made with
  | request asked => exact Calls.call_upholds (Request.upholds hm.2 hg) hd h ht
  | leaf leaf =>
    have hleaf : leaf.Founded permitted own last := Leaf.ComposedOf.founded hm hg hu
    obtain ⟨⟨⟩, s, hs, h⟩ := Calls.bind_eq_ok h
    obtain rfl := (Prod.mk.inj h).2
    exact Calls.callEach_upholds (Leaf.upholds hl hleaf)
      (leaf.along Draft.widens fun _ _ => Draft.widens_useTag _ _) hd hs ht
  | loopCondition condition =>
    obtain ⟨⟨⟩, s, hs, h⟩ := Calls.bind_eq_ok h
    obtain rfl := (Prod.mk.inj h).2
    have hcondition : condition.Over last.handles := Expression.MadeOf.over hm hg
    exact Calls.call_upholds (keeps_setLoopCondition hcondition).upholds hd hs ht
  | enter entry =>
    rw [perform, map_eq_pure_bind] at h
    obtain ⟨number, s, hs, h⟩ := Calls.bind_eq_ok h
    obtain rfl := (Prod.mk.inj h).2
    exact Calls.call_upholds (Entry.upholds hl fun e he => (hm e he).over hg) hd hs ht

theorem Event.upholds (hl : last.Identified) {event : Event} (hm : event.ComposedOf given)
    (hu : ∀ use ∈ event.uses, use ∈ permitted) (hg : Grounds last.handles own given)
    (h : event.perform ⟨d, none⟩ = (.ok outcome, ⟨t, none⟩))
    (ht : t.Widens last) (hd : d.Meets (last.grounding permitted own)) : t.Meets (last.grounding permitted own) := by
  have hclose {number : Nat} (h : (Session.close number ⟨d, none⟩).2 = ⟨t, none⟩) :
      t.Meets (last.grounding permitted own) := by
    cases hs : closeScope number d with
    | error e => simp [Session.close, Session.apply, hs] at h
    | ok result =>
      obtain rfl : result.2 = t := by simpa [Session.close, Session.apply, hs] using h
      exact (keeps_closeScope number hd hs).2
  cases event with
  | call made l => exact Call.upholds hl hm hu hg h ht hd
  | close number =>
    obtain ⟨⟨⟩, s, hs, h⟩ := Calls.bind_eq_ok h
    obtain rfl := (Prod.mk.inj h).2
    exact hclose (congrArg Prod.snd hs)
  | drop number => exact hclose (congrArg Prod.snd h)

/-- Besides requests, events answer no more than that they are done, or the number of a scope. -/
theorem Event.answers_request {event : Event} (h : event.perform ⟨d, none⟩ = (.ok outcome, s)) :
    (∃ asked l, event = .call (.request asked) l) ∨ outcome = .done ∨ ∃ number, outcome = .scope number := by
  cases event with
  | call made l =>
    cases made with
    | request asked => exact .inl ⟨asked, l, rfl⟩
    | leaf | loopCondition =>
      obtain ⟨⟨⟩, t, -, h⟩ := Calls.bind_eq_ok h
      exact .inr (.inl (Except.ok.inj (Prod.mk.inj h).1).symm)
    | enter entry =>
      rw [perform, Call.perform, map_eq_pure_bind] at h
      obtain ⟨number, t, -, h⟩ := Calls.bind_eq_ok h
      exact .inr (.inr ⟨number, (Except.ok.inj (Prod.mk.inj h).1).symm⟩)
  | close number =>
    obtain ⟨⟨⟩, t, -, h⟩ := Calls.bind_eq_ok h
    exact .inr (.inl (Except.ok.inj (Prod.mk.inj h).1).symm)
  | drop number => exact .inr (.inl (Except.ok.inj (Prod.mk.inj h).1).symm)

/-- The stream that an event answers is one that it declares. -/
theorem Event.answers_stream {event : Event} (h : event.perform ⟨d, none⟩ = (.ok (.stream source), ⟨t, none⟩)) :
    ∃ isAdcTrace n, source = numberedStream isAdcTrace n := by
  have hrecords := Event.perform_records h
  obtain ⟨asked, l, rfl⟩ | h | ⟨number, h⟩ := Event.answers_request h
  · cases asked with
    | declareStream isAdcTrace => exact ⟨isAdcTrace, _, Outcome.stream.inj hrecords.1⟩
    | _ => cases hrecords.1
  · cases h
  · cases h

/-- What an event answers is given to the session after it. -/
theorem Event.grounds (hl : last.Identified) {event : Event} (hm : event.ComposedOf given)
    (hg : Grounds last.handles own given) (h : event.perform ⟨d, none⟩ = (.ok outcome, ⟨t, none⟩))
    (ht : t.Widens last) (ho : ∀ source, outcome = .stream source → source.name ∈ own) :
    Grounds last.handles own (outcome :: given) := by
  refine ⟨fun e he => ?_, fun source hs => ?_⟩
  · obtain rfl | he := List.mem_cons.mp he
    · obtain ⟨asked, l, rfl⟩ | he | ⟨number, he⟩ := Event.answers_request h
      · obtain ⟨s, hs, hst⟩ := Calls.call_eq_ok h
        obtain rfl := congrArg Session.draft hst
        exact Request.makes hl (fun e he => (hm.1 e he).over hg) hs ht e rfl
      · cases he
      · cases he
    · exact hg.expressions e he
  · obtain rfl | hs := List.mem_cons.mp hs
    · obtain ⟨isAdcTrace, n, rfl⟩ := Event.answers_stream h
      exact ⟨ho _ rfl, (isTraceName_streamName isAdcTrace n).symm⟩
    · exact hg.sources source hs

end
end Qua
