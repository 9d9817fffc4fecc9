import Qua.Proofs.Build.Tags
import Qua.Proofs.Replay.Steps

/-!
# Replays are sessions

What a replay makes of a script, the calls of a session make too (`ofScript_reached`). What holds of all
sessions therefore holds of the programs of all scripts, such as that tags are unique. Main statement:
`Session.tags_unique`.
-/

namespace Qua

open Build (Respected Along Local)

-- ---------------------------------------------------------------------------
-- Locations
-- ---------------------------------------------------------------------------

namespace Build

/-- The step does not move to another location. -/
abbrev Stays (m : Build α) : Prop := Along (fun d t => t.location = d.location) m

theorem Local.stays {m : Build α} (h : Local m) : Stays m :=
  fun _ _ _ hm => congrArg Site.location (h.site_eq hm)

theorem passage_stays : Build.Passage fun d t => t.location = d.location where
  refl _ := rfl
  trans _ _ _ h h' := h'.trans h
  declares _ _ _ _ := (local_declareNamed _ _ _ _).stays

theorem stays_edit (path : Path) (change : Edit (List Statement) α) : Stays (edit path change) := by
  intro d a t ht
  simp only [edit, bind_run, get_run] at ht
  cases hp : Edit.atPath path change d.program.body with
  | error e =>
    rw [hp] at ht
    cases ht
  | ok result =>
    rw [hp] at ht
    obtain ⟨-, rfl⟩ := Prod.mk.inj (Except.ok.inj ht)
    rfl

theorem stays_act (made : Action) : Stays (act made) :=
  passage_stays.along_bind passage_stays.along_bodyPath fun path =>
    passage_stays.along_bind passage_stays.along_get fun _ =>
      passage_stays.along_bind (stays_edit path _) fun _ => passage_stays.along_pure _

end Build

theorem Leaf.stays (leaf : Leaf) : ∀ step ∈ leaf.steps, Build.Stays step := by
  have hact {m : Build Action} (h : Local m) : ∀ step ∈ [m >>= Build.act], Build.Stays step :=
    List.forall_mem_singleton.mpr (Build.passage_stays.along_bind h.stays Build.stays_act)
  cases leaf with
  | play pulse element options =>
    rw [steps, Build.play_eq]
    exact hact (Build.local_playAction _ _ _)
  | measure pulse element options =>
    rw [steps, Build.measure_eq]
    exact hact (Build.local_measureAction _ _ _)
  | waitForTrigger elements pulse trigger target =>
    rw [steps, Build.waitForTrigger_eq]
    exact hact (Build.local_triggerAction _ _ _ _)
  | assign target value =>
    rw [steps, Build.assign_eq]
    exact hact (Build.local_assignAction _ _)
  | save source stream =>
    rw [steps, Build.save_eq]
    exact hact (Build.local_saveAction _ _)
  | plain action => exact List.forall_mem_singleton.mpr (Build.stays_act _)
  | resetFrame elements | frameRotation _ elements | frameRotation2pi _ elements =>
    exact List.forall_mem_map.mpr fun _ _ => Build.stays_act _
  | fastFrameRotation cosine sine elements =>
    exact List.forall_mem_cons.mpr ⟨(Build.local_modifyMetadata _).stays,
      List.forall_mem_map.mpr fun _ _ => Build.stays_act _⟩

-- ---------------------------------------------------------------------------
-- Drafts of sessions
-- ---------------------------------------------------------------------------

/-- A session can have made the draft without a failure. -/
def Draft.Reached (d : Draft) : Prop := ∃ events, (Session.run events {}).2 = ⟨d, none⟩

/-- It can have done so by calls of sessions, with fast rotations of no elements only if these are allowed. -/
def Draft.Made (E : Prop) (d : Draft) : Prop :=
  ∃ events, (∀ event ∈ events, Event.Allowed E event) ∧ (Session.run events {}).2 = ⟨d, none⟩

/-- The scopes of the draft are in order. -/
theorem Draft.Reached.siteScoped {d : Draft} (h : d.Reached) : d.site.Scoped := by
  obtain ⟨events, hs⟩ := h
  have hp : (Session.run events {}).2.poison = none := by rw [hs]
  obtain ⟨t, ht, hscoped⟩ := Session.run_scoped events Site.scoped_initial hp
  obtain rfl : t = d := congrArg Session.draft (ht.symm.trans hs)
  exact hscoped

/-- A step that is made at the location that the draft has anyway. -/
theorem Build.call_located {step : Build α} (hs : step d = .ok (a, t)) :
    Calls.call (located d.location step) ⟨d, none⟩ = (.ok a, ⟨t, none⟩) :=
  Calls.call_ok hs

/-- Steps that stay at a location are made at it one by one. -/
theorem Build.callEach_located {steps : List (Build Unit)} (hstays : ∀ step ∈ steps, Stays step)
    (hs : steps.forM id d = .ok ((), t)) :
    Calls.callEach (steps.map (located d.location)) ⟨d, none⟩ = (.ok (), ⟨t, none⟩) := by
  induction steps generalizing d with
  | nil =>
    obtain ⟨-, rfl⟩ := pure_eq_ok.mp hs
    rfl
  | cons step steps ih =>
    obtain ⟨hstep, hsteps⟩ := List.forall_mem_cons.mp hstays
    obtain ⟨⟨⟩, s, hfirst, hs⟩ := bind_eq_ok.mp hs
    have hrun : located d.location step d = .ok ((), s) := hfirst
    rw [List.map_cons, Calls.callEach_cons _ hrun, ← hstep hfirst]
    exact ih hsteps hs

namespace Draft.Made

variable {E : Prop} {d t : Draft}

theorem initial : Draft.Made E {} := ⟨[], by simp, rfl⟩

theorem reached (h : d.Made E) : d.Reached := by
  obtain ⟨events, -, hs⟩ := h
  exact ⟨events, hs⟩

theorem event (h : d.Made E) (event : Event) (ha : event.Allowed E)
    (he : (event.perform ⟨d, none⟩).2 = ⟨t, none⟩) : t.Made E := by
  obtain ⟨events, hall, hs⟩ := h
  refine ⟨events ++ [event], List.forall_mem_append.mpr ⟨hall, List.forall_mem_singleton.mpr ha⟩, ?_⟩
  rw [Session.run_append, hs, Session.run_cons, Session.run_nil, he]

theorem request (h : d.Made E) {asked : Request} (ha : asked.step d = .ok (outcome, t)) : t.Made E :=
  h.event (.call (.request asked) d.location) ⟨rfl, nofun⟩ (congrArg Prod.snd (Build.call_located ha))

theorem leaf (h : d.Made E) {leaf : Leaf} (ha : leaf.Allowed E) (hs : leaf.run d = .ok (u, t)) :
    t.Made E := by
  refine h.event (.call (.leaf leaf) d.location) ha ?_
  rw [Event.perform, Call.perform, Calls.bind_ok (Build.callEach_located leaf.stays hs)]
  rfl

theorem loopCondition (h : d.Made E) (hs : Build.setLoopCondition condition d = .ok (u, t)) :
    t.Made E := by
  refine h.event (.call (.loopCondition condition) d.location) ⟨rfl, nofun⟩ ?_
  rw [Event.perform, Call.perform, Calls.bind_ok (Build.call_located hs)]
  rfl

theorem enter (h : d.Made E) {entry : Entry} (hs : entry.step d = .ok (number, t)) : t.Made E := by
  refine h.event (.call (.enter entry) d.location) ⟨rfl, nofun⟩ ?_
  rw [Event.perform, Call.perform, map_eq_pure_bind, Calls.bind_ok (Build.call_located hs)]
  rfl

theorem close (h : d.Made E) (hs : Build.closeScope number d = .ok (u, t)) : t.Made E := by
  refine h.event (.close number) ⟨rfl, nofun⟩ ?_
  rw [Event.perform, Calls.bind_ok (show Session.close number ⟨d, none⟩ = _ from Calls.call_ok hs)]
  rfl

theorem located (h : d.Made E) (l : String) : Made E { d with location := l } :=
  h.event (.call (.request (.amp [.int 0])) l) ⟨rfl, nofun⟩ rfl

end Draft.Made

/-- The steps of calls make drafts of sessions of such drafts, and do not look at locations. -/
theorem Build.respected_made (E : Prop) :
    Build.Respected E fun d e => d.Made E ∧ d.unlocated = e.unlocated := by
  have hand {α : Type} {step : Build α} (hs : Blind step)
      (hr : ∀ ⦃d a t⦄, step d = .ok (a, t) → d.Made E → t.Made E) :
      Simulates (fun d e => d.Made E ∧ d.unlocated = e.unlocated) step step := by
    rintro d e ⟨hd, hde⟩ a t ha
    obtain ⟨u, hu, htu⟩ := hs hde ha
    exact ⟨u, hu, hr ha hd, htu⟩
  exact {
    request := fun asked => hand asked.step_local.blind fun _ _ _ hs hd => hd.request hs
    leaf := fun leaf ha => hand (Simulates.forM (Leaf.blind leaf)) fun _ _ _ hs hd => hd.leaf ha hs
    loopCondition := fun condition =>
      hand (blind_setLoopCondition condition) fun _ _ _ hs hd => hd.loopCondition hs
    enter := fun entry => hand (Entry.blind entry) fun _ _ _ hs hd => hd.enter hs
    close := fun number => hand (blind_closeScope number) fun _ _ _ hs hd => hd.close hs
    located := fun d e l l' h => ⟨h.1.located l, h.2⟩ }

/-- The program of a script is that of a session, which has fast rotations of no elements only if the script
has such calls. -/
theorem ofScript_made (h : Program.ofScript script = .ok p) :
    ∃ ss, Script.parse script = .ok ss ∧
      ∀ E : Prop, Script.Allows E (Script.callsBlock ss) → ∃ d : Draft, d.Made E ∧ d.program = p := by
  unfold Program.ofScript at h
  cases hp : Script.parse script with
  | error e =>
    rw [hp] at h
    cases h
  | ok ss =>
    rw [hp] at h
    simp only at h
    refine ⟨ss, rfl, fun E hE => ?_⟩
    cases hm : Replay.module ss {} with
    | error e =>
      rw [hm] at h
      cases h
    | ok result =>
      obtain ⟨⟨⟩, s⟩ := result
      rw [hm] at h
      simp only [Session.finishDraft] at h
      have hmade : s.draft.Made E := by
        obtain ⟨⟨⟩, u, hu, hm⟩ := bind_eq_ok.mp hm
        obtain ⟨v, -, ⟨hd, -⟩, -⟩ := Replay.simulates_topLevels (Build.respected_made E)
          (Script.AllAlike.refl ss) hE (x := {}) ⟨⟨Draft.Made.initial, rfl⟩, rfl⟩ hu
        rw [bind_run, get_run] at hm
        simp only at hm
        split at hm
        · cases hm
        · obtain ⟨-, rfl⟩ := pure_eq_ok.mp hm
          exact hd
      split at h
      · next program hfinish =>
        split at hfinish
        · cases hfinish
        · obtain rfl := Except.ok.inj hfinish
          obtain rfl := Except.ok.inj h
          exact ⟨s.draft, hmade, rfl⟩
      · cases h

/-- The program of a script is that of a session. -/
theorem ofScript_reached (h : Program.ofScript script = .ok p) : ∃ d : Draft, d.Reached ∧ d.program = p := by
  obtain ⟨ss, -, hmade⟩ := ofScript_made h
  obtain ⟨d, hd, hp⟩ := hmade True (Script.allows_true _)
  exact ⟨d, hd.reached, hp⟩

namespace Session

open Build (useTag)

/-- In every draft that a session makes without a failure, no two saves have the same tag, and a tag that has
been used stands for its stream whatever happens later. A known tag gives its stream and changes nothing; the
first use of a tag adds the saves of its role, or fails if one of their tags is taken. A call that is valid
besides its tags, in a scope that takes it, uses its tags like that and nothing more. All this holds of the
program of every script, which a session makes too. -/
theorem tags_unique :
    (∀ d : Draft, d.Reached →
      (d.program.results.entries.map SaveEntry.tag).Nodup ∧
      (∀ events tag source, d.shorthands.lookup tag = some source →
        (run events ⟨d, none⟩).2.draft.shorthands.lookup tag = some source) ∧
      (∀ role tag,
        (∀ source, d.shorthands.lookup tag = some source → useTag role tag d = .ok (source, d)) ∧
        (d.shorthands.lookup tag = none → (∀ taken ∈ role.tags tag, d.registry.IsFree taken) →
          ∃ entries, entries.map SaveEntry.tag = role.tags tag ∧
            useTag role tag d = .ok (d.registry.next role.isAdcTrace, d.withRegistry
              ⟨d.streams + 1, (tag, d.registry.next role.isAdcTrace) :: d.shorthands,
                d.program.results.entries ++ entries⟩)) ∧
        (d.shorthands.lookup tag = none → (∃ taken ∈ role.tags tag, ¬d.registry.IsFree taken) →
          ∃ taken ∈ role.tags tag, ¬d.registry.IsFree taken ∧
            useTag role tag d = .error (.duplicateTag taken))) ∧
      ∀ (leaf : Leaf) (l : String), leaf.ValidOtherwise d → (Call.leaf leaf).Admitted d.site →
        leaf.UsesTags l d) ∧
    ∀ script p, Program.ofScript script = .ok p →
      (p.results.entries.map SaveEntry.tag).Nodup ∧ ∃ d : Draft, d.Reached ∧ d.program = p := by
  have hunique {d : Draft} (hd : d.Reached) : (d.program.results.entries.map SaveEntry.tag).Nodup := by
    obtain ⟨events, hs⟩ := hd
    have hkeeps := run_keeps events {}
    rw [hs] at hkeeps
    exact hkeeps.distinct List.nodup_nil
  refine ⟨fun d hd => ⟨hunique hd, fun events => (run_keeps events ⟨d, none⟩).lookup, fun role tag => ?_,
    fun leaf l hv ha => ?_⟩, fun script p hp => ?_⟩
  · exact ⟨fun source => Build.useTag_known role, Build.useTag_first role, Build.useTag_taken role⟩
  · exact leaf.perform_tags l hd.siteScoped hv ha
  · obtain ⟨d, hd, rfl⟩ := ofScript_reached hp
    exact ⟨hunique hd, d, hd, rfl⟩

end Session

end Qua
