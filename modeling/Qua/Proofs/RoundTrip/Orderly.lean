import Qua.Proofs.RoundTrip.Steps

/-!
# Sessions in order

Along a session whose calls are made of what it has answered before, names stay distinct, saves by name read
streams of the script, and the stream of every tag is one that some action writes to. Main statement:
`Draft.Orderly.perform`.
-/

namespace Qua

open Build (Along Course Raises useTag located)
open Draft (Extends Quietly)

-- ---------------------------------------------------------------------------
-- The streams of tags are written to
-- ---------------------------------------------------------------------------

/-- Some action writes to the stream of every tag. -/
def Draft.Written (d : Draft) : Prop :=
  ∀ tag source, (tag, source) ∈ d.shorthands → d.finds (fun a => a.streamNames.contains source.name) = true

section

variable {d t : Draft}

/-- Without new tags, it is enough that no action is lost. -/
theorem Draft.Written.mono (h : d.Written) (hs : t.shorthands = d.shorthands)
    (hf : ∀ p, ∃ b, t.finds p = (d.finds p || b)) : t.Written := by
  intro tag source hm
  obtain ⟨b, hb⟩ := hf fun a => a.streamNames.contains source.name
  rw [hb, h tag source (hs ▸ hm), Bool.true_or]

end

namespace Build

/-- What makes the action uses tags only for streams that the action writes to. -/
def Writes (m : Build Action) : Prop :=
  ∀ ⦃d a s⦄, m d = .ok (a, s) → ∀ tag source, (tag, source) ∈ s.shorthands →
    (tag, source) ∈ d.shorthands ∨ source.name ∈ a.streamNames

theorem writes_of_along {m : Build Action} (h : Along (fun d t => t.shorthands = d.shorthands) m) : Writes m :=
  fun _ _ _ hrun _ _ hs => .inl (h hrun ▸ hs)

theorem timestampStream_shorthands (h : timestampStream target d = .ok (stream, t))
    (hs : (tag, source) ∈ t.shorthands) : (tag, source) ∈ d.shorthands ∨ stream = some source := by
  cases target with
  | none =>
    obtain ⟨rfl, rfl⟩ := pure_eq_ok.mp h
    exact .inl hs
  | some target =>
    obtain ⟨_, raised, hraised, h⟩ := bind_eq_ok.mp h
    obtain ⟨-, rfl⟩ := Prod.mk.inj (Except.ok.inj hraised)
    cases target with
    | tag used =>
      obtain ⟨made, rfl, hu⟩ := map_eq_ok.mp h
      exact ((Draft.useTag_shorthands .timestamps hu).2.2.1 _ hs).imp_right fun he => congrArg some he.symm
    | source given =>
      obtain ⟨-, rfl⟩ := pure_eq_ok.mp h
      exact .inl hs

theorem measureStream_shorthands (h : measureStream target d = .ok (stream, t))
    (hs : (tag, source) ∈ t.shorthands) : (tag, source) ∈ d.shorthands ∨ stream = some source := by
  cases target with
  | none =>
    obtain ⟨rfl, rfl⟩ := pure_eq_ok.mp h
    exact .inl hs
  | some target =>
    cases target with
    | tag used =>
      obtain ⟨made, rfl, hu⟩ := map_eq_ok.mp h
      exact ((Draft.useTag_shorthands .trace hu).2.2.1 _ hs).imp_right fun he => congrArg some he.symm
    | source given =>
      obtain ⟨-, rfl⟩ := pure_eq_ok.mp h
      exact .inl hs

theorem saveStream_shorthands (h : saveStream target d = .ok (stream, t))
    (hs : (tag, source) ∈ t.shorthands) : (tag, source) ∈ d.shorthands ∨ stream = source := by
  cases target with
  | tag used => exact ((Draft.useTag_shorthands .values h).2.2.1 _ hs).imp_right Eq.symm
  | source given =>
    obtain ⟨-, rfl⟩ := pure_eq_ok.mp h
    exact .inl hs

theorem writes_playAction (pulse : Pulse) (element : String) (options : PlayOptions) :
    Writes (playAction pulse element options) := by
  intro d a t h tag source ht
  obtain ⟨chirp, s, hs, h⟩ := bind_eq_ok.mp h
  obtain ⟨stream, u, hu, h⟩ := bind_eq_ok.mp h
  obtain ⟨rfl, rfl⟩ := pure_eq_ok.mp h
  have hchirp := Draft.keepsShorthands.along_mapM_option
    (fun c => Draft.keepsShorthands.along_chirp c options.continueChirp) options.chirp hs
  obtain hm | rfl := timestampStream_shorthands hu ht
  · exact .inl (hchirp ▸ hm)
  · exact .inr (List.mem_singleton.mpr rfl)

theorem writes_measureAction (pulse element : String) (options : MeasureOptions) :
    Writes (measureAction pulse element options) := by
  intro d a t h tag source ht
  obtain ⟨filled, s, hs, h⟩ := bind_eq_ok.mp h
  obtain ⟨stream, u, hu, h⟩ := bind_eq_ok.mp h
  obtain ⟨rfl, rfl⟩ := pure_eq_ok.mp h
  obtain hm | rfl := timestampStream_shorthands hu ht
  · refine (measureStream_shorthands hs hm).imp_right ?_
    rintro rfl
    exact List.mem_append_left _ (List.mem_singleton.mpr rfl)
  · exact .inr (List.mem_append_right _ (List.mem_singleton.mpr rfl))

theorem writes_saveAction (source : Expression) (target : StreamTarget) :
    Writes (saveAction source target) := by
  intro d a t h tag source ht
  obtain ⟨stream, s, hs, h⟩ := bind_eq_ok.mp h
  have hrest {made : Expression} {u : Draft} (hu : u.shorthands = s.shorthands) (h : a = .save made stream.name)
      (hm : (tag, source) ∈ u.shorthands) :
      (tag, source) ∈ d.shorthands ∨ source.name ∈ a.streamNames := by
    refine (saveStream_shorthands hs (hu ▸ hm)).imp_right ?_
    rintro rfl
    exact h ▸ List.mem_singleton.mpr rfl
  cases htrace : stream.isAdcTrace with
  | true =>
    rw [htrace] at h
    cases h
  | false =>
    rw [htrace] at h
    obtain ⟨made, u, hu, h⟩ := bind_eq_ok.mp h
    obtain ⟨rfl, rfl⟩ := pure_eq_ok.mp h
    exact hrest (Draft.keepsShorthands.along_saveSource _ hu) rfl ht

end Build

open Build

section

variable {d t : Draft}

theorem Leaf.written {leaf : Leaf} (hd : d.Written)
    (h : Calls.callEach (leaf.steps.map (located l)) ⟨d, none⟩ = (.ok (), ⟨t, none⟩)) : t.Written := by
  have hmade {m : Build Action} (hr : Raises m) (hw : Writes m)
      (h : Calls.callEach ([m >>= Build.act].map (located l)) ⟨d, none⟩ = (.ok (), ⟨t, none⟩)) :
      t.Written := by
    obtain ⟨s, hs, h⟩ := Calls.callEach_cons_eq_ok h
    obtain rfl := congrArg Session.draft (Prod.mk.inj h).2
    obtain ⟨made, u, hu, hs⟩ := bind_eq_ok.mp (show (m >>= Build.act) { d with location := l } = _ from hs)
    obtain ⟨-, hfinds, -⟩ := hr hu
    have hact := extends_act made hs
    have hshorthands : s.shorthands = u.shorthands := Draft.keepsShorthands.along_append _ hs
    intro tag source ht
    rw [hact.finds, hfinds]
    obtain hm | hm := hw hu tag source (hshorthands ▸ ht)
    · rw [show Draft.finds _ { d with location := l } = true from hd tag source hm, Bool.true_or]
    · simp [hm]
  have hkept (hu : leaf.uses = []) : t.shorthands = d.shorthands := by
    have hshorthands := Draft.keepsShorthands.calls_callEach (List.forall_mem_map.mpr fun step hs =>
      Draft.keepsShorthands.along_located l (leaf.along Draft.keepsShorthands (by simp [hu]) step hs)) ⟨d, none⟩
    rw [h] at hshorthands
    exact hshorthands
  have heach {as : List Action} (hu : leaf.uses = []) (hf : ∀ p, t.finds p = (d.finds p || as.any p)) :
      t.Written := hd.mono (hkept hu) fun p => ⟨_, hf p⟩
  cases leaf with
  | play pulse element options =>
    rw [steps, play_eq] at h
    exact hmade (raises_playAction pulse element options) (writes_playAction pulse element options) h
  | measure pulse element options =>
    rw [steps, measure_eq] at h
    exact hmade (raises_measureAction pulse element options) (writes_measureAction pulse element options) h
  | waitForTrigger elements pulse trigger target =>
    rw [steps, waitForTrigger_eq] at h
    exact hmade (raises_triggerAction elements pulse trigger target)
      (writes_of_along (Draft.keepsShorthands.along_triggerAction elements pulse trigger target)) h
  | assign target value =>
    rw [steps, assign_eq] at h
    exact hmade (raises_assignAction target value)
      (writes_of_along (Draft.keepsShorthands.along_assignAction target value)) h
  | save source stream =>
    rw [steps, save_eq] at h
    exact hmade (raises_saveAction source stream) (writes_saveAction source stream) h
  | plain action =>
    have hact : Extends ([""].map fun _ => action) d t := Calls.callEach_extends h
    exact heach rfl hact.finds
  | resetFrame elements => exact heach rfl (Calls.callEach_extends h).finds
  | frameRotation angle elements => exact heach rfl (Calls.callEach_extends h).finds
  | frameRotation2pi angle elements => exact heach rfl (Calls.callEach_extends h).finds
  | fastFrameRotation cosine sine elements =>
    obtain ⟨s, hs, h⟩ := Calls.callEach_cons_eq_ok h
    obtain rfl := (Prod.mk.inj (Except.ok.inj hs)).2
    exact heach rfl (Calls.callEach_extends h).finds

theorem Event.written {event : Event} (hd : d.Written)
    (h : event.perform ⟨d, none⟩ = (.ok outcome, ⟨t, none⟩)) : t.Written := by
  obtain ⟨leaf, l, rfl, hsteps⟩ | ⟨hu, as, -, hextends⟩ := Event.leaf_or_quietly h
  · exact Leaf.written hd hsteps
  · have hshorthands := event.along_uses Draft.keepsShorthands (by simp [hu])
      (fun asked _ _ => asked.keepsShorthands) ⟨d, none⟩
    rw [h] at hshorthands
    exact hd.mono hshorthands fun p => ⟨_, hextends.finds p⟩

end

-- ---------------------------------------------------------------------------
-- Drafts in order
-- ---------------------------------------------------------------------------

section

variable {own : List String} {given : List Outcome} {d t : Draft}

/-- What the calls of a session leave behind that are made of what it has answered before. -/
structure Draft.Orderly (own : List String) (d : Draft) : Prop where
  named : d.Named
  made : ∀ x ∈ d.program.declarations, x.IsMade
  sound : d.registry.Sound own
  names : d.registry.Names (d.registry.streamNames own)
  distinct : (d.registry.saves.map SaveEntry.tag).Nodup
  written : d.Written

theorem Draft.orderly_initial : Draft.Orderly [] {} where
  named := Draft.named_initial
  made := List.forall_mem_nil _
  sound := Registry.sound_initial
  names := Registry.names_initial
  distinct := List.nodup_nil
  written _ _ h := absurd h List.not_mem_nil

theorem Event.ComposedOf.reads {event : Event} (h : event.ComposedOf given)
    (hg : ∀ source, .stream source ∈ given → source.name ∈ own) : ∀ name ∈ event.reads, name ∈ own := by
  have hpipeline {asked : Request} (h : ∀ pipeline ∈ asked.pipelines, pipeline.MadeOf given) :
      ∀ pipeline ∈ asked.pipelines, ∀ name ∈ pipeline.sourceNames, name ∈ own :=
    fun pipeline hp => (h pipeline hp).reads hg
  cases event with
  | call made l =>
    cases made with
    | request asked =>
      cases asked with
      | registerSave kind tag pipeline => exact hpipeline h.2 pipeline (List.mem_singleton.mpr rfl)
      | _ => exact List.forall_mem_nil _
    | _ => exact List.forall_mem_nil _
  | _ => exact List.forall_mem_nil _

/-- An event leaves a draft in order, with the stream that it answers. -/
theorem Draft.Orderly.perform {event : Event} (hd : d.Orderly own) (hm : event.ComposedOf given)
    (hg : ∀ source, .stream source ∈ given → source.name ∈ own)
    (h : event.perform ⟨d, none⟩ = (.ok outcome, ⟨t, none⟩)) :
    t.Orderly (Answer.streams (.ok outcome) ++ own) := by
  have hnamed := event.along Draft.named_course Draft.along_named (fun asked _ _ => asked.along_named) ⟨d, none⟩
  have hkeeps := event.along Build.keeps (fun role tag _ _ _ h => (useTag_usesTags role tag h).keeps)
    (fun asked _ _ => asked.along_keeps) ⟨d, none⟩
  have hnames := Registry.Names.performed event ⟨d, none⟩ hd.names
  rw [h] at hnamed hkeeps hnames
  exact {
    named := hnamed hd.named
    made := (Event.widens h).made hd.made
    sound := hd.sound.records (hm.reads hg) (Event.perform_records h)
    names := hnames.perm (List.Perm.append_right _ List.perm_append_comm)
    distinct := hkeeps.distinct hd.distinct
    written := Event.written hd.written h }

end
end Qua
