import Qua.Proofs.Build.Registry

/-!
# Tags

No two saves of a session have the same tag, and a tag that is used stands for one stream from then on
(`Registry.Keeps`). A call that uses tags is the same call with the streams that the tags stand for, once
the tags have been used one after the other. Main statement: `Leaf.perform_tags`.
-/

namespace Qua

open Build (Along Course useTag)

-- ---------------------------------------------------------------------------
-- What stays
-- ---------------------------------------------------------------------------

namespace Registry

variable {r r' r'' : Registry}

/-- Tags keep their streams, and tags of saves stay distinct. -/
structure Keeps (r r' : Registry) : Prop where
  lookup : ∀ tag source, r.shorthands.lookup tag = some source → r'.shorthands.lookup tag = some source
  distinct : (r.saves.map SaveEntry.tag).Nodup → (r'.saves.map SaveEntry.tag).Nodup

theorem Keeps.refl (r : Registry) : r.Keeps r := ⟨fun _ _ h => h, fun h => h⟩

theorem Keeps.trans (h : r.Keeps r') (h' : r'.Keeps r'') : r.Keeps r'' :=
  ⟨fun tag source hl => h'.lookup tag source (h.lookup tag source hl),
    fun hd => h'.distinct (h.distinct hd)⟩

theorem keeps_declared (r : Registry) : r.Keeps r.declared := ⟨fun _ _ h => h, fun h => h⟩

theorem keeps_saved {entry : SaveEntry} (hf : r.IsFree entry.tag) : r.Keeps (r.saved entry) where
  lookup _ _ h := h
  distinct h := by
    rw [saved, List.map_append, List.map_singleton]
    refine List.nodup_append.mpr ⟨h, by simp, ?_⟩
    rintro tag ht _ he rfl
    obtain ⟨other, ho, rfl⟩ := List.mem_map.mp ht
    exact hf other ho (List.mem_singleton.mp he)

theorem keeps_tagged (role : TagRole) {tag : String} (hn : r.shorthands.lookup tag = none)
    (hf : ∀ taken ∈ role.tags tag, r.IsFree taken) : r.Keeps (r.tagged role tag) where
  lookup other source hl := by
    have hne : (other == tag) = false := by
      rw [beq_eq_false_iff_ne]
      rintro rfl
      rw [hn] at hl
      nomatch hl
    rw [tagged, List.lookup_cons, hne]
    exact hl
  distinct h := by
    rw [tagged, List.map_append, role.tags_saves]
    refine List.nodup_append.mpr ⟨h, role.tags_nodup tag, ?_⟩
    rintro taken ht _ hs rfl
    obtain ⟨other, ho, rfl⟩ := List.mem_map.mp ht
    exact hf _ hs other ho rfl

theorem UsesTags.keeps (h : r.UsesTags r') : r.Keeps r' := by
  induction h with
  | refl r => exact .refl r
  | first role tag hn hf _ ih => exact (keeps_tagged role hn hf).trans ih

end Registry

open Registry (Keeps)

theorem Build.keeps : Course fun d t => d.registry.Keeps t.registry where
  of_eq _ _ h := (usesTags.of_eq h).keeps
  trans _ _ _ h h' := h.trans h'
  declares _ _ _ _ _ _ _ h := (usesTags.declares _ _ _ _ h).keeps

theorem Request.along_keeps (asked : Request) :
    Along (fun d t => d.registry.Keeps t.registry) asked.step := by
  intro d outcome t h
  have hrecords := Request.step_records h
  cases asked with
  | declareStream isAdcTrace =>
    obtain ⟨-, he⟩ := hrecords
    exact he ▸ Registry.keeps_declared _
  | registerSave kind tag pipeline =>
    obtain ⟨-, hf, he⟩ := hrecords
    exact he ▸ Registry.keeps_saved hf
  | _ => exact hrecords.2.keeps

/-- What happens later in a session leaves tags their streams, and tags of saves distinct. -/
theorem Session.run_keeps (events : List Event) (s : Session) :
    s.draft.registry.Keeps (run events s).2.draft.registry :=
  run_along Build.keeps (fun role tag _ _ _ h => (Build.useTag_usesTags role tag h).keeps)
    Request.along_keeps events s

-- ---------------------------------------------------------------------------
-- Tags that are used one after the other
-- ---------------------------------------------------------------------------

namespace Registry

/-- The stream of a tag that has been used. -/
def stream (r : Registry) (tag : String) : ResultSource :=
  (r.shorthands.lookup tag).getD (numberedStream false 0)

/-- Tags are used one after the other. -/
def useEach : Registry → List (TagRole × String) → Except BuildError Registry
  | r, [] => .ok r
  | r, (role, tag) :: rest => do
    let (_, r) ← r.use role tag
    r.useEach rest

variable {r s : Registry}

/-- A tag that has been used stands for its stream. -/
theorem lookup_of_use (h : r.use role tag = .ok (source, s)) : s.shorthands.lookup tag = some source := by
  obtain ⟨hl, rfl⟩ | ⟨-, rfl, rfl, -⟩ := use_eq_ok h
  · exact hl
  · exact List.lookup_cons_self

theorem stream_of_use (h : r.use role tag = .ok (source, s)) : s.stream tag = source := by
  rw [stream, lookup_of_use h, Option.getD_some]

theorem useEach_singleton (r : Registry) (role : TagRole) (tag : String) :
    r.useEach [(role, tag)] = (r.use role tag).map Prod.snd := by
  rw [useEach]
  cases r.use role tag <;> rfl

theorem useEach_singleton_of_use (h : r.use role tag = .ok (source, s)) : r.useEach [(role, tag)] = .ok s := by
  rw [useEach_singleton, h]
  rfl

theorem useEach_append (r : Registry) (uses more : List (TagRole × String)) :
    r.useEach (uses ++ more) = (r.useEach uses).bind fun s => s.useEach more := by
  induction uses generalizing r with
  | nil => rfl
  | cons use uses ih =>
    obtain ⟨role, tag⟩ := use
    rw [List.cons_append, useEach, useEach]
    cases r.use role tag with
    | error e => rfl
    | ok result => exact ih result.2

/-- Tags fail over a tag that one of them would save under. -/
theorem useEach_error {uses : List (TagRole × String)} (h : r.useEach uses = .error e) :
    ∃ use ∈ uses, ∃ taken ∈ use.1.tags use.2, e = .duplicateTag taken := by
  induction uses generalizing r with
  | nil => nomatch h
  | cons use uses ih =>
    obtain ⟨role, tag⟩ := use
    rw [useEach] at h
    cases hr : r.use role tag with
    | ok result =>
      rw [hr] at h
      obtain ⟨use, hu, taken⟩ := ih h
      exact ⟨use, List.mem_cons_of_mem _ hu, taken⟩
    | error e' =>
      rw [hr] at h
      obtain rfl := Except.error.inj h
      obtain ⟨taken, ht, rfl⟩ := use_error hr
      exact ⟨(role, tag), List.mem_cons_self, taken, ht, rfl⟩

/-- A tag that is known is not looked at again; another one is refused that an input of it has taken. -/
example : (({} : Draft).registry.tagged .trace "a").useEach [(.trace, "a"), (.values, "a_input1")] =
    .error (.duplicateTag "a_input1") := rfl

theorem usesTags_of_useEach {uses : List (TagRole × String)} (h : r.useEach uses = .ok s) :
    r.UsesTags s := by
  induction uses generalizing r with
  | nil =>
    obtain rfl := Except.ok.inj h
    exact .refl r
  | cons use uses ih =>
    obtain ⟨role, tag⟩ := use
    obtain ⟨⟨source, r'⟩, hr, hs⟩ := except_bind_eq_ok.mp h
    exact (usesTags_of_use hr).trans (ih hs)

/-- Tags that have been used keep their streams. -/
theorem Keeps.stream (h : r.Keeps s) (hl : r.shorthands.lookup tag = some (r.stream tag)) :
    s.stream tag = r.stream tag := by
  rw [Registry.stream, h.lookup _ _ hl, Option.getD_some]

/-- Every tag that has been used stands for a stream. -/
theorem lookup_of_useEach {uses : List (TagRole × String)} (h : r.useEach uses = .ok s) :
    ∀ use ∈ uses, s.shorthands.lookup use.2 = some (s.stream use.2) := by
  induction uses generalizing r with
  | nil => exact fun _ hn => nomatch hn
  | cons use uses ih =>
    obtain ⟨role, tag⟩ := use
    obtain ⟨⟨source, r'⟩, hr, hs⟩ := except_bind_eq_ok.mp h
    refine List.forall_mem_cons.mpr ⟨?_, ih hs⟩
    have hl := (usesTags_of_useEach hs).keeps.lookup tag source (lookup_of_use hr)
    rw [stream, hl, Option.getD_some]

end Registry

-- ---------------------------------------------------------------------------
-- Streams in place of tags
-- ---------------------------------------------------------------------------

/-- The stream of a target. -/
def StreamTarget.stream (streams : String → ResultSource) : StreamTarget → ResultSource
  | .tag name => streams name
  | .source declared => declared

/-- With a declared stream in place of a tag. -/
def StreamTarget.onStream (streams : String → ResultSource) (target : StreamTarget) : StreamTarget :=
  .source (target.stream streams)

@[simp] theorem StreamTarget.uses_onStream (role : TagRole) (streams : String → ResultSource)
    (target : StreamTarget) : (target.onStream streams).uses role = [] := rfl

/-- With declared streams in place of tags. -/
def Leaf.onStreams (streams : String → ResultSource) : Leaf → Leaf
  | .play pulse element options =>
    .play pulse element
      { options with timestampStream := options.timestampStream.map (StreamTarget.onStream streams) }
  | .measure pulse element options =>
    .measure pulse element
      { options with
        stream := options.stream.map (StreamTarget.onStream streams)
        timestampStream := options.timestampStream.map (StreamTarget.onStream streams) }
  | .save source target => .save source (target.onStream streams)
  | leaf => leaf

/-- What is saved goes to a trace. -/
def Leaf.SavesTrace (streams : String → ResultSource) : Leaf → Prop
  | .save _ target => (target.stream streams).isAdcTrace = true
  | _ => False

/-- The operands besides the tags are valid: the leaf would be valid with a declared stream for its tags. -/
def Leaf.ValidOtherwise (d : Draft) (leaf : Leaf) : Prop :=
  ∃ declared : ResultSource, declared.isAdcTrace = false ∧ (leaf.onStreams fun _ => declared).Valid d

namespace Build

variable {d : Draft}

/-- A tag that is used gives its stream. -/
theorem useTag_uses (role : TagRole) (tag : String) (d : Draft) :
    useTag role tag d =
      (d.registry.useEach [(role, tag)]).map fun r => (r.stream tag, d.withRegistry r) := by
  rw [useTag_run, Registry.useEach_singleton]
  cases hu : d.registry.use role tag with
  | error e => rfl
  | ok result =>
    obtain ⟨source, r⟩ := result
    rw [← Registry.stream_of_use hu]
    rfl

theorem useTag_known (role : TagRole) (hl : d.shorthands.lookup tag = some source) :
    useTag role tag d = .ok (source, d) := by
  have hl : d.registry.shorthands.lookup tag = some source := hl
  rw [useTag_run, Registry.use, hl]
  rfl

/-- The first use of a tag declares its stream and adds the saves of the role. -/
theorem useTag_first (role : TagRole) (hl : d.shorthands.lookup tag = none)
    (hf : ∀ taken ∈ role.tags tag, d.registry.IsFree taken) :
    ∃ entries, entries.map SaveEntry.tag = role.tags tag ∧
      useTag role tag d = .ok (d.registry.next role.isAdcTrace, d.withRegistry
        ⟨d.streams + 1, (tag, d.registry.next role.isAdcTrace) :: d.shorthands,
          d.program.results.entries ++ entries⟩) := by
  refine ⟨role.saves tag (d.registry.next role.isAdcTrace), role.tags_saves _ _, ?_⟩
  have hl : d.registry.shorthands.lookup tag = none := hl
  have hfree : (role.tags tag).find? d.registry.isTaken = none := by
    rw [List.find?_eq_none]
    intro taken ht
    simp [Registry.isTaken_eq_false.mpr (hf taken ht)]
  rw [useTag_run, Registry.use, hl]
  simp only [hfree]
  rfl

/-- The first use of a tag fails if a tag of its saves is taken. -/
theorem useTag_taken (role : TagRole) (hl : d.shorthands.lookup tag = none)
    (ht : ∃ taken ∈ role.tags tag, ¬d.registry.IsFree taken) :
    ∃ taken ∈ role.tags tag, ¬d.registry.IsFree taken ∧
      useTag role tag d = .error (.duplicateTag taken) := by
  have hl : d.registry.shorthands.lookup tag = none := hl
  rw [useTag_run, Registry.use, hl]
  cases hfind : (role.tags tag).find? d.registry.isTaken with
  | some taken =>
    refine ⟨taken, List.mem_of_find?_eq_some hfind, fun hf => ?_, rfl⟩
    have htaken := List.find?_some hfind
    rw [Registry.isTaken_eq_false.mpr hf] at htaken
    cases htaken
  | none =>
    obtain ⟨taken, hmem, hn⟩ := ht
    have hnot := List.find?_eq_none.mp hfind taken hmem
    exact absurd (Registry.isTaken_eq_false.mp (Bool.eq_false_iff.mpr hnot)) hn

theorem timestampStream_uses (target : Option StreamTarget) (d : Draft) :
    timestampStream target d =
      (d.registry.useEach (target.toList.flatMap (StreamTarget.uses .timestamps))).bind fun r =>
        timestampStream (target.map (StreamTarget.onStream r.stream)) (d.withRegistry r) := by
  cases target with
  | none => rfl
  | some target =>
    cases target with
    | source declared => rfl
    | tag name =>
      let marked : Draft := { d with
        program := { d.program with metadata := { d.program.metadata with usesCommandTimestamps := true } } }
      have hrun : timestampStream (some (.tag name)) d = (some <$> useTag .timestamps name) marked := rfl
      have hregistry : marked.registry = d.registry := rfl
      rw [hrun, map_run, useTag_uses, hregistry]
      change _ = (d.registry.useEach [(.timestamps, name)]).bind _
      cases d.registry.useEach [(.timestamps, name)] <;> rfl

theorem measureStream_uses (target : Option StreamTarget) (d : Draft) :
    measureStream target d =
      (d.registry.useEach (target.toList.flatMap (StreamTarget.uses .trace))).bind fun r =>
        measureStream (target.map (StreamTarget.onStream r.stream)) (d.withRegistry r) := by
  cases target with
  | none => rfl
  | some target =>
    cases target with
    | source declared => rfl
    | tag name =>
      have hrun : measureStream (some (.tag name)) d = (some <$> useTag .trace name) d := rfl
      rw [hrun, map_run, useTag_uses]
      change _ = (d.registry.useEach [(.trace, name)]).bind _
      cases d.registry.useEach [(.trace, name)] <;> rfl

theorem saveStream_uses (target : StreamTarget) (d : Draft) :
    saveStream target d = (d.registry.useEach (target.uses .values)).bind fun r =>
      saveStream (target.onStream r.stream) (d.withRegistry r) := by
  cases target with
  | source declared => rfl
  | tag name =>
    have hrun : saveStream (.tag name) d = useTag .values name d := rfl
    rw [hrun, useTag_uses]
    change _ = (d.registry.useEach [(.values, name)]).bind _
    cases d.registry.useEach [(.values, name)] <;> rfl

/-- Chirps do not look at streams and saves. -/
theorem chirps_withRegistry (options : Option ChirpOptions) (continues : Bool) (d : Draft) (r : Registry) :
    options.mapM (chirp · continues) (d.withRegistry r) =
      (options.mapM (chirp · continues) d).map fun (made, t) => (made, t.withRegistry r) := by
  cases options with
  | none => rfl
  | some options =>
    simp only [Option.mapM_some, map_run, chirp]
    cases ChirpUnits.ofName? options.units with
    | none => rfl
    | some units => cases options.rate <;> rfl

theorem play_uses {options : PlayOptions} (hc : ∀ c ∈ options.chirp, (ChirpUnits.ofName? c.units).isSome)
    (pulse : Pulse) (element : String) (d : Draft) :
    play pulse element options d =
      (d.registry.useEach (Leaf.play pulse element options).uses).bind fun r =>
        play pulse element
          { options with timestampStream := options.timestampStream.map (StreamTarget.onStream r.stream) }
          (d.withRegistry r) := by
  obtain ⟨made, t, hmade, -⟩ := chirps_succeed options.continueChirp d hc
  have hregistry : t.registry = d.registry := by
    have hsame := chirps_withRegistry options.chirp options.continueChirp d d.registry
    change options.chirp.mapM (chirp · options.continueChirp) d = _ at hsame
    rw [hmade] at hsame
    have ht : t = t.withRegistry d.registry := (Prod.mk.inj (Except.ok.inj hsame)).2
    rw [ht, Draft.registry_withRegistry]
  rw [play, bind_run, hmade]
  dsimp only
  rw [bind_run, timestampStream_uses, hregistry]
  change _ = (d.registry.useEach
    (options.timestampStream.toList.flatMap (StreamTarget.uses .timestamps))).bind _
  cases d.registry.useEach (options.timestampStream.toList.flatMap (StreamTarget.uses .timestamps)) with
  | error e => rfl
  | ok r =>
    simp only [Except.bind, play, bind_run, chirps_withRegistry, hmade]
    rfl

theorem measureStream_onStream (streams : String → ResultSource) (target : Option StreamTarget) (d : Draft) :
    measureStream (target.map (StreamTarget.onStream streams)) d =
      .ok (target.map (StreamTarget.stream streams), d) := by
  cases target <;> rfl

theorem measure_uses (pulse element : String) (options : MeasureOptions) (d : Draft) :
    measure pulse element options d =
      (d.registry.useEach (Leaf.measure pulse element options).uses).bind fun r =>
        measure pulse element
          { options with
            stream := options.stream.map (StreamTarget.onStream r.stream)
            timestampStream := options.timestampStream.map (StreamTarget.onStream r.stream) }
          (d.withRegistry r) := by
  rw [measure, bind_run, measureStream_uses, Leaf.uses, Registry.useEach_append]
  cases hs : d.registry.useEach (options.stream.toList.flatMap (StreamTarget.uses .trace)) with
  | error e => rfl
  | ok s =>
    simp only [Except.bind, measureStream_onStream]
    rw [bind_run, timestampStream_uses, Draft.registry_withRegistry]
    cases hr : s.useEach (options.timestampStream.toList.flatMap (StreamTarget.uses .timestamps)) with
    | error e => rfl
    | ok r =>
      -- The use of the second tag leaves the first one its stream.
      have hstream : options.stream.map (StreamTarget.stream r.stream) =
          options.stream.map (StreamTarget.stream s.stream) := by
        cases htarget : options.stream with
        | none => rfl
        | some target =>
          cases target with
          | source declared => rfl
          | tag name =>
            rw [htarget] at hs
            have hl := Registry.lookup_of_useEach hs (.trace, name) (List.mem_singleton.mpr rfl)
            exact congrArg some ((Registry.usesTags_of_useEach hr).keeps.stream hl)
      simp only [measure, bind_run, measureStream_onStream, hstream]
      rfl

theorem save_uses (source : Expression) (target : StreamTarget) (d : Draft) :
    save source target d = (d.registry.useEach (Leaf.save source target).uses).bind fun r =>
      save source (target.onStream r.stream) (d.withRegistry r) := by
  rw [save_eq, saveAction, bind_assoc, bind_run, saveStream_uses, Leaf.uses]
  cases d.registry.useEach (target.uses .values) with
  | error e => rfl
  | ok r =>
    simp only [Except.bind, save_eq, saveAction, bind_run]
    rfl

end Build

namespace Leaf

open Build

variable {d : Draft}

theorem uses_onStreams (leaf : Leaf) (streams : String → ResultSource) :
    (leaf.onStreams streams).uses = [] := by
  cases leaf with
  | play pulse element options => simp [onStreams, uses]
  | measure pulse element options => simp [onStreams, uses]
  | _ => rfl

/-- The units of chirps are known. -/
def ChirpsKnown : Leaf → Prop
  | .play _ _ options => ∀ c ∈ options.chirp, (ChirpUnits.ofName? c.units).isSome
  | _ => True

theorem ValidOtherwise.chirpsKnown {leaf : Leaf} (hv : leaf.ValidOtherwise d) : leaf.ChirpsKnown := by
  obtain ⟨declared, -, hv⟩ := hv
  cases leaf with
  | play pulse element options => exact hv.1
  | _ => trivial

/-- What a leaf of one step does. -/
theorem perform_step {leaf : Leaf} (h : leaf.steps = [step]) (l : String) (d : Draft) :
    Call.perform l (.leaf leaf) ⟨d, none⟩ = match step { d with location := l } with
      | .ok (_, t) => (.ok .done, ⟨t, none⟩)
      | .error e => (.error e, ⟨d, some e.message⟩) := by
  have hrun : located l step d = step { d with location := l } := rfl
  simp only [Call.perform, h, List.map_singleton, Calls.callEach, bind, ExceptT.bind, ExceptT.mk, StateT.bind,
    Session.applyEach, Session.apply, hrun]
  cases step { d with location := l } <;> rfl

/-- A leaf that does not fail knows the units of its chirps. -/
theorem chirpsKnown_of_perform {leaf : Leaf} (h : Call.perform l (.leaf leaf) ⟨d, none⟩ = (.ok outcome, s)) :
    leaf.ChirpsKnown := by
  cases leaf with
  | play pulse element options =>
    rintro c hc
    cases hk : ChirpUnits.ofName? c.units with
    | some units => rfl
    | none =>
      have hchirp (e : Draft) : chirp c options.continueChirp e = .error (.unknownUnits c.units) := by
        rw [chirp, hk]
        rfl
      have hplay (e : Draft) : Build.play pulse element options e = .error (.unknownUnits c.units) := by
        rw [Build.play, bind_run, Option.mem_def.mp hc, Option.mapM_some, map_run, hchirp]
      rw [perform_step rfl, hplay] at h
      cases h
  | _ => trivial

/-- What a leaf of one step does that uses tags. -/
theorem perform_step_uses {leaf : Leaf} {step' : (String → ResultSource) → Build Unit}
    (hs : leaf.steps = [step]) (hs' : ∀ streams, (leaf.onStreams streams).steps = [step' streams])
    (h : ∀ d, step d = (d.registry.useEach leaf.uses).bind fun r => step' r.stream (d.withRegistry r))
    (l : String) (d : Draft) :
    Call.perform l (.leaf leaf) ⟨d, none⟩ = match d.registry.useEach leaf.uses with
      | .error e => (.error e, ⟨d, some e.message⟩)
      | .ok r => match Call.perform l (.leaf (leaf.onStreams r.stream)) ⟨d.withRegistry r, none⟩ with
        | (.ok outcome, s) => (.ok outcome, s)
        | (.error e, s) => (.error e, ⟨d, s.poison⟩) := by
  have hregistry : Draft.registry { d with location := l } = d.registry := rfl
  rw [perform_step hs, h, hregistry]
  cases d.registry.useEach leaf.uses with
  | error e => rfl
  | ok r =>
    have hlocated : Draft.withRegistry { d with location := l } r =
        { d.withRegistry r with location := l } := rfl
    simp only [perform_step (hs' _), Except.bind, hlocated]
    cases step' r.stream { d.withRegistry r with location := l } <;> rfl

/-- A leaf that uses tags does what it does with their streams, once the tags have been used; if it fails,
the draft is as it was. -/
theorem perform_uses (leaf : Leaf) (l : String) (d : Draft) (hc : leaf.ChirpsKnown) (hu : leaf.uses ≠ []) :
    Call.perform l (.leaf leaf) ⟨d, none⟩ = match d.registry.useEach leaf.uses with
      | .error e => (.error e, ⟨d, some e.message⟩)
      | .ok r => match Call.perform l (.leaf (leaf.onStreams r.stream)) ⟨d.withRegistry r, none⟩ with
        | (.ok outcome, s) => (.ok outcome, s)
        | (.error e, s) => (.error e, ⟨d, s.poison⟩) := by
  cases leaf with
  | play pulse element options => exact perform_step_uses rfl (fun _ => rfl) (play_uses hc pulse element) l d
  | measure pulse element options =>
    exact perform_step_uses rfl (fun _ => rfl) (measure_uses pulse element options) l d
  | save source target => exact perform_step_uses rfl (fun _ => rfl) (save_uses source target) l d
  | _ => exact absurd rfl hu

theorem usable_onStream (saves : String → ResultSource → List SaveEntry) (streams : String → ResultSource)
    (target : Option StreamTarget) (d : Draft) :
    ∀ x ∈ target.map (StreamTarget.onStream streams), TargetUsable saves d x := by
  cases target with
  | none => exact fun _ hx => nomatch hx
  | some target =>
    rintro _ ⟨⟩
    trivial

/-- With valid operands besides its tags, a leaf is valid with any streams, as long as it saves to no
trace. -/
theorem ValidOtherwise.onStreams {leaf : Leaf} (hv : leaf.ValidOtherwise d)
    {streams : String → ResultSource} (hs : ¬leaf.SavesTrace streams) (e : Draft) :
    (leaf.onStreams streams).Valid e := by
  obtain ⟨declared, -, hv⟩ := hv
  cases leaf with
  | play pulse element options => exact ⟨hv.1, usable_onStream _ streams _ e⟩
  | measure pulse element options =>
    exact ⟨usable_onStream _ streams _ e, fun _ t _ => usable_onStream _ streams _ t⟩
  | save source target =>
    refine ⟨hv.1, trivial, fun x t hx => ?_⟩
    obtain ⟨rfl, -⟩ := pure_eq_ok.mp hx
    exact Bool.eq_false_iff.mpr hs
  | _ => exact hv

theorem count_onStreams (leaf : Leaf) (streams : String → ResultSource) :
    (leaf.onStreams streams).count = leaf.count := by cases leaf <;> rfl

theorem perform_done {leaf : Leaf} (h : Call.perform l (.leaf leaf) s = (.ok outcome, t)) :
    outcome = .done := by
  obtain ⟨_, _, -, h⟩ := Calls.bind_eq_ok h
  exact (Except.ok.inj (Prod.mk.inj h).1).symm

theorem keepsRegistry : Course fun d t => t.registry = d.registry where
  of_eq _ t h := by rw [← t.registry_inventory, h]; rfl
  trans _ _ _ h h' := h'.trans h
  declares _ _ _ _ d _ t h := by
    obtain ⟨declaration, hadds⟩ := declareNamed_adds h
    exact hadds.registry

/-- All that a leaf that does not fail has done with streams and saves is to use its tags. -/
theorem perform_useEach {leaf : Leaf} (h : Call.perform l (.leaf leaf) ⟨d, none⟩ = (.ok outcome, s)) :
    d.registry.useEach leaf.uses = .ok s.draft.registry := by
  have hkeeps {leaf : Leaf} (hu : leaf.uses = []) (e : Draft) :
      (Call.perform l (.leaf leaf) ⟨e, none⟩).2.draft.registry = e.registry :=
    leaf.along_perform keepsRegistry (fun use hm => by rw [hu] at hm; nomatch hm) l ⟨e, none⟩
  by_cases hu : leaf.uses = []
  · have hsame := hkeeps hu d
    rw [h] at hsame
    rw [hu, hsame]
    rfl
  · have hrun := leaf.perform_uses l d (chirpsKnown_of_perform h) hu
    rw [h] at hrun
    cases hr : d.registry.useEach leaf.uses with
    | error e =>
      rw [hr] at hrun
      cases hrun
    | ok r =>
      have hsame := hkeeps (leaf.uses_onStreams r.stream) (d.withRegistry r)
      rw [Draft.registry_withRegistry] at hsame
      rw [hr] at hrun
      cases hp : Call.perform l (.leaf (leaf.onStreams r.stream)) ⟨d.withRegistry r, none⟩ with
      | mk answer t =>
        simp only [hp] at hrun hsame
        cases answer with
        | error e => cases hrun
        | ok made =>
          obtain ⟨-, rfl⟩ := Prod.mk.inj hrun
          rw [hsame]

/-- Without tags there is nothing to replace. -/
theorem onStreams_of_uses {leaf : Leaf} (h : leaf.uses = []) (streams : String → ResultSource) :
    leaf.onStreams streams = leaf := by
  have htarget {role : TagRole} {target : Option StreamTarget}
      (ht : target.toList.flatMap (StreamTarget.uses role) = []) :
      target.map (StreamTarget.onStream streams) = target := by
    cases target with
    | none => rfl
    | some target =>
      cases target with
      | tag name => nomatch ht
      | source declared => rfl
  cases leaf with
  | play pulse element options => rw [onStreams, htarget h]
  | measure pulse element options =>
    obtain ⟨hs, ht⟩ := List.append_eq_nil_iff.mp h
    rw [onStreams, htarget hs, htarget ht]
  | save source target =>
    cases target with
    | tag name => nomatch h
    | source declared => rfl
  | _ => rfl

/-- A valid leaf is performed with its streams, which does nothing to streams and saves. -/
theorem perform_onStreams {leaf : Leaf} (l : String) (hd : d.site.Scoped) (hv : leaf.ValidOtherwise d)
    (ha : (Call.leaf leaf).Admitted d.site) {r : Registry} (hs : ¬leaf.SavesTrace r.stream) :
    ∃ t, t.registry = r ∧
      Call.perform l (.leaf (leaf.onStreams r.stream)) ⟨d.withRegistry r, none⟩ = (.ok .done, ⟨t, none⟩) := by
  have hvalid := hv.onStreams hs (d.withRegistry r)
  have hadmitted : (Call.leaf (leaf.onStreams r.stream)).Admitted (d.withRegistry r).site := by
    rw [Call.Admitted, count_onStreams]
    exact ha
  obtain ⟨operands, ho, ⟨-, outcome, t, ht, -⟩ | ⟨hn, -⟩⟩ := Call.perform_settles
    (d := d.withRegistry r) (.leaf (leaf.onStreams r.stream)) l hd
  · obtain rfl := perform_done ht
    have hregistry := (leaf.onStreams r.stream).along_perform keepsRegistry
      (fun use hu => by rw [uses_onStreams] at hu; nomatch hu) l ⟨d.withRegistry r, none⟩
    rw [ht] at hregistry
    exact ⟨t, hregistry, ht⟩
  · exact absurd ⟨ho hvalid, hadmitted⟩ hn

theorem perform_savesTrace (source : Expression) {target : StreamTarget} (l : String) (d : Draft)
    {streams : String → ResultSource} (hs : (target.stream streams).isAdcTrace = true) :
    Call.perform l (.leaf (.save source (target.onStream streams))) ⟨d, none⟩ =
      (.error .adcTraceSave, ⟨d, some BuildError.adcTraceSave.message⟩) := by
  have hsteps : (Leaf.save source (target.onStream streams)).steps =
      [Build.save source (target.onStream streams)] := rfl
  have hfails (e : Draft) : Build.save source (target.onStream streams) e = .error .adcTraceSave := by
    simp only [save_eq, saveAction, StreamTarget.onStream, saveStream, pure_bind, hs, if_true]
    rfl
  rw [perform_step hsteps, hfails]

/-- What a leaf does that is valid besides its tags: it fails if the first use of a tag finds one of the
tags of its saves taken, or if it saves to a trace. Else its tags have been used, nothing more has been done to
streams and saves, and the leaf is the same call with the streams that its tags stand for. -/
def UsesTags (leaf : Leaf) (l : String) (d : Draft) : Prop :=
  match d.registry.useEach leaf.uses with
  | .error e => (∃ use ∈ leaf.uses, ∃ taken ∈ use.1.tags use.2, e = .duplicateTag taken) ∧
    Call.perform l (.leaf leaf) ⟨d, none⟩ = (.error e, ⟨d, some e.message⟩)
  | .ok r => (∀ use ∈ leaf.uses, r.shorthands.lookup use.2 = some (r.stream use.2)) ∧
    (leaf.SavesTrace r.stream → Call.perform l (.leaf leaf) ⟨d, none⟩ =
      (.error .adcTraceSave, ⟨d, some BuildError.adcTraceSave.message⟩)) ∧
    (¬leaf.SavesTrace r.stream → ∃ t, t.registry = r ∧
      Call.perform l (.leaf leaf) ⟨d, none⟩ = (.ok .done, ⟨t, none⟩) ∧
      Call.perform l (.leaf (leaf.onStreams r.stream)) ⟨d.withRegistry r, none⟩ = (.ok .done, ⟨t, none⟩))

theorem perform_tags (leaf : Leaf) (l : String) (hd : d.site.Scoped) (hv : leaf.ValidOtherwise d)
    (ha : (Call.leaf leaf).Admitted d.site) : leaf.UsesTags l d := by
  unfold UsesTags
  cases hr : d.registry.useEach leaf.uses with
  | error e =>
    have hu : leaf.uses ≠ [] := fun hu => by rw [hu] at hr; nomatch hr
    have hrun := leaf.perform_uses l d hv.chirpsKnown hu
    rw [hr] at hrun
    exact ⟨Registry.useEach_error hr, hrun⟩
  | ok r =>
    refine ⟨Registry.lookup_of_useEach hr, ?_⟩
    by_cases hu : leaf.uses = []
    · rw [hu] at hr
      obtain rfl := Except.ok.inj hr
      refine ⟨fun hs => ?_, fun hs => ?_⟩
      · obtain ⟨declared, -, hv⟩ := hv
        rw [onStreams_of_uses hu] at hv
        cases leaf with
        | save source target =>
          cases target with
          | tag name => nomatch hu
          | source declared =>
            have hno := hv.2.2 declared d rfl
            rw [SavesTrace, StreamTarget.stream, hno] at hs
            nomatch hs
        | _ => exact hs.elim
      · obtain ⟨t, hregistry, ht⟩ := perform_onStreams l hd hv ha hs
        refine ⟨t, hregistry, ?_, ht⟩
        rw [onStreams_of_uses hu] at ht
        exact ht
    · have hrun := leaf.perform_uses l d hv.chirpsKnown hu
      rw [hr] at hrun
      refine ⟨fun hs => ?_, fun hs => ?_⟩
      · cases leaf with
        | save source target =>
          simp only [onStreams, perform_savesTrace source l (d.withRegistry r) hs] at hrun
          exact hrun
        | _ => exact hs.elim
      · obtain ⟨t, hregistry, ht⟩ := perform_onStreams l hd hv ha hs
        simp only [ht] at hrun
        exact ⟨t, hregistry, hrun, ht⟩

end Leaf

end Qua
