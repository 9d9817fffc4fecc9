import Qua.Proofs.Build.Flags
import Qua.Proofs.Build.Roles
import Qua.Proofs.Replay.Arrangement

/-!
# Actions can be made again

When the listing of a program is replayed, each of its actions can be made again after those before it:
the streams it needs are declared, and the tags it uses are known or have free tags for their saves, if the
listing uses each for the first time in its role. What comes of it is known, up to the streams and saves.
Main statement: `arrangesAll_of_fits`.
-/

namespace Qua

open Build (playAction measureAction saveStream timestampStream measureStream)

-- ---------------------------------------------------------------------------
-- The streams and flags of an action
-- ---------------------------------------------------------------------------

namespace Action

/-- The streams that the action writes to, each with what is written. -/
def streamUses : Action → List (TagRole × String)
  | .play p => p.timestampStream.toList.map fun name => (.timestamps, name)
  | .measure m =>
    m.stream.toList.map (fun name => (.trace, name)) ++
      m.timestampStream.toList.map fun name => (.timestamps, name)
  | .save _ stream => [(.values, stream)]
  | _ => []

theorem streamUses_names (a : Action) : a.streamUses.map Prod.snd = a.streamNames := by
  cases a <;> simp [streamUses, streamNames, Function.comp_def]

/-- The tags that are used when the action is made with the given targets. -/
def tagUses (target : String → StreamTarget) (a : Action) : List (TagRole × String) :=
  a.streamUses.flatMap fun use => (target use.2).uses use.1

/-- The tags that stand for the streams of the action, each with the role that it is used in. -/
def taggedUses (shorthand? : String → Option String) (a : Action) : List (TagRole × String) :=
  a.streamUses.filterMap fun use => (shorthand? use.2).map fun tag => (use.1, tag)

theorem mem_taggedUses {shorthand? : String → Option String} {a : Action} :
    (used, tag) ∈ a.taggedUses shorthand? ↔
      ∃ name, (used, name) ∈ a.streamUses ∧ shorthand? name = some tag := by
  simp only [taggedUses, List.mem_filterMap, Option.map_eq_some_iff]
  constructor
  · rintro ⟨⟨_, name⟩, hm, _, ht, ⟨⟩⟩
    exact ⟨name, hm, ht⟩
  · rintro ⟨name, hm, ht⟩
    exact ⟨(used, name), hm, tag, ht, rfl⟩

/-- The flags of a program that has the action too. -/
def marks (a : Action) (m : Metadata) : Metadata :=
  ⟨a.writesTimestamps || m.usesCommandTimestamps, a.rotatesFast || m.usesFastFrameRotation⟩

end Action

/-- The draft with the flags of more actions. -/
def Draft.marked (as : List Action) (d : Draft) : Draft :=
  { d with program := { d.program with
      metadata := as.foldl (fun m a => a.marks m) d.program.metadata } }

/-- The draft with the flag for timestamps, if there are any. -/
def Draft.timestamped (timestamps : Bool) (d : Draft) : Draft :=
  { d with program := { d.program with metadata := { d.program.metadata with
      usesCommandTimestamps := timestamps || d.program.metadata.usesCommandTimestamps } } }

-- ---------------------------------------------------------------------------
-- Making one action again
-- ---------------------------------------------------------------------------

namespace Build

variable {d : Draft} {r : Registry}

theorem timestampStream_ok {target : String → StreamTarget} {stream : Option String}
    (h : d.registry.useEach ((stream.toList.map fun name => (TagRole.timestamps, name)).flatMap
      fun use => (target use.2).uses use.1) = .ok r) :
    ∃ made, timestampStream (stream.map target) d = .ok (made, (d.withRegistry r).timestamped stream.isSome) := by
  rw [timestampStream_uses]
  cases stream with
  | none =>
    obtain rfl := Except.ok.inj h
    exact ⟨none, rfl⟩
  | some name =>
    simp only [Option.toList_some, List.map_cons, List.map_nil, List.flatMap_cons, List.flatMap_nil,
      List.append_nil, Option.map_some] at h ⊢
    rw [h]
    exact ⟨_, rfl⟩

theorem measureStream_ok {target : String → StreamTarget} {stream : Option String}
    (h : d.registry.useEach ((stream.toList.map fun name => (TagRole.trace, name)).flatMap
      fun use => (target use.2).uses use.1) = .ok r) :
    ∃ made, measureStream (stream.map target) d = .ok (made, d.withRegistry r) := by
  rw [measureStream_uses]
  cases stream with
  | none =>
    obtain rfl := Except.ok.inj h
    exact ⟨none, rfl⟩
  | some name =>
    simp only [Option.toList_some, List.map_cons, List.map_nil, List.flatMap_cons, List.flatMap_nil,
      List.append_nil, Option.map_some] at h ⊢
    rw [h]
    exact ⟨_, rfl⟩

end Build

open Build in
/-- An action is made again if the tags that it uses can be, and its values are not saved to a trace. -/
theorem Action.remade_run {a : Action} {target : String → StreamTarget} {d : Draft} {r : Registry}
    (hf : a.Formed) (hu : d.registry.useEach (a.tagUses target) = .ok r)
    (hs : ∀ name, (.values, name) ∈ a.streamUses → ((target name).stream r.stream).isAdcTrace = false) :
    ∃ made, a.remade target d = .ok (made, (d.withRegistry r).marked [a]) := by
  have hpure (made : Action) (hu : d.registry.useEach [] = .ok r) :
      (pure made : Build Action) d = .ok (made, (d.withRegistry r).marked []) := by
    obtain rfl := Except.ok.inj hu
    rfl
  cases a with
  | play p =>
    obtain ⟨made, hmade⟩ := timestampStream_ok hu
    exact ⟨_, bind_eq_ok.mpr ⟨p.chirp, d, chirps_options p.chirp d,
      bind_eq_ok.mpr ⟨made, _, hmade, rfl⟩⟩⟩
  | measure m =>
    rw [tagUses, streamUses, List.flatMap_append, Registry.useEach_append] at hu
    obtain ⟨r', hr', hu⟩ := except_bind_eq_ok.mp hu
    obtain ⟨stream, hstream⟩ := measureStream_ok hr'
    obtain ⟨made, hmade⟩ := timestampStream_ok (d := d.withRegistry r') hu
    exact ⟨_, bind_eq_ok.mpr ⟨stream, _, hstream, bind_eq_ok.mpr ⟨made, _, hmade, rfl⟩⟩⟩
  | save source stream =>
    have hs := hs stream List.mem_cons_self
    rw [tagUses, streamUses, List.flatMap_cons, List.flatMap_nil, List.append_nil] at hu
    have hstream : saveStream (target stream) d = .ok ((target stream).stream r.stream, d.withRegistry r) := by
      rw [saveStream_uses, hu]
      rfl
    have hsource : saveSource source (d.withRegistry r) = .ok (source, d.withRegistry r) := by
      have hf : IsSavable source := hf
      cases source <;> first | rfl | cases hf
    refine ⟨.save source ((target stream).stream r.stream).name, ?_⟩
    rw [remade, saveAction, bind_run, hstream]
    simp only [hs, Bool.false_eq_true, if_false]
    rw [bind_run, hsource]
    rfl
  | assign place value =>
    have hplace : assignTarget place d = .ok (place, d) := by
      have hf : IsPlace place := hf
      cases place <;> first | rfl | cases hf
    obtain rfl := Except.ok.inj hu
    refine ⟨.assign place value, ?_⟩
    rw [remade, assignAction, bind_run, hplace]
    rfl
  | fastFrameRotation cosine sine element =>
    obtain rfl := Except.ok.inj hu
    exact ⟨.fastFrameRotation cosine sine element, rfl⟩
  | waitForTrigger w =>
    obtain rfl := Except.ok.inj hu
    refine ⟨.waitForTrigger ⟨w.elements, w.pulse, w.trigger, w.timeTagTarget⟩, ?_⟩
    rw [remade, triggerAction]
    cases w.timeTagTarget <;> rfl
  | _ => exact ⟨_, hpure _ hu⟩

-- ---------------------------------------------------------------------------
-- Stages in order
-- ---------------------------------------------------------------------------

section

variable {role : String → TagRole} {tags : List String} {shorthand? : String → Option String}
  {x y z : Stage}

namespace Stage

/-- The streams with a line of their own, and those of tags, have been declared one after the other. -/
structure InOrder (role : String → TagRole) (tags : List String) (x : Stage) : Prop where
  replica : x.draft.registry.Replica role tags (x.streams.map fun (_, source) => source.name)
  streams : ∀ name source, (name, source) ∈ x.streams →
    ∃ n, source = numberedStream (ResultSource.isTraceName name) n

theorem InOrder.declare (h : x.InOrder role tags) (name : String) : (x.declare name).InOrder role tags where
  replica := h.replica.declared (ResultSource.isTraceName name)
  streams other source hs := by
    obtain hs | hs := List.mem_cons.mp hs
    · obtain ⟨rfl, rfl⟩ := Prod.mk.inj hs
      exact ⟨_, rfl⟩
    · exact h.streams other source hs

theorem InOrder.declareAll (h : x.InOrder role tags) (names : List String) :
    (x.declareAll names).InOrder role tags := by
  induction names generalizing x with
  | nil => exact h
  | cons name names ih => exact ih (h.declare name)

theorem draft_declareAll (x : Stage) (names : List String) :
    ∃ r, (x.declareAll names).draft = x.draft.withRegistry r ∧ r.saves = x.draft.registry.saves := by
  induction names generalizing x with
  | nil => exact ⟨x.draft.registry, rfl, rfl⟩
  | cons name names ih =>
    obtain ⟨r, hr, hs⟩ := ih (x.declare name)
    exact ⟨r, hr, hs⟩

theorem shorthands_declareAll (x : Stage) (names : List String) :
    (x.declareAll names).draft.shorthands = x.draft.shorthands := by
  induction names generalizing x with
  | nil => rfl
  | cons name names ih => exact ih (x.declare name)

theorem mem_streams (h : x.streams.lookup name = some source) : (name, source) ∈ x.streams := by
  obtain ⟨before, after, hs, -⟩ := List.lookup_eq_some_iff.mp h
  rw [hs]
  exact List.mem_append_right before List.mem_cons_self

/-- The stream has been declared, on a line of its own or for its tag. -/
structure Has (shorthand? : String → Option String) (x : Stage) (name : String) : Prop where
  declared : shorthand? name = none → ∃ source, x.streams.lookup name = some source
  tagged : ∀ tag, shorthand? name = some tag → ∃ source, x.draft.shorthands.lookup tag = some source

theorem Has.extends (h : x.Has shorthand? name) (he : x.Extends y) : y.Has shorthand? name where
  declared hn := by
    obtain ⟨source, hs⟩ := h.declared hn
    exact ⟨source, he.streams name source hs⟩
  tagged tag ht := by
    obtain ⟨source, hs⟩ := h.tagged tag ht
    exact ⟨source, he.tags tag source hs⟩

end Stage

/-- What is used to make the action again are the tags of its streams, wherever that is done. -/
theorem Action.tagUses_target (a : Action) (x : Stage) :
    a.tagUses (x.target shorthand?) = a.taggedUses shorthand? := by
  rw [tagUses, taggedUses, List.filterMap_eq_flatMap_toList]
  congr 1
  funext use
  rw [Stage.target]
  cases shorthand? use.2 <;> rfl

/-- Besides what is asked of its operands, the streams of the action can be had again: its tags are among
the given ones, and values are saved to no trace. -/
structure Action.Fits (role : String → TagRole) (tags : List String) (shorthand? : String → Option String)
    (a : Action) : Prop where
  formed : a.Formed
  tagged : ∀ use ∈ a.taggedUses shorthand?, use.2 ∈ tags
  saved : ∀ name, (.values, name) ∈ a.streamUses → shorthand? name = none →
    ResultSource.isTraceName name = false
  savedTag : ∀ tag, (.values, tag) ∈ a.taggedUses shorthand? → (role tag).isAdcTrace = false

theorem Registry.Replica.isAdcTrace {own : List String} {r : Registry} (h : r.Replica role tags own)
    (hs : r.shorthands.lookup tag = some source) : source.isAdcTrace = (role tag).isAdcTrace := by
  obtain ⟨n, rfl⟩ := h.made.source tag source (Registry.mem_of_lookup hs)
  rfl

/-- An action that fits is made again, whatever has been made before, if it leaves the first uses of tags in
their roles. -/
theorem Action.Fits.arranges {a : Action} (ha : a.Fits role tags shorthand?) (hx : x.InOrder role tags)
    (hapart : ∀ tag ∈ tags, ∀ other ∈ tags, tag ≠ other →
      ((role tag).tags tag).Disjoint ((role other).tags other)) {more : List (TagRole × String)}
    (hr : x.draft.registry.Heeds role (a.taggedUses shorthand? ++ more)) :
    ∃ made y r, a.Arranges shorthand? x made y ∧ y.InOrder role tags ∧ y.draft.registry.Heeds role more ∧
      y.draft = (x.draft.withRegistry r).marked [a] ∧ ∀ name ∈ a.streamNames, y.Has shorthand? name := by
  let w := a.declared shorthand? x
  have hw : w.InOrder role tags := hx.declareAll _
  obtain ⟨r₀, hr₀, -⟩ := x.draft_declareAll (undeclared shorthand? x.names a.streamNames)
  have huses : a.tagUses (w.target shorthand?) = a.taggedUses shorthand? := a.tagUses_target w
  have hr : w.draft.registry.Heeds role (a.tagUses (w.target shorthand?) ++ more) := by
    intro tag used hl hf
    rw [huses] at hf
    exact hr tag used ((congrArg (List.lookup tag) (x.shorthands_declareAll _)).symm.trans hl) hf
  have htags : ∀ use ∈ a.tagUses (w.target shorthand?), use.2 ∈ tags := fun use hu => ha.tagged use (huses ▸ hu)
  have hfirst : w.draft.registry.Heeds role (a.tagUses (w.target shorthand?)) :=
    fun tag used hl hf => hr tag used hl (by rw [firstRole?_append, hf, Option.some_or])
  obtain ⟨r, hrun, hreplica⟩ := hw.replica.useEach hapart htags hfirst
  have hlookup : ∀ name ∈ a.streamNames, ∀ tag, shorthand? name = some tag →
      r.shorthands.lookup tag = some (r.stream tag) := by
    intro name hn tag ht
    rw [← a.streamUses_names] at hn
    obtain ⟨⟨used, name⟩, hm, rfl⟩ := List.mem_map.mp hn
    exact Registry.lookup_of_useEach hrun (used, tag) (huses ▸ mem_taggedUses.mpr ⟨name, hm, ht⟩)
  have hdeclared : ∀ name ∈ a.streamNames, shorthand? name = none →
      ∃ source, w.streams.lookup name = some source :=
    fun name hn ht => Stage.mem_names_iff.mp (Action.mem_declared hn ht)
  have hsaved : ∀ name, (.values, name) ∈ a.streamUses →
      ((w.target shorthand? name).stream r.stream).isAdcTrace = false := by
    intro name hm
    have hn : name ∈ a.streamNames := a.streamUses_names ▸ List.mem_map_of_mem hm
    cases ht : shorthand? name with
    | some tag =>
      rw [Stage.target, ht, StreamTarget.stream, hreplica.isAdcTrace (hlookup name hn tag ht)]
      exact ha.savedTag tag (mem_taggedUses.mpr ⟨name, hm, ht⟩)
    | none =>
      obtain ⟨source, hl⟩ := hdeclared name hn ht
      obtain ⟨n, rfl⟩ := hw.streams name source (Stage.mem_streams hl)
      simp only [Stage.target, ht, hl, Option.getD_some, StreamTarget.stream]
      exact ha.saved name hm ht
  obtain ⟨made, hmade⟩ := Action.remade_run ha.formed hrun hsaved
  refine ⟨made, ⟨w.streams, (w.draft.withRegistry r).marked [a]⟩, r, ⟨rfl, hmade⟩, ⟨hreplica, hw.streams⟩,
    (hr.append hrun).2, ?_, fun name hn => ⟨hdeclared name hn, fun tag ht => ⟨_, hlookup name hn tag ht⟩⟩⟩
  rw [show w.draft = x.draft.withRegistry r₀ from hr₀]
  rfl

/-- Actions that fit are made again one after the other. -/
theorem arrangesAll_of_fits {as : List Action} (ha : ∀ a ∈ as, a.Fits role tags shorthand?)
    (hx : x.InOrder role tags) (hapart : ∀ tag ∈ tags, ∀ other ∈ tags, tag ≠ other →
      ((role tag).tags tag).Disjoint ((role other).tags other))
    (hr : x.draft.registry.Heeds role (as.flatMap (Action.taggedUses shorthand?))) :
    ∃ y r, ArrangesAll shorthand? as x y ∧ y.InOrder role tags ∧
      y.draft = (x.draft.withRegistry r).marked as ∧
      ∀ a ∈ as, ∀ name ∈ a.streamNames, y.Has shorthand? name := by
  induction as generalizing x with
  | nil => exact ⟨x, x.draft.registry, .nil x, hx, rfl, fun _ h => nomatch h⟩
  | cons a as ih =>
    obtain ⟨hfirst, hrest⟩ := List.forall_mem_cons.mp ha
    obtain ⟨made, y, r, harranges, hy, hr, hdraft, hhas⟩ := hfirst.arranges hx hapart hr
    obtain ⟨z, r', hall, hz, hdraft', hhas'⟩ := ih hrest hy hr
    refine ⟨z, r', .cons harranges hall, hz, ?_, List.forall_mem_cons.mpr ⟨fun name hn => ?_, hhas'⟩⟩
    · rw [hdraft', hdraft]
      rfl
    · exact (hhas name hn).extends (hall.extends fun b hb => (hrest b hb).formed)

-- ---------------------------------------------------------------------------
-- The new names
-- ---------------------------------------------------------------------------

namespace Stage

/-- The name that a stream has got. -/
def newName (shorthand? : String → Option String) (x : Stage) (name : String) : String :=
  let source? := match shorthand? name with
    | some tag => x.draft.shorthands.lookup tag
    | none => x.streams.lookup name
  (source?.map ResultSource.name).getD name

theorem newName_declared (hn : shorthand? name = none) (hs : x.streams.lookup name = some source) :
    x.newName shorthand? name = source.name := by
  simp only [newName, hn, hs, Option.map_some, Option.getD_some]

theorem newName_tagged (ht : shorthand? name = some tag)
    (hs : x.draft.shorthands.lookup tag = some source) : x.newName shorthand? name = source.name := by
  simp only [newName, ht, hs, Option.map_some, Option.getD_some]

theorem names_newName : x.Names shorthand? (x.newName shorthand?) :=
  ⟨fun _ _ hn hs => newName_declared hn hs, fun _ _ _ ht hs => newName_tagged ht hs⟩

/-- Different streams have got different names. -/
theorem InOrder.newName_injective (h : x.InOrder role tags)
    (hinjective : ∀ name name' tag, shorthand? name = some tag → shorthand? name' = some tag → name = name')
    (hn : x.Has shorthand? name) (hn' : x.Has shorthand? name')
    (he : x.newName shorthand? name = x.newName shorthand? name') : name = name' := by
  obtain ⟨hown, -, hapart⟩ := List.nodup_append.mp h.replica.names.nodup
  have hmem {tag : String} {source : ResultSource} (hl : x.draft.shorthands.lookup tag = some source) :
      source.name ∈ x.draft.registry.shorthands.map fun (_, source) => source.name :=
    List.mem_map_of_mem (f := fun e : String × ResultSource => e.2.name)
      (Registry.mem_of_lookup (r := x.draft.registry) hl)
  have hmem' {name : String} {source : ResultSource} (hl : x.streams.lookup name = some source) :
      source.name ∈ x.streams.map fun (_, source) => source.name :=
    List.mem_map_of_mem (f := fun e : String × ResultSource => e.2.name) (mem_streams hl)
  cases ht : shorthand? name with
  | none =>
    obtain ⟨source, hl⟩ := hn.declared ht
    rw [newName_declared ht hl] at he
    cases ht' : shorthand? name' with
    | none =>
      obtain ⟨source', hl'⟩ := hn'.declared ht'
      rw [newName_declared ht' hl'] at he
      exact congrArg Prod.fst (List.inj_on_of_nodup_map hown (mem_streams hl) (mem_streams hl') he)
    | some tag' =>
      obtain ⟨source', hl'⟩ := hn'.tagged tag' ht'
      rw [newName_tagged ht' hl'] at he
      exact absurd he (hapart _ (hmem' hl) _ (hmem hl'))
  | some tag =>
    obtain ⟨source, hl⟩ := hn.tagged tag ht
    rw [newName_tagged ht hl] at he
    cases ht' : shorthand? name' with
    | none =>
      obtain ⟨source', hl'⟩ := hn'.declared ht'
      rw [newName_declared ht' hl'] at he
      exact absurd he.symm (hapart _ (hmem' hl') _ (hmem hl))
    | some tag' =>
      obtain ⟨source', hl'⟩ := hn'.tagged tag' ht'
      rw [newName_tagged ht' hl'] at he
      obtain rfl := h.replica.names.source_injective (Registry.mem_of_lookup (r := x.draft.registry) hl)
        (Registry.mem_of_lookup (r := x.draft.registry) hl') he
      exact hinjective name name' tag ht ht'

end Stage

end

end Qua
