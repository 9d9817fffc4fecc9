import Qua.Proofs.Canonical
import Qua.Proofs.RoundTrip.Listings

/-!
# Regular drafts

What has to be known of a draft for its listing to build an equivalent program: its declarations can be
written, its statements are over them, its streams are of its own or stand for a tag, and its body uses each tag
for the first time in its role. Main statements: `Draft.Regular.verify_text` and
`Draft.Regular.replays_results`.
-/

namespace Qua

open Replay
open Statement (walkBlock actionsOf placedBlock)

-- ---------------------------------------------------------------------------
-- Saves of tags
-- ---------------------------------------------------------------------------

theorem Build.streamSaves_mapSources (addTimestamps : Bool) (tag : String) (f : String → String)
    (source : ResultSource) : (streamSaves addTimestamps tag source).map (SaveEntry.mapSources f) =
      streamSaves addTimestamps tag (source.renamed f) := by
  have htoken (mode : TimestampMode) : StreamToken.mapSources f { source with mode := mode }.token =
      { source.renamed f with mode := mode }.token :=
    (ResultSource.token_renamed f { source with mode := mode }).symm
  cases addTimestamps with
  | false => exact congrArg (fun token => [(⟨.saveAll, tag, true, token⟩ : SaveEntry)]) (htoken source.mode)
  | true =>
    exact congrArg₂ (fun token token' => [(⟨.saveAll, tag, true, token⟩ : SaveEntry),
      ⟨.saveAll, tag ++ timestampsSuffix, true, token'⟩]) (htoken source.mode) (htoken .timestamps)

/-- The saves of a tag for a renamed stream are those for the stream, renamed. -/
theorem TagRole.saves_renamed (role : TagRole) (tag : String) (f : String → String)
    (source : ResultSource) : (role.saves tag source).map (SaveEntry.mapSources f) =
      role.saves tag (source.renamed f) := by
  cases role with
  | timestamps => exact Build.streamSaves_mapSources false tag f source
  | values => exact Build.streamSaves_mapSources true tag f source
  | trace =>
    simp only [saves, Build.traceSaves, List.map_flatMap, Build.streamSaves_mapSources]
    rfl

-- ---------------------------------------------------------------------------
-- Regular drafts
-- ---------------------------------------------------------------------------

theorem Registry.Sound.shorthand_own {own : List String} {d : Draft} (h : d.registry.Sound own) (hm : name ∈ own) :
    d.program.shorthand? name = none := by
  rw [Option.eq_none_iff_forall_ne_some]
  intro tag ht
  obtain ⟨source, hl, rfl⟩ := (h.shorthand? name tag).mp ht
  exact (h.shorthand tag source (Registry.mem_of_lookup (r := d.registry) hl)).1 hm

theorem Registry.Sound.shorthand_tagged {own : List String} {d : Draft} (h : d.registry.Sound own)
    (hs : (tag, source) ∈ d.shorthands) : d.program.shorthand? source.name = some tag :=
  (h.shorthand? _ tag).mpr ⟨source, h.lookup tag source hs, rfl⟩

/-- The stream of a use is one of the script, or the one of a tag whose use is permitted. Values are not saved
to a trace. -/
inductive Draft.Provides (permitted : Set (TagRole × String)) (own : List String) (d : Draft) :
    TagRole × String → Prop
  | own (hm : name ∈ own) (hv : used = .values → ResultSource.isTraceName name = false) :
    Provides permitted own d (used, name)
  | tagged (hs : (tag, source) ∈ d.shorthands) (hp : (used, tag) ∈ permitted)
    (hv : used = .values → source.isAdcTrace = false) : Provides permitted own d (used, source.name)

theorem Draft.Provides.mono {permitted permitted' : Set (TagRole × String)} {own : List String} {d : Draft}
    (h : d.Provides permitted own use) (hp : permitted ⊆ permitted') : d.Provides permitted' own use := by
  cases h with
  | own hm hv => exact .own hm hv
  | tagged hs hm hv => exact .tagged hs (hp hm) hv

/-- The actions of a draft. -/
def Draft.actions (d : Draft) : List Action := actionsOf (walkBlock d.program.body)

theorem Draft.mem_actions {d : Draft} : a ∈ d.actions ↔ ∃ l, .action a l ∈ walkBlock d.program.body := by
  refine List.mem_filterMap.trans ⟨?_, fun ⟨l, hs⟩ => ⟨_, hs, rfl⟩⟩
  rintro ⟨s, hs, he⟩
  cases s with
  | action b l =>
    obtain rfl := Option.some.inj he
    exact ⟨l, hs⟩
  | _ => cases he

/-- The streams of the body are those of its actions. -/
theorem Draft.mem_blockStreamNames {d : Draft} : name ∈ Statement.blockStreamNames d.program.body ↔
    ∃ a ∈ d.actions, name ∈ a.streamNames := by
  refine List.mem_flatMap.trans ⟨?_, ?_⟩
  · rintro ⟨s, hs, hn⟩
    cases s with
    | action a l => exact ⟨a, Draft.mem_actions.mpr ⟨l, hs⟩, hn⟩
    | _ => cases hn
  · rintro ⟨a, ha, hn⟩
    obtain ⟨l, hs⟩ := Draft.mem_actions.mp ha
    exact ⟨_, hs, hn⟩

/-- The flags of the program are those of its actions. -/
theorem Draft.Flagged.metadata_eq {d : Draft} (h : d.Flagged False) :
    d.program.metadata = d.actions.foldl (fun m a => a.marks m) {} := by
  have hfold (as : List Action) (m : Metadata) : as.foldl (fun m a => a.marks m) m =
      ⟨m.usesCommandTimestamps || as.any Action.writesTimestamps,
        m.usesFastFrameRotation || as.any Action.rotatesFast⟩ := by
    induction as generalizing m with
    | nil => simp
    | cons a as ih =>
      rw [List.foldl_cons, ih]
      simp [Action.marks, Bool.or_left_comm, Bool.or_comm]
  have hrotates : d.program.metadata.usesFastFrameRotation = d.actions.any Action.rotatesFast := by
    have hiff : d.program.metadata.usesFastFrameRotation = true ↔ d.finds Action.rotatesFast = true :=
      ⟨fun hr => (h.rotated hr).resolve_right id, h.rotates⟩
    exact Bool.eq_iff_iff.mpr hiff
  have htimestamps : d.program.metadata.usesCommandTimestamps = d.actions.any Action.writesTimestamps :=
    h.timestamps
  rw [hfold, Bool.false_or, Bool.false_or, ← hrotates, ← htimestamps]

/-- The uses of tags in the body, in the order in which its listing has them. -/
def Program.tagUses (p : Program) : List (TagRole × String) :=
  (actionsOf (walkBlock p.body)).flatMap (Action.taggedUses p.shorthand?)

/-- What is known of a draft whose calls have been given operands of their own session only, where the body uses
each tag for the first time in its role. -/
structure Draft.Regular (role : String → TagRole) (own : List String) (d : Draft) : Prop where
  numbered : Numbered d.program.declarations
  declared : ∀ x ∈ d.program.declarations, x.Writable ∧ x.Shaped
  statements : ∀ s ∈ walkBlock d.program.body, s.Over (handlesOf d.program.declarations)
  provided : ∀ a ∈ d.actions, ∀ use ∈ a.streamUses, d.Provides Set.univ own use
  heeded : ∀ tag used, firstRole? d.program.tagUses tag = some used → used = role tag
  written : ∀ tag source, (tag, source) ∈ d.shorthands → ∃ a ∈ d.actions, source.name ∈ a.streamNames
  manual : ∀ entry ∈ d.program.results.manual, entry.Over own
  sound : d.registry.Sound own
  names : d.registry.Names (d.registry.streamNames own)
  made : d.registry.Made role
  distinct : (d.registry.saves.map SaveEntry.tag).Nodup

/-- The tags that a draft has used. -/
def Draft.tags (d : Draft) : List String := d.shorthands.map Prod.fst

/-- A replay of the actions, one after the other, reaches the stage. -/
structure Draft.Arranged (role : String → TagRole) (d : Draft) (y : Stage) : Prop where
  arranges : ArrangesAll d.program.shorthand? d.actions (.declared d.program.declarations) y
  inOrder : y.InOrder role d.tags
  marked : ∃ r, y.draft = ((Stage.declared d.program.declarations).draft.withRegistry r).marked d.actions
  has : ∀ a ∈ d.actions, ∀ name ∈ a.streamNames, y.Has d.program.shorthand? name

/-- Before the saves, a replay leaves the flags of the actions, besides streams and saves of tags. -/
theorem Draft.Arranged.draft_beforeSaves {role : String → TagRole} {d : Draft} {y : Stage} (h : d.Arranged role y) :
    ∃ r, (y.beforeSaves d.program.shorthand? d.program.results.manual).draft =
      ((Stage.declared d.program.declarations).draft.withRegistry r).marked d.actions := by
  obtain ⟨r, hdraft⟩ := h.marked
  obtain ⟨r', hr', -⟩ := y.draft_declareAll
    (undeclaredSources d.program.shorthand? y.names d.program.results.manual)
  refine ⟨r', ?_⟩
  rw [Stage.beforeSaves, hr', hdraft]
  rfl

theorem Draft.Arranged.declarations {role : String → TagRole} {d : Draft} {y : Stage} (h : d.Arranged role y)
    (numbers : List Nat) : (d.program.rebuilt y numbers).declarations = d.program.declarations := by
  obtain ⟨r, hr⟩ := h.draft_beforeSaves
  change (y.beforeSaves d.program.shorthand? d.program.results.manual).draft.program.declarations = _
  rw [hr]
  rfl

theorem Draft.Arranged.metadata {role : String → TagRole} {d : Draft} {y : Stage} (h : d.Arranged role y)
    (numbers : List Nat) : (d.program.rebuilt y numbers).metadata = d.actions.foldl (fun m a => a.marks m) {} := by
  obtain ⟨r, hr⟩ := h.draft_beforeSaves
  change (y.beforeSaves d.program.shorthand? d.program.results.manual).draft.program.metadata = _
  rw [hr]
  rfl

namespace Draft.Regular

variable {role : String → TagRole} {own : List String} {d : Draft} (h : d.Regular role own)
include h

-- ---------------------------------------------------------------------------
-- Streams
-- ---------------------------------------------------------------------------

/-- A stream that is taken for a tag stands for it. -/
theorem of_shorthand (ht : d.program.shorthand? name = some tag) :
    ∃ source, (tag, source) ∈ d.shorthands ∧ d.shorthands.lookup tag = some source ∧ source.name = name := by
  obtain ⟨source, hl, rfl⟩ := (h.sound.shorthand? name tag).mp ht
  exact ⟨source, Registry.mem_of_lookup (r := d.registry) hl, hl, rfl⟩

theorem shorthand_injective (ht : d.program.shorthand? name = some tag)
    (ht' : d.program.shorthand? name' = some tag) : name = name' := by
  obtain ⟨source, -, hl, rfl⟩ := h.of_shorthand ht
  obtain ⟨source', -, hl', rfl⟩ := h.of_shorthand ht'
  rw [hl] at hl'
  rw [Option.some.inj hl']

theorem fits_stream (isAdcTrace : Bool) (n : Nat) :
    StreamFits (handlesOf d.program.declarations) (streamName isAdcTrace n) := by
  refine ⟨isIdentifier_numbered (streamStem_mem isAdcTrace) n,
    isAllocated_numbered (streamStem_mem isAdcTrace) n, fun e he => ?_⟩
  obtain ⟨x, hx, rfl⟩ := List.mem_map.mp he
  exact h.numbered.name_ne_stream hx isAdcTrace n

theorem fits_own (hm : name ∈ own) : StreamFits (handlesOf d.program.declarations) name := by
  obtain ⟨isAdcTrace, n, rfl, -⟩ := h.sound.named name hm
  exact h.fits_stream isAdcTrace n

/-- The stream of an action is one of the script, or the one of a tag. -/
theorem stream_cases (ha : a ∈ d.actions) (hn : name ∈ a.streamNames) :
    name ∈ own ∨ ∃ tag source, (tag, source) ∈ d.shorthands ∧ source.name = name := by
  rw [← a.streamUses_names] at hn
  obtain ⟨use, hu, rfl⟩ := List.mem_map.mp hn
  have hp := h.provided a ha use hu
  cases hp with
  | own hm => exact .inl hm
  | tagged hs => exact .inr ⟨_, _, hs, rfl⟩

theorem action_fits (ha : a ∈ d.actions) : a.Fits role d.tags d.program.shorthand? where
  formed := by
    obtain ⟨l, hs⟩ := Draft.mem_actions.mp ha
    exact (h.statements _ hs).formed
  tagged use hu := by
    obtain ⟨name, -, ht⟩ := Action.mem_taggedUses.mp hu
    obtain ⟨source, hs, -⟩ := h.of_shorthand ht
    exact List.mem_map_of_mem (f := Prod.fst) hs
  saved name hu hn := by
    have hp := h.provided a ha _ hu
    generalize hv : TagRole.values = used at hp
    cases hp with
    | own hm hv' => exact hv' hv.symm
    | tagged hs =>
      rw [h.sound.shorthand_tagged hs] at hn
      cases hn
  savedTag tag hu := by
    obtain ⟨name, hm, ht⟩ := Action.mem_taggedUses.mp hu
    have hp := h.provided a ha _ hm
    generalize hv : TagRole.values = used at hp
    cases hp with
    | own hm' =>
      rw [h.sound.shorthand_own hm'] at ht
      cases ht
    | tagged hs _ hv' =>
      rw [h.sound.shorthand_tagged hs] at ht
      obtain rfl := Option.some.inj ht
      obtain ⟨n, rfl⟩ := h.made.source _ _ hs
      exact hv' hv.symm

theorem tags_apart : ∀ tag ∈ d.tags, ∀ other ∈ d.tags, tag ≠ other →
    ((role tag).tags tag).Disjoint ((role other).tags other) := by
  intro tag ht other ho hne
  obtain ⟨⟨_, source⟩, hs, rfl⟩ := List.mem_map.mp ht
  obtain ⟨⟨_, source'⟩, hs', rfl⟩ := List.mem_map.mp ho
  exact h.made.apart h.names h.distinct hs hs' hne

theorem statement_heads : ∀ s ∈ walkBlock d.program.body,
    s.HeadOver (handlesOf d.program.declarations) d.program.shorthand? := by
  intro s hs
  refine ⟨h.statements s hs, fun name hn hnone => ?_⟩
  cases s with
  | action a l =>
    obtain hm | ⟨tag, source, hsource, rfl⟩ := h.stream_cases (Draft.mem_actions.mpr ⟨l, hs⟩) hn
    · exact h.fits_own hm
    · rw [h.sound.shorthand_tagged hsource] at hnone
      cases hnone
  | _ => cases hn

-- ---------------------------------------------------------------------------
-- The replayed listing
-- ---------------------------------------------------------------------------

variable {y : Stage} {σ : String → String}

theorem arranged : ∃ y, d.Arranged role y := by
  have hx : (Stage.declared d.program.declarations).InOrder role d.tags :=
    ⟨Registry.replica_initial, fun _ _ hs => by cases hs⟩
  obtain ⟨y, r, harranges, hy, hdraft, hhas⟩ :=
    arrangesAll_of_fits (fun _ ha => h.action_fits ha) hx h.tags_apart fun tag used _ hf => h.heeded tag used hf
  exact ⟨y, harranges, hy, ⟨r, hdraft⟩, hhas⟩

/-- The saves that a replay makes for tags do not have the tags of the others. -/
theorem manual_distinct (hy : y.InOrder role d.tags) :
    (y.draft.registry.saves.map SaveEntry.tag ++ d.program.results.manual.map SaveEntry.tag).Nodup := by
  have hmanual : (d.program.results.manual.map SaveEntry.tag).Nodup :=
    h.distinct.sublist (List.filter_sublist.map _)
  refine List.nodup_append.mpr ⟨hy.replica.distinct, hmanual, ?_⟩
  rintro _ ht _ ht' rfl
  obtain ⟨entry, he, rfl⟩ := List.mem_map.mp ht
  obtain ⟨other, ho, heq⟩ := List.mem_map.mp ht'
  obtain ⟨hmem, hauto⟩ := List.mem_filter.mp ho
  obtain ⟨tag, source', hs', hsaves⟩ :=
    (hy.replica.made.automatic entry).mp ⟨he, hy.replica.automatic entry he⟩
  obtain ⟨⟨_, source⟩, hs, rfl⟩ := List.mem_map.mp (hy.replica.tags tag source' hs')
  -- the draft has a save with this tag that was made for the same use
  have htag : entry.tag ∈ (role _).tags _ := TagRole.tags_saves (role _) _ source' ▸ List.mem_map_of_mem hsaves
  rw [← TagRole.tags_saves (role _) _ source] at htag
  obtain ⟨own, hown, htag⟩ := List.mem_map.mp htag
  obtain ⟨hm, ha⟩ := (h.made.automatic own).mpr ⟨_, source, hs, hown⟩
  obtain rfl := List.inj_on_of_nodup_map h.distinct hm hmem (htag.trans heq.symm)
  rw [ha] at hauto
  cases hauto

/-- The stream of a tag gets the name of the one that the replay makes for it. -/
theorem source_renamed (hy : y.InOrder role d.tags) (hσ : y.Names d.program.shorthand? σ)
    (hs : (tag, source) ∈ d.shorthands) (hl : y.draft.shorthands.lookup tag = some source') :
    source' = source.renamed σ := by
  have hname := hσ.tagged _ tag source' (h.sound.shorthand_tagged hs) hl
  obtain ⟨n, rfl⟩ := h.made.source tag source hs
  obtain ⟨n', rfl⟩ := hy.replica.made.source tag source' (Registry.mem_of_lookup (r := y.draft.registry) hl)
  rw [ResultSource.renamed, hname]
  rfl

/-- The saves for tags are made again. -/
theorem automatic_perm (hy : y.InOrder role d.tags) (hσ : y.Names d.program.shorthand? σ)
    (hhas : ∀ tag source, (tag, source) ∈ d.shorthands →
      ∃ source', y.draft.shorthands.lookup tag = some source') :
    ((d.registry.saves.filter SaveEntry.auto).map (SaveEntry.mapSources σ)).Perm y.draft.registry.saves := by
  have htags : (((d.registry.saves.filter SaveEntry.auto).map (SaveEntry.mapSources σ)).map
      SaveEntry.tag).Nodup := by
    rw [List.map_map]
    exact h.distinct.sublist (List.filter_sublist.map _)
  refine (List.perm_ext_iff_of_nodup (List.Nodup.of_map _ htags)
    (List.Nodup.of_map _ hy.replica.distinct)).mpr fun entry => ⟨fun he => ?_, fun he => ?_⟩
  · obtain ⟨old, ho, rfl⟩ := List.mem_map.mp he
    obtain ⟨tag, source, hs, hsaves⟩ := (h.made.automatic old).mp (List.mem_filter.mp ho)
    obtain ⟨source', hl⟩ := hhas tag source hs
    refine ((hy.replica.made.automatic _).mpr
      ⟨tag, source', Registry.mem_of_lookup (r := y.draft.registry) hl, ?_⟩).1
    rw [h.source_renamed hy hσ hs hl, ← TagRole.saves_renamed]
    exact List.mem_map_of_mem hsaves
  · obtain ⟨tag, source', hs', hsaves⟩ :=
      (hy.replica.made.automatic entry).mp ⟨he, hy.replica.automatic entry he⟩
    obtain ⟨⟨_, source⟩, hs, rfl⟩ := List.mem_map.mp (hy.replica.tags tag source' hs')
    rw [h.source_renamed hy hσ hs (hy.replica.lookup _ _ hs'), ← TagRole.saves_renamed] at hsaves
    obtain ⟨old, ho, rfl⟩ := List.mem_map.mp hsaves
    exact List.mem_map_of_mem (List.mem_filter.mpr ((h.made.automatic old).mpr ⟨_, source, hs, ho⟩))

theorem saves_perm (hy : y.InOrder role d.tags) (hσ : y.Names d.program.shorthand? σ)
    (hhas : ∀ tag source, (tag, source) ∈ d.shorthands →
      ∃ source', y.draft.shorthands.lookup tag = some source') :
    (d.program.results.entries.map (SaveEntry.mapSources σ)).Perm
      (y.draft.registry.saves ++ d.program.results.manual.map (SaveEntry.mapSources σ)) := by
  have hsplit := (List.filter_append_perm SaveEntry.auto d.program.results.entries).symm
  refine (hsplit.map _).trans ?_
  rw [List.map_append]
  exact (h.automatic_perm hy hσ hhas).append_right _

/-- After the body and before the saves, every stream of the program has got a new name. -/
theorem has_stream
    (hhas : ∀ a ∈ d.actions, ∀ name ∈ a.streamNames, y.Has d.program.shorthand? name)
    (hn : name ∈ d.program.streamSet) :
    (y.beforeSaves d.program.shorthand? d.program.results.manual).Has d.program.shorthand? name := by
  have hextends : y.Extends (y.beforeSaves d.program.shorthand? d.program.results.manual) :=
    y.extends_declareAll (nodup_undeclared _ _) fun _ h => (mem_undeclared.mp h).2.2
  obtain hn | ⟨entry, he, hn⟩ := Program.mem_streamSet.mp hn
  · obtain ⟨a, ha, hn⟩ := Draft.mem_blockStreamNames.mp hn
    exact (hhas a ha name hn).extends hextends
  · cases ha : entry.auto with
    | false =>
      have hmanual : entry ∈ d.program.results.manual := List.mem_filter.mpr ⟨he, by simp [ha]⟩
      have hnone := h.sound.shorthand_own (h.sound.explicit entry he ha name hn)
      refine ⟨fun _ => Stage.mem_names_iff.mp (Stage.mem_beforeSaves hmanual hn hnone), fun tag ht => ?_⟩
      rw [hnone] at ht
      cases ht
    | true =>
      obtain ⟨tag, source, hs, hnames⟩ := h.sound.automatic entry he ha
      obtain rfl : name = source.name := by simpa [hnames] using hn
      obtain ⟨a, ha, hm⟩ := h.written tag source hs
      exact (hhas a ha _ hm).extends hextends

/-- Every stream of the program is one of the script, or the one of a tag. -/
theorem streamSet_cases (hn : name ∈ d.program.streamSet) :
    name ∈ own ∨ ∃ tag source, (tag, source) ∈ d.shorthands ∧ source.name = name := by
  obtain hn | ⟨entry, he, hn⟩ := Program.mem_streamSet.mp hn
  · obtain ⟨a, ha, hn⟩ := Draft.mem_blockStreamNames.mp hn
    exact h.stream_cases ha hn
  · cases ha : entry.auto with
    | false => exact .inl (h.sound.explicit entry he ha name hn)
    | true =>
      obtain ⟨tag, source, hs, hnames⟩ := h.sound.automatic entry he ha
      exact .inr ⟨tag, source, hs, by simpa [hnames, eq_comm] using hn⟩

/-- A stream is of the same kind under its new name, with another number. -/
theorem newName_numbered {z : Stage} (hz : z.InOrder role d.tags) (hhas : z.Has d.program.shorthand? name)
    (hn : name ∈ d.program.streamSet) : ∃ isAdcTrace n n', name = streamName isAdcTrace n ∧
      z.newName d.program.shorthand? name = streamName isAdcTrace n' := by
  obtain hm | ⟨tag, source, hs, rfl⟩ := h.streamSet_cases hn
  · have hnone := h.sound.shorthand_own hm
    obtain ⟨found, hl⟩ := hhas.declared hnone
    obtain ⟨n', rfl⟩ := hz.streams name found (Stage.mem_streams hl)
    obtain ⟨isAdcTrace, n, rfl, -⟩ := h.sound.named name hm
    rw [Stage.newName_declared hnone hl, isTraceName_streamName]
    exact ⟨isAdcTrace, n, n', rfl, rfl⟩
  · have htag := h.sound.shorthand_tagged hs
    obtain ⟨found, hl⟩ := hhas.tagged tag htag
    obtain ⟨n', rfl⟩ := hz.replica.made.source tag found (Registry.mem_of_lookup (r := z.draft.registry) hl)
    obtain ⟨n, rfl⟩ := h.made.source tag source hs
    rw [Stage.newName_tagged htag hl]
    exact ⟨_, n, n', rfl, rfl⟩

/-- The listing of a regular draft builds its program again. -/
theorem replays (hy : d.Arranged role y) {text : String} (hl : d.program.Listed text numbers) :
    Program.ofScript text = .ok (d.program.rebuilt y numbers) :=
  hl.replays h.numbered (fun x hx => (h.declared x hx).1) (fun x hx => (h.declared x hx).2) h.statement_heads
    hy.arranges hy.inOrder (fun _ hn => ⟨h.sound.shorthand_own hn, h.fits_own hn⟩) h.manual
    (h.manual_distinct hy.inOrder)

/-- Besides its streams and its flags, the program that is built again is the same. -/
theorem renames (hy : d.Arranged role y) (numbers : List Nat) :
    Program.Renames (d.program.newName y) { d.program with metadata := (d.program.rebuilt y numbers).metadata }
      (d.program.rebuilt y numbers) := by
  let z := y.beforeSaves d.program.shorthand? d.program.results.manual
  have hz : z.InOrder role d.tags := hy.inOrder.declareAll _
  have hσ : z.Names d.program.shorthand? (d.program.newName y) := Stage.names_newName
  have hhas : ∀ name ∈ d.program.streamSet, z.Has d.program.shorthand? name :=
    fun name hn => h.has_stream hy.has hn
  refine .of ?_ ?_ ?_ ?_ ?_ rfl
  · intro name hn name' hn' he
    exact hz.newName_injective (fun _ _ _ => h.shorthand_injective) (hhas name hn) (hhas name' hn') he
  · intro name hn
    obtain ⟨isAdcTrace, n, n', rfl, hnew⟩ := h.newName_numbered hz (hhas name hn) hn
    rw [show d.program.newName y _ = _ from hnew, withoutTrailingDigits_streamName isAdcTrace n' n]
  · rw [list_beq_iff Declaration.beq_iff, hy.declarations numbers]
  · exact (Statement.placedBlock_shape d.program.body ⟨[], numbers⟩).symm
  · refine h.saves_perm hz hσ fun tag source hs => ?_
    have hmem := Program.mem_streamSet.mpr (.inl (Draft.mem_blockStreamNames.mpr (h.written tag source hs)))
    exact (hhas source.name hmem).tagged tag (h.sound.shorthand_tagged hs)

/-- The listing of a regular draft is right for its program, if the flags of that agree with its body. -/
theorem verify_text (hf : d.Flagged False) {text : String} (ht : d.program.text = .ok text) :
    d.program.verify text = .equal := by
  obtain ⟨y, hy⟩ := h.arranged
  obtain ⟨numbers, hlisted⟩ := Program.listed_of_text ht
  have hrenames := h.renames hy numbers
  rw [hy.metadata numbers, ← hf.metadata_eq] at hrenames
  exact Program.verify_of_canonical_beq (h.replays hy hlisted) (Program.canonical_beq_of_renames hrenames h.distinct)

/-- The listing of a regular draft builds a program with the same saves, whatever its flags are. -/
theorem replays_results {text : String} (ht : d.program.text = .ok text) :
    ∃ q, Program.ofScript text = .ok q ∧ q.canonical.results = d.program.canonical.results := by
  obtain ⟨y, hy⟩ := h.arranged
  obtain ⟨numbers, hlisted⟩ := Program.listed_of_text ht
  have hsame := Program.canonical_beq_of_renames (h.renames hy numbers) h.distinct
  refine ⟨_, h.replays hy hlisted, ?_⟩
  exact (congrArg Program.results ((Program.beq_iff _ _).mp hsame) :).symm

end Draft.Regular
end Qua
