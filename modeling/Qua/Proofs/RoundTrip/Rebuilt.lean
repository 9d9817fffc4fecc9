import Qua.Proofs.RoundTrip.Copies
import Qua.Proofs.RoundTrip.Regular

/-!
# Listings of rebuilt programs

The program that a listing builds has the same listing but for the names of streams, and that listing builds
exactly the same program, at the same lines. Main statements: `Draft.Regular.listing_rebuilt` and
`Draft.Regular.rebuilds`.
-/

namespace Qua

open Replay
open Statement (walkBlock actionsOf placedBlock)
open Script (numbersFrom)

-- ---------------------------------------------------------------------------
-- Texts from listings
-- ---------------------------------------------------------------------------

theorem Listing.mapM_ok {render : α → Except RenderError String} {as : List α}
    (h : as.mapM render = .ok texts) (depth : Nat) (names : List String) :
    (as.mapM fun a => (do
      let text ← render a
      return (⟨depth, text⟩ : Line) : Listing Line)) names =
      .ok (texts.map fun text => ⟨depth, text⟩, names) := by
  induction as generalizing texts with
  | nil =>
    obtain rfl := Except.ok.inj h
    rfl
  | cons a as ih =>
    rw [List.mapM_cons] at h
    obtain ⟨text, hfirst, h⟩ := except_bind_eq_ok.mp h
    obtain ⟨rest, hrest, h⟩ := except_bind_eq_ok.mp h
    obtain rfl := Except.ok.inj h
    rw [List.mapM_cons, bind_run, bind_run, hfirst]
    change ((as.mapM _ >>= _ : Listing (List Line)) names) = _
    rw [bind_run, ih hrest]
    rfl

/-- A listing is the text of its program. -/
theorem Program.Listed.text {p : Program} {text : String} (h : p.Listed text numbers) : p.text = .ok text := by
  obtain @⟨declared, body, results, names, names', hd, hb, hr⟩ := h
  have hprogram : Listing.program p [] =
      .ok (Listing.orPass 1 (declared.map (fun text => ⟨1, text⟩) ++ body ++ results), names') :=
    bind_eq_ok.mpr ⟨_, _, Listing.mapM_ok hd 1 [], bind_eq_ok.mpr ⟨_, _, hb, bind_eq_ok.mpr ⟨_, _, hr, rfl⟩⟩⟩
  exact except_map_eq_ok.mpr ⟨_, except_bind_eq_ok.mpr ⟨_, except_map_eq_ok.mpr ⟨_, hprogram, rfl⟩, rfl⟩, rfl⟩

-- ---------------------------------------------------------------------------
-- Stages of the copy
-- ---------------------------------------------------------------------------

section

variable {role : String → TagRole} {tags : List String} {shorthand? shorthand?' : String → Option String}
  {σ : String → String} {names : Set String} {x : Stage}

theorem Stage.InOrder.renamed (hx : x.InOrder role tags) (h : Relabels shorthand? shorthand?' σ names)
    (hn : ∀ n ∈ x.names, n ∈ names) : (x.renamed σ).InOrder role tags where
  replica := by
    have hsame : ((x.renamed σ).streams.map fun e => e.2.name) = x.streams.map fun e => e.2.name := by
      simp [Stage.renamed]
    exact (congrArg (x.draft.registry.Replica role tags) hsame).mpr hx.replica
  streams name source hs := by
    obtain ⟨entry, hm, he⟩ := List.mem_map.mp hs
    obtain ⟨rfl, rfl⟩ := Prod.mk.inj he
    rw [h.trace entry.1 (hn entry.1 (List.mem_map_of_mem hm))]
    exact hx.streams entry.1 entry.2 hm

theorem Relabels.newName (h : Relabels shorthand? shorthand?' σ names) (hx : ∀ n ∈ x.names, n ∈ names)
    (hn : n ∈ names) (hhas : x.Has shorthand? n) :
    (x.renamed σ).newName shorthand?' (σ n) = x.newName shorthand? n := by
  have hsame := h.shorthand n hn
  cases ht : shorthand? n with
  | none =>
    obtain ⟨source, hl⟩ := hhas.declared ht
    exact (Stage.newName_declared (hsame.trans ht) ((h.lookup hx hn).trans hl)).trans
      (Stage.newName_declared ht hl).symm
  | some tag =>
    obtain ⟨source, hl⟩ := hhas.tagged tag ht
    have hl' : (x.renamed σ).draft.shorthands.lookup tag = some source := hl
    exact (Stage.newName_tagged (hsame.trans ht) hl').trans (Stage.newName_tagged ht hl).symm

/-- The streams that are left for the saves of the copy are declared. -/
theorem ResultsCopy.beforeSaves {own : List String} {results results' : ResultAnalysis}
    (hc : ResultsCopy σ names own results results') (h : Relabels shorthand? shorthand?' σ names)
    (hx : ∀ n ∈ x.names, n ∈ names) : (x.renamed σ).beforeSaves shorthand?' results'.manual =
      (x.beforeSaves shorthand? results.manual).renamed σ := by
  have hsources : ∀ n ∈ results.manual.flatMap fun entry => entry.pipeline.sourceNames, n ∈ names := by
    intro n hm
    obtain ⟨entry, he, hm⟩ := List.mem_flatMap.mp hm
    exact hc.sources entry he n hm
  rw [Stage.beforeSaves, Stage.beforeSaves, undeclaredSources, undeclaredSources, hc.sourceNames,
    Stage.names_renamed, h.undeclared hx hsources, h.declareAll fun n hm => hsources n (mem_undeclared.mp hm).1]

/-- Saves of streams of the script leave all as sound as it was. -/
theorem Stage.sound_saved {own : List String} {entries : List SaveEntry} (hx : x.draft.registry.Sound own)
    (he : ∀ entry ∈ entries, entry.auto = false ∧ ∀ name ∈ entry.pipeline.sourceNames, name ∈ own) :
    (x.saved entries).draft.registry.Sound own := by
  induction entries generalizing x with
  | nil =>
    rw [Stage.saved_nil]
    exact hx
  | cons entry entries ih =>
    obtain ⟨⟨hauto, hnames⟩, hrest⟩ := List.forall_mem_cons.mp he
    have hfirst : (x.saved [entry]).draft.registry.Sound own := hx.saved hauto hnames
    have hall := ih hfirst hrest
    rwa [Stage.saved_saved, List.singleton_append] at hall

end

namespace Draft.Regular

variable {role : String → TagRole} {own : List String} {d : Draft} {y : Stage} (h : d.Regular role own)
  (hy : d.Arranged role y)
include h hy

-- ---------------------------------------------------------------------------
-- The streams and saves of the rebuilt program
-- ---------------------------------------------------------------------------

omit h in
theorem inOrder_beforeSaves :
    (y.beforeSaves d.program.shorthand? d.program.results.manual).InOrder role d.tags := hy.inOrder.declareAll _

theorem has_beforeSaves (hn : name ∈ d.program.streamSet) :
    (y.beforeSaves d.program.shorthand? d.program.results.manual).Has d.program.shorthand? name :=
  h.has_stream hy.has hn

omit hy in
/-- A stream of a save by name has a new name that is one of those with a line of their own. -/
theorem newName_manual (he : entry ∈ d.program.results.manual) (hn : name ∈ entry.pipeline.sourceNames) :
    d.program.newName y name ∈
      (y.beforeSaves d.program.shorthand? d.program.results.manual).streams.map fun (_, source) => source.name := by
  have hnone := h.sound.shorthand_own ((h.manual entry he).mem_own name hn)
  obtain ⟨source, hl⟩ := Stage.mem_names_iff.mp (Stage.mem_beforeSaves (x := y) he hn hnone)
  rw [Program.newName, Stage.newName_declared hnone hl]
  exact List.mem_map_of_mem (f := fun e : String × ResultSource => e.2.name) (Stage.mem_streams hl)

omit h hy in
theorem mem_streamSet_manual (he : entry ∈ d.program.results.manual) (hn : name ∈ entry.pipeline.sourceNames) :
    name ∈ d.program.streamSet :=
  Program.mem_streamSet.mpr (.inr ⟨entry, (List.mem_filter.mp he).1, hn⟩)

omit h in
theorem manual_rebuilt (numbers : List Nat) : (d.program.rebuilt y numbers).results.manual =
    d.program.results.manual.map (SaveEntry.mapSources (d.program.newName y)) := by
  have hautomatic := (inOrder_beforeSaves hy).replica.automatic
  change List.filter _ (_ ++ d.program.results.manual.map (SaveEntry.mapSources (d.program.newName y))) = _
  rw [List.filter_append, List.filter_eq_nil_iff.mpr fun entry he => by simp [hautomatic entry he], List.nil_append,
    List.filter_eq_self.mpr]
  exact List.forall_mem_map.mpr fun entry he => (List.mem_filter.mp he).2

/-- What is known of the streams of a draft is known of the rebuilt program. -/
theorem sound_rebuilt : ((y.beforeSaves d.program.shorthand? d.program.results.manual).saved
    (d.program.results.manual.map (SaveEntry.mapSources (d.program.newName y)))).draft.registry.Sound
      ((y.beforeSaves d.program.shorthand? d.program.results.manual).streams.map fun (_, source) => source.name) := by
  refine Stage.sound_saved (inOrder_beforeSaves hy).replica.sound (List.forall_mem_map.mpr fun entry he => ?_)
  have hauto : entry.auto = false := by simpa using (List.mem_filter.mp he).2
  refine ⟨hauto, ?_⟩
  rw [SaveEntry.mapSources, StreamToken.sourceNames_mapSources, List.forall_mem_map]
  exact fun name hn => h.newName_manual he hn

theorem shorthand_rebuilt (numbers : List Nat) (hn : name ∈ d.program.streamSet) :
    (d.program.rebuilt y numbers).shorthand? (d.program.newName y name) = d.program.shorthand? name := by
  have hsound := h.sound_rebuilt hy
  have hhas := h.has_beforeSaves hy hn
  cases ht : d.program.shorthand? name with
  | some tag =>
    obtain ⟨source, hl⟩ := hhas.tagged tag ht
    rw [Program.newName, Stage.newName_tagged ht hl]
    exact (hsound.shorthand? source.name tag).mpr ⟨source, hl, rfl⟩
  | none =>
    obtain ⟨source, hl⟩ := hhas.declared ht
    rw [Program.newName, Stage.newName_declared ht hl, Option.eq_none_iff_forall_ne_some]
    intro tag hs
    obtain ⟨tagged, hl', he⟩ := (hsound.shorthand? source.name tag).mp hs
    refine (hsound.shorthand tag tagged (Registry.mem_of_lookup hl')).1 (he ▸ ?_)
    exact List.mem_map_of_mem (f := fun e : String × ResultSource => e.2.name) (Stage.mem_streams hl)

theorem relabels (numbers : List Nat) : Relabels d.program.shorthand? (d.program.rebuilt y numbers).shorthand?
    (d.program.newName y) d.program.streamSet where
  injective name hn name' hn' he := (inOrder_beforeSaves hy).newName_injective
    (fun _ _ _ => h.shorthand_injective) (h.has_beforeSaves hy hn) (h.has_beforeSaves hy hn') he
  trace name hn := by
    obtain ⟨isAdcTrace, n, n', rfl, hnew⟩ :=
      h.newName_numbered (inOrder_beforeSaves hy) (h.has_beforeSaves hy hn) hn
    rw [Program.newName, hnew, isTraceName_streamName, isTraceName_streamName]
  shorthand name hn := h.shorthand_rebuilt hy numbers hn

-- ---------------------------------------------------------------------------
-- The rebuilt program is a copy
-- ---------------------------------------------------------------------------

theorem resultsCopy (numbers : List Nat) : ResultsCopy (d.program.newName y) d.program.streamSet own
    d.program.results (d.program.rebuilt y numbers).results :=
  ⟨manual_rebuilt hy numbers, h.manual, fun _ he _ hn => mem_streamSet_manual he hn⟩

omit h hy in
theorem copy_rebuilt (numbers : List Nat) :
    Statement.CopyBlock (d.program.newName y) d.program.streamSet d.program.body (d.program.rebuilt y numbers).body :=
  Statement.copyBlock_placed d.program.body (fun _ hs _ hn =>
    Program.mem_streamSet.mpr (.inl (List.mem_flatMap.mpr ⟨_, hs, hn⟩))) ⟨[], numbers⟩

theorem fits_newName (hn : name ∈ d.program.streamSet) :
    StreamFits (handlesOf d.program.declarations) (d.program.newName y name) := by
  obtain ⟨isAdcTrace, n, n', -, hnew⟩ :=
    h.newName_numbered (inOrder_beforeSaves hy) (h.has_beforeSaves hy hn) hn
  rw [Program.newName, hnew]
  exact h.fits_stream isAdcTrace n'

theorem heads_rebuilt (numbers : List Nat) : ∀ s ∈ walkBlock (d.program.rebuilt y numbers).body,
    s.HeadOver (handlesOf (d.program.rebuilt y numbers).declarations) (d.program.rebuilt y numbers).shorthand? := by
  rw [hy.declarations numbers]
  exact (copy_rebuilt numbers).heads (h.relabels hy numbers) (fun _ hn _ => h.fits_newName hy hn) h.statement_heads

/-- The copies of the actions are made again, and declare no other streams. -/
theorem arranges_rebuilt (numbers : List Nat) : (∀ name ∈ y.names, name ∈ d.program.streamSet) ∧
    ArrangesAll (d.program.rebuilt y numbers).shorthand? (actionsOf (walkBlock (d.program.rebuilt y numbers).body))
      (.declared (d.program.rebuilt y numbers).declarations) (y.renamed (d.program.newName y)) := by
  rw [hy.declarations numbers]
  exact hy.arranges.copy (h.relabels hy numbers) (copy_rebuilt numbers).actions
    (formed_of_headOver (h.heads_rebuilt hy numbers)) (List.forall_mem_nil _)

-- ---------------------------------------------------------------------------
-- Its listing
-- ---------------------------------------------------------------------------

/-- Names of streams stand in one line. -/
theorem newName_inLine (hn : name ∈ d.program.streamSet) :
    '\n' ∉ name.toList ∧ '\n' ∉ (d.program.newName y name).toList := by
  have hinLine (isAdcTrace : Bool) (n : Nat) : '\n' ∉ (streamName isAdcTrace n).toList := fun hm =>
    absurd (List.all_eq_true.mp (h.fits_stream isAdcTrace n).identifier.2.1 _ hm) (by decide)
  obtain ⟨isAdcTrace, n, n', rfl, hnew⟩ :=
    h.newName_numbered (inOrder_beforeSaves hy) (h.has_beforeSaves hy hn) hn
  rw [Program.newName, hnew]
  exact ⟨hinLine isAdcTrace n, hinLine isAdcTrace n'⟩

/-- The rebuilt program has the listing that it was built from, but for the names of its streams. -/
theorem listing_rebuilt {text : String} (hl : d.program.Listed text numbers) :
    ∃ text', (d.program.rebuilt y numbers).Listed text' numbers ∧
      Text.Renamed (d.program.newName y) d.program.streamSet text text' := by
  obtain @⟨declared, body, results, names, names', hd, hb, hr⟩ := hl
  have hd' := hd
  rw [← hy.declarations (numbersFrom ((declared.map fun text => (⟨1, text⟩ : Line)).foldl Script.numberAfter 4)
    (body ++ results))] at hd'
  obtain ⟨hnames, body', hb', hbody⟩ :=
    (copy_rebuilt _).listing (h.relabels hy _) 1 (List.forall_mem_nil _) hb
  obtain ⟨-, results', hr', hresults⟩ := (h.resultsCopy hy _).listing (h.relabels hy _) 1 hnames hr
  have hnumbers := numbersFrom_renamed (List.rel_append hbody hresults) fun _ hn => h.newName_inLine hy hn
  have hlisted := Program.Listed.of hd' hb' hr'
  rw [← hnumbers] at hlisted
  refine ⟨_, hlisted, renamed_renderAll (.cons (.refl _) (.cons (.refl _) (.cons (.refl _) (renamed_orPass 1 ?_))))⟩
  exact List.rel_append (List.rel_append (List.forall₂_same.mpr fun _ _ => .refl _) hbody) hresults

-- ---------------------------------------------------------------------------
-- What its listing builds
-- ---------------------------------------------------------------------------

theorem streams_beforeSaves (numbers : List Nat) :
    ∀ name ∈ (y.beforeSaves d.program.shorthand? d.program.results.manual).names, name ∈ d.program.streamSet := by
  intro name hn
  rw [Stage.beforeSaves, Stage.names_declareAll, List.mem_append, List.mem_reverse] at hn
  obtain hn | hn := hn
  · obtain ⟨entry, he, hn⟩ := List.mem_flatMap.mp (mem_undeclared.mp hn).1
    exact mem_streamSet_manual he hn
  · exact (h.arranges_rebuilt hy numbers).1 name hn

/-- The streams of the rebuilt program keep their names. -/
theorem newName_rebuilt (numbers : List Nat) (hn : name ∈ d.program.streamSet) :
    (d.program.rebuilt y numbers).newName (y.renamed (d.program.newName y)) (d.program.newName y name) =
      d.program.newName y name := by
  have hrelabels := h.relabels hy numbers
  rw [Program.newName, (h.resultsCopy hy numbers).beforeSaves hrelabels (h.arranges_rebuilt hy numbers).1]
  exact hrelabels.newName (h.streams_beforeSaves hy numbers) hn (h.has_beforeSaves hy hn)

/-- Built once more at the same lines, the rebuilt program is the same. -/
theorem rebuilt_rebuilt (numbers : List Nat) :
    (d.program.rebuilt y numbers).rebuilt (y.renamed (d.program.newName y)) numbers = d.program.rebuilt y numbers := by
  have hrelabels := h.relabels hy numbers
  have hsaves : (d.program.rebuilt y numbers).results.manual.map (SaveEntry.mapSources
      ((d.program.rebuilt y numbers).newName (y.renamed (d.program.newName y)))) =
        d.program.results.manual.map (SaveEntry.mapSources (d.program.newName y)) := by
    rw [manual_rebuilt hy numbers, List.map_map]
    refine List.map_congr_left fun entry he => ?_
    rw [Function.comp_apply, SaveEntry.mapSources, SaveEntry.mapSources, StreamToken.mapSources_mapSources]
    congr 1
    exact entry.pipeline.mapSources_congr fun name hn => h.newName_rebuilt hy numbers (mem_streamSet_manual he hn)
  have hbody := ((copy_rebuilt numbers).placing hrelabels (fun _ hn => h.newName_rebuilt hy numbers hn)
    (p := ⟨[], numbers⟩) (List.forall_mem_nil _)).2
  change placedBlock _ _ _ ⟨[], numbers⟩ = _ at hbody
  rw [Program.rebuilt, hsaves, hbody,
    (h.resultsCopy hy numbers).beforeSaves hrelabels (h.arranges_rebuilt hy numbers).1]
  rfl

/-- The streams with a line of their own are taken for no tags, and can be declared. -/
theorem own_rebuilt (numbers : List Nat) : ∀ name ∈ (y.beforeSaves d.program.shorthand?
      d.program.results.manual).streams.map fun (_, source) => source.name,
    (d.program.rebuilt y numbers).shorthand? name = none ∧
      StreamFits (handlesOf (d.program.rebuilt y numbers).declarations) name := by
  have hsound := h.sound_rebuilt hy
  rw [hy.declarations numbers]
  intro name hn
  constructor
  · rw [Option.eq_none_iff_forall_ne_some]
    intro tag hs
    obtain ⟨source, hl, rfl⟩ := (hsound.shorthand? name tag).mp hs
    exact (hsound.shorthand tag source (Registry.mem_of_lookup hl)).1 hn
  · obtain ⟨⟨old, source⟩, hm, rfl⟩ := List.mem_map.mp hn
    obtain ⟨n, rfl⟩ := (inOrder_beforeSaves hy).streams old source hm
    exact h.fits_stream _ n

/-- The listing of the rebuilt program builds exactly that program. -/
theorem rebuilds {text : String} (hl : (d.program.rebuilt y numbers).Listed text numbers) :
    Program.ofScript text = .ok (d.program.rebuilt y numbers) := by
  have hrelabels := h.relabels hy numbers
  obtain ⟨hstreams, harranges⟩ := h.arranges_rebuilt hy numbers
  have hdeclared : ∀ x ∈ (d.program.rebuilt y numbers).declarations, x.Writable ∧ x.Shaped :=
    hy.declarations numbers ▸ h.declared
  have hmanual : ∀ entry ∈ (d.program.rebuilt y numbers).results.manual, entry.Over
      ((y.beforeSaves d.program.shorthand? d.program.results.manual).streams.map fun (_, source) => source.name) := by
    rw [manual_rebuilt hy numbers, List.forall_mem_map]
    exact fun entry he => SaveEntry.Over.renamed (h.manual entry he) fun n hn =>
      ⟨h.newName_manual he hn, hrelabels.trace n (mem_streamSet_manual he hn)⟩
  have hdistinct : (y.draft.registry.saves.map SaveEntry.tag ++
      (d.program.rebuilt y numbers).results.manual.map SaveEntry.tag).Nodup := by
    rw [manual_rebuilt hy numbers, List.map_map]
    exact h.manual_distinct hy.inOrder
  have hq := hl.replays (hy.declarations numbers ▸ h.numbered) (fun x hx => (hdeclared x hx).1)
    (fun x hx => (hdeclared x hx).2) (h.heads_rebuilt hy numbers) harranges
    (hy.inOrder.renamed hrelabels hstreams) (h.own_rebuilt hy numbers) hmanual hdistinct
  rw [hq, h.rebuilt_rebuilt hy numbers]

omit hy in
/-- The listing of a regular draft builds a program whose listing is the same but for the names of streams,
and builds the same program once more. -/
theorem settles {text : String} (ht : d.program.text = .ok text) :
    ∃ q text' σ, Program.ofScript text = .ok q ∧ q.text = .ok text' ∧ Set.InjOn σ d.program.streamSet ∧
      Text.Renamed σ d.program.streamSet text text' ∧ Program.ofScript text' = .ok q := by
  obtain ⟨y, hy⟩ := h.arranged
  obtain ⟨numbers, hl⟩ := Program.listed_of_text ht
  obtain ⟨text', hl', hrenamed⟩ := h.listing_rebuilt hy hl
  exact ⟨_, text', _, h.replays hy hl, hl'.text, (h.relabels hy numbers).injective, hrenamed, h.rebuilds hy hl'⟩

end Draft.Regular
end Qua
