import Qua.Proofs.Replay.Bodies
import Qua.Proofs.Replay.Remaking
import Qua.Proofs.Stream.RoundTrip

/-!
# Saved results

The last lines of a listing register the pipelines that a script saves by name, over streams that are
declared before them if no statement writes to them. Main statement: `results_replay`.
-/

namespace Qua

open Script (Outline IsTerm linesOf linesOf_append)
open Replay
open Text (IsIdentifier)

/-- The saved pipeline can be written, and it reads streams of the script. -/
def SaveEntry.Over (own : List String) (entry : SaveEntry) : Prop :=
  ∃ pipeline : Pipeline, entry.pipeline = pipeline.token ∧ pipeline.Writable ∧
    ∀ source ∈ pipeline.sources, source.name ∈ own ∧
      source.isAdcTrace = ResultSource.isTraceName source.name

theorem SaveEntry.Over.mem_own {own : List String} {entry : SaveEntry} (h : entry.Over own) :
    ∀ name ∈ entry.pipeline.sourceNames, name ∈ own := by
  obtain ⟨pipeline, he, -, hs⟩ := h
  rw [he, pipeline.sourceNames_token]
  exact List.forall_mem_map.mpr fun source hm => (hs source hm).1

/-- After more saves have been registered. -/
def Stage.saved (x : Stage) (entries : List SaveEntry) : Stage :=
  ⟨x.streams, x.draft.withRegistry
    { x.draft.registry with saves := x.draft.registry.saves ++ entries }⟩

theorem Stage.saved_nil (x : Stage) : x.saved [] = x := by
  simp only [saved, List.append_nil]
  rfl

theorem Stage.saved_saved (x : Stage) (entries more : List SaveEntry) :
    (x.saved entries).saved more = x.saved (entries ++ more) := by
  simp only [saved, Draft.registry_withRegistry, List.append_assoc]
  rfl

section

variable {hs : List (String × Expression)} {shorthand? : String → Option String} {σ : String → String}
  {role : String → TagRole} {tags own : List String} {x : Stage} {scopes : List Frame}
  {body : List Statement}

-- ---------------------------------------------------------------------------
-- One pipeline
-- ---------------------------------------------------------------------------

/-- The sources of a pipeline are bound to streams with the same reading. -/
theorem Replay.Standing.binds (h : Standing hs x body scopes s) (hx : x.InOrder role tags)
    (hσ : x.Names shorthand? σ) {sources : List ResultSource}
    (hown : ∀ source ∈ sources, source.isAdcTrace = ResultSource.isTraceName source.name ∧
      shorthand? source.name = none ∧ StreamFits hs source.name ∧ source.name ∈ x.names) :
    Binds s σ sources where
  functions := h.ready.free _ (by decide)
  names source hm := (hown source hm).2.2.1.identifier
  values source hm := by
    obtain ⟨htrace, hn, -, hmem⟩ := hown source hm
    obtain ⟨found, hl⟩ := Stage.mem_names_iff.mp hmem
    obtain ⟨n, rfl⟩ := hx.streams source.name found (Stage.mem_streams hl)
    rw [h.streams source.name _ hl, declaration, ResultSource.renamed,
      hσ.declared source.name _ hn hl, htrace]
    rfl

theorem saveMethod?_name (kind : SaveKind) : saveMethod? kind.name = some kind := by cases kind <;> rfl

/-- A call that saves a stream registers its token. -/
theorem save_yields {text tag : String} {token : StreamToken} (kind : SaveKind)
    (hp : s.inProgram = true) (h : StreamMeans s text token)
    (hstep : Build.registerSave kind tag token s.draft = .ok ((), d)) :
    Yields Script.IsPrimary s (text ++ "." ++ kind.name ++ "(" ++ Text.quote tag ++ ")") .none
      { s with draft := d } := by
  obtain ⟨v, hv, hstream, ho⟩ := h
  have hcall : Takes (callStream s.inProgram kind.name token) (.of kind.name [.string tag] [])
      (noValue (Build.registerSave kind tag token)) := by
    rw [callStream, saveMethod?_name, hp]
    exact .text (.done _ (by simp))
  have hmethod : Takes (method s.inProgram v kind.name) (.of kind.name [.string tag] [])
      (noValue (Build.registerSave kind tag token)) := by
    have hnone : ∀ source, sourceMethod? source kind.name = none := by intro source; cases kind <;> rfl
    obtain rfl | ⟨source, rfl, rfl⟩ := eq_of_isStream hstream ho
    · exact hcall
    · rw [method, hnone source]
      exact hcall
  have hy := yields_method hv hstream (show IsIdentifier kind.name by cases kind <;> decide) comma
    (.cons (means_string tag).means .nil) .nil (hmethod.perform (noValue_run hstep))
  rwa [List.append_nil, String.intercalate_singleton] at hy

-- ---------------------------------------------------------------------------
-- All pipelines
-- ---------------------------------------------------------------------------

/-- What has to be known of the stage in which a pipeline is saved. -/
structure SaveEntry.Fits (hs : List (String × Expression)) (shorthand? : String → Option String)
    (own : List String) (x : Stage) (entry : SaveEntry) : Prop where
  manual : entry.auto = false
  overOwn : entry.Over own
  sources : ∀ name ∈ entry.pipeline.sourceNames, shorthand? name = none ∧ StreamFits hs name ∧ name ∈ x.names

/-- Takes the line of a save. -/
def entryLine : Placing Unit := do
  let _ ← nextLine

/-- The line of a pipeline registers it, with its streams renamed. -/
theorem entry_replays (scopes : List Frame) (body : List Statement) {entry : SaveEntry} {text : String}
    (hx : x.InOrder role tags) (hσ : x.Names shorthand? σ) {saved : List SaveEntry}
    (hf : entry.Fits hs shorthand? own x) (hr : entry.render = .ok text)
    (hfree : (x.saved saved).draft.registry.IsFree entry.tag) :
    Replays hs [.term text] (x.saved saved) (x.saved (saved ++ [entry.mapSources σ])) scopes body
      entryLine fun _ => body := by
  refine .term (f := fun _ => ()) rfl fun s number location h hd => ?_
  obtain ⟨pipeline, htoken, hw, hown⟩ := hf.overOwn
  have hstanding : Standing hs x body scopes { s with draft := x.draft.moved s.draft.site } :=
    ⟨h.ready.moved _, h.streams, h.programs, s.draft.site.nextScope, s.draft.site.location, by rw [hd]; rfl⟩
  have hsources : ∀ source ∈ pipeline.sources, source.isAdcTrace = ResultSource.isTraceName source.name ∧
      shorthand? source.name = none ∧ StreamFits hs source.name ∧ source.name ∈ x.names := by
    intro source hm
    have hname : source.name ∈ entry.pipeline.sourceNames := by
      rw [htoken, pipeline.sourceNames_token]
      exact List.mem_map_of_mem hm
    exact ⟨(hown source hm).2, hf.sources source.name hname⟩
  have hbinds := hstanding.binds hx hσ hsources
  obtain ⟨ptext, ht, hm⟩ := pipeline_binds (s := s) pipeline hw
    ⟨hbinds.functions, hbinds.names, hbinds.values⟩
  -- the text of the pipeline is the one that the listing has
  have htext : text = ptext ++ "." ++ entry.kind.name ++ "(" ++ Text.quote entry.tag ++ ")" := by
    have hp : entry.pipeline.render = .ok ptext := by rw [htoken]; exact ht
    rw [SaveEntry.render, hp] at hr
    exact (Except.ok.inj hr).symm
  have hentry : (⟨entry.kind, entry.tag, false, (pipeline.renamed σ).token⟩ : SaveEntry) =
      entry.mapSources σ := by
    rw [pipeline.token_renamed, ← htoken, ← hf.manual]
    rfl
  have hstep : Build.registerSave entry.kind entry.tag (pipeline.renamed σ).token s.draft = .ok ((),
      (x.saved (saved ++ [entry.mapSources σ])).draft.moved ⟨body, scopes, number, location⟩) := by
    have hnot : ((x.saved saved).draft.moved ⟨body, scopes, number, location⟩).program.results.containsTag
        entry.tag = false := Registry.isTaken_eq_false.mpr hfree
    rw [Build.registerSave, Build.addSave_run, hd]
    simp only [hnot, Bool.false_eq_true, if_false]
    rw [hentry, ← Stage.saved_saved]
    rfl
  rw [htext]
  exact ⟨_, _, (save_yields entry.kind h.ready.inProgram hm hstep).operand.term, h.moved rfl rfl⟩

/-- Takes the lines of the saves. -/
def entryLines : List SaveEntry → Placing Unit
  | [] => return ()
  | _ :: rest => do
    entryLine
    entryLines rest

theorem entries_replay (scopes : List Frame) (body : List Statement) {entries : List SaveEntry}
    (hx : x.InOrder role tags) (hσ : x.Names shorthand? σ)
    (saved : List SaveEntry) (hf : ∀ entry ∈ entries, entry.Fits hs shorthand? own x)
    (hr : entries.mapM SaveEntry.render = .ok texts)
    (hn : ((x.saved saved).draft.registry.saves.map SaveEntry.tag ++ entries.map SaveEntry.tag).Nodup) :
    Replays hs (texts.map .term) (x.saved saved) (x.saved (saved ++ entries.map (SaveEntry.mapSources σ)))
      scopes body (entryLines entries) fun _ => body := by
  induction entries generalizing saved texts with
  | nil =>
    obtain rfl := Except.ok.inj hr
    rw [List.map_nil, List.append_nil]
    exact .pure () (fun _ => body) _ _
  | cons entry entries ih =>
    rw [List.mapM_cons] at hr
    obtain ⟨text, hrender, hr⟩ := except_bind_eq_ok.mp hr
    obtain ⟨rest, hrest, hr⟩ := except_bind_eq_ok.mp hr
    obtain rfl := Except.ok.inj hr
    obtain ⟨hfirst, hfs⟩ := List.forall_mem_cons.mp hf
    have hfree : (x.saved saved).draft.registry.IsFree entry.tag := by
      intro other ho he
      exact (List.nodup_append.mp hn).2.2 _ (List.mem_map_of_mem ho) _ List.mem_cons_self he
    have hline := entry_replays scopes body hx hσ hfirst hrender hfree
    have hall := ih (saved ++ [entry.mapSources σ]) hfs hrest (by
      rw [← Stage.saved_saved]
      change (((x.saved saved).draft.registry.saves ++ [entry.mapSources σ]).map SaveEntry.tag ++ _).Nodup
      rwa [List.map_append, List.append_assoc])
    rw [List.append_assoc] at hall
    exact hline.bind fun _ => hall

-- ---------------------------------------------------------------------------
-- The lines of the results
-- ---------------------------------------------------------------------------

theorem linesOf_terms (depth : Nat) (texts : List String) :
    linesOf depth (texts.map .term) = texts.map fun text => ⟨depth, text⟩ := by
  induction texts with
  | nil => rfl
  | cons text texts ih =>
    rw [List.map_cons, linesOf, ih]
    rfl

/-- Lines that are rendered one after the other, whatever streams have been declared. -/
theorem Listing.mapM_render {render : α → Except RenderError String} {as : List α}
    (h : (as.mapM fun a => (do
      let text ← render a
      return (⟨depth, text⟩ : Line) : Listing Line)) names = .ok (lines, names')) :
    names' = names ∧ ∃ texts, as.mapM render = .ok texts ∧ lines = texts.map fun text => ⟨depth, text⟩ := by
  induction as generalizing lines names with
  | nil =>
    obtain ⟨rfl, rfl⟩ := pure_eq_ok.mp h
    exact ⟨rfl, [], rfl, rfl⟩
  | cons a as ih =>
    rw [List.mapM_cons] at h
    obtain ⟨line, names₁, hline, hrun⟩ := bind_eq_ok.mp h
    obtain ⟨rest, names₂, hrest, hlast⟩ := bind_eq_ok.mp hrun
    obtain ⟨text, names₃, ht, hpure⟩ := bind_eq_ok.mp hline
    obtain ⟨hrender, rfl⟩ := lift_eq_ok.mp ht
    obtain ⟨rfl, rfl⟩ := pure_eq_ok.mp hpure
    obtain ⟨rfl, rfl⟩ := pure_eq_ok.mp hlast
    obtain ⟨rfl, texts, hts, rfl⟩ := ih hrest
    exact ⟨rfl, text :: texts, by rw [List.mapM_cons, hrender, hts]; rfl, rfl⟩

/-- The saves that have lines. -/
def ResultAnalysis.manual (results : ResultAnalysis) : List SaveEntry :=
  results.entries.filter fun entry => !entry.auto

/-- The streams that are declared for the saves. -/
def undeclaredSources (shorthand? : String → Option String) (declared : List String)
    (entries : List SaveEntry) : List String :=
  undeclared shorthand? declared (entries.flatMap fun entry => entry.pipeline.sourceNames)

/-- The lines of the results: none, or those of the streams that are left and of the saves. -/
theorem Listing.results_eq_ok {results : ResultAnalysis}
    (h : Listing.results shorthand? depth results.entries names = .ok (lines, names')) :
    (results.manual = [] ∧ lines = []) ∨ ∃ texts, results.manual.mapM SaveEntry.render = .ok texts ∧
      texts ≠ [] ∧ lines = (undeclaredSources shorthand? names results.manual).map
          (fun name => ⟨depth, Listing.streamDeclaration name⟩) ++
        ⟨depth, "with stream_processing():"⟩ :: texts.map fun text => ⟨depth + 1, text⟩ := by
  change (if results.manual.isEmpty then _ else _ : Listing (List Line)) names = _ at h
  split at h
  · next he =>
    obtain ⟨rfl, rfl⟩ := pure_eq_ok.mp h
    exact .inl ⟨List.isEmpty_iff.mp he, rfl⟩
  · next he =>
    obtain ⟨declarations, names₁, hd, hrun⟩ := bind_eq_ok.mp h
    rw [Listing.declareStreams_run] at hd
    obtain ⟨rfl, rfl⟩ := Prod.mk.inj (Except.ok.inj hd)
    obtain ⟨saves, names₂, hsaves, hlast⟩ := bind_eq_ok.mp hrun
    obtain ⟨rfl, rfl⟩ := pure_eq_ok.mp hlast
    obtain ⟨rfl, texts, hmapM, rfl⟩ := Listing.mapM_render hsaves
    have htexts : results.manual.mapM SaveEntry.render = .ok texts := hmapM
    refine .inr ⟨texts, htexts, ?_, rfl⟩
    rintro rfl
    cases hm : results.manual with
    | nil => exact he (List.isEmpty_iff.mpr hm)
    | cons entry entries =>
      rw [hm, List.mapM_cons] at htexts
      obtain ⟨_, -, hrest⟩ := except_bind_eq_ok.mp htexts
      obtain ⟨_, -, hpure⟩ := except_bind_eq_ok.mp hrest
      nomatch hpure

/-- The parts of a listing. -/
theorem Program.text_eq_ok {p : Program} {text : String} (h : p.text = .ok text) :
    ∃ declared body names results names', p.declarations.mapM Declaration.render = .ok declared ∧
      Listing.block p.shorthand? 1 p.body [] = .ok (body, names) ∧
      Listing.results p.shorthand? 1 p.results.entries names = .ok (results, names') ∧
      text = Line.renderAll (⟨0, "from qm.qua import *"⟩ :: ⟨0, ""⟩ :: ⟨0, "with program() as prog:"⟩ ::
        Listing.orPass 1 (declared.map (fun text => ⟨1, text⟩) ++ body ++ results)) := by
  obtain ⟨lines, hlines, rfl⟩ := except_map_eq_ok.mp h
  obtain ⟨inner, hinner, hlines⟩ := except_bind_eq_ok.mp hlines
  obtain rfl := Except.ok.inj hlines
  obtain ⟨⟨_, names'⟩, hrun, rfl⟩ := except_map_eq_ok.mp hinner
  obtain ⟨declared, names₀, hd, hrun⟩ := bind_eq_ok.mp hrun
  obtain ⟨body, names, hb, hrun⟩ := bind_eq_ok.mp hrun
  obtain ⟨results, names₁, hr, hrun⟩ := bind_eq_ok.mp hrun
  obtain ⟨rfl, rfl⟩ := pure_eq_ok.mp hrun
  obtain ⟨rfl, texts, hm, rfl⟩ := Listing.mapM_render hd
  exact ⟨texts, body, names, results, _, hm, hb, hr, rfl⟩

/-- The stage in which the pipelines are saved, with their sources declared. -/
def Stage.beforeSaves (shorthand? : String → Option String) (x : Stage) (entries : List SaveEntry) : Stage :=
  x.declareAll (undeclaredSources shorthand? x.names entries)

theorem Stage.mem_beforeSaves {entries : List SaveEntry} (he : entry ∈ entries)
    (hn : name ∈ entry.pipeline.sourceNames) (hs : shorthand? name = none) :
    name ∈ (x.beforeSaves shorthand? entries).names := by
  rw [beforeSaves, names_declareAll, List.mem_append, List.mem_reverse, undeclaredSources, mem_undeclared]
  by_cases hd : name ∈ x.names
  · exact .inr hd
  · exact .inl ⟨List.mem_flatMap.mpr ⟨entry, he, hn⟩, hs, hd⟩

/-- The lines of the results declare the streams that are left, and register the saves with their streams
renamed. -/
theorem results_replay {results : ResultAnalysis} (hx : x.InOrder role tags)
    (hl : Listing.results shorthand? depth results.entries x.names = .ok (lines, names))
    (ho : ∀ entry ∈ results.manual, entry.Over own)
    (hown : ∀ name ∈ own, shorthand? name = none ∧ StreamFits hs name)
    (hσ : (x.beforeSaves shorthand? results.manual).Names shorthand? σ)
    (hn : (x.draft.registry.saves.map SaveEntry.tag ++ results.manual.map SaveEntry.tag).Nodup) :
    ∃ os, linesOf depth os = lines ∧ ∃ placing : Placing Unit, ∀ body,
      Replays hs os x ((x.beforeSaves shorthand? results.manual).saved
        (results.manual.map (SaveEntry.mapSources σ))) [⟨0, .program⟩] body placing fun _ => body := by
  obtain ⟨hnil, rfl⟩ | ⟨texts, htexts, hne, rfl⟩ := Listing.results_eq_ok hl
  · refine ⟨[], rfl, Pure.pure (), fun body => ?_⟩
    rw [hnil, List.map_nil, Stage.saved_nil]
    exact .pure () (fun _ => body) x _
  · have hfits : ∀ entry ∈ results.manual, entry.Fits hs shorthand? own
        (x.beforeSaves shorthand? results.manual) := fun entry hm => {
      manual := by simpa using (List.mem_filter.mp hm).2
      overOwn := ho entry hm
      sources := fun name hname => by
        obtain ⟨hnone, hfit⟩ := hown name ((ho entry hm).mem_own name hname)
        exact ⟨hnone, hfit, Stage.mem_beforeSaves hm hname hnone⟩ }
    have hnew : ∀ name ∈ undeclaredSources shorthand? x.names results.manual, StreamFits hs name := by
      intro name hname
      obtain ⟨entry, hm, hname⟩ := List.mem_flatMap.mp (mem_undeclared.mp hname).1
      exact (hown name ((ho entry hm).mem_own name hname)).2
    have hsaves : ((x.beforeSaves shorthand? results.manual).saved []).draft.registry.saves =
        x.draft.registry.saves := by
      obtain ⟨r, hr, hsaved⟩ := x.draft_declareAll (undeclaredSources shorthand? x.names results.manual)
      rw [Stage.saved_nil, Stage.beforeSaves, hr, Draft.registry_withRegistry, hsaved]
    obtain ⟨text, htext, hopens⟩ : Heads hs "with stream_processing():" Build.openResults :=
      heads_nothing (by decide) (by decide) results_takes
    refine ⟨(undeclaredSources shorthand? x.names results.manual).map
        (fun name => .assign name (declarationText name)) ++ [.block text (texts.map .term)], ?_,
      declarationLines (undeclaredSources shorthand? x.names results.manual) >>= fun _ =>
        nextLine >>= fun _ => entryLines results.manual,
      fun body => (declarations_replay hnew).bind fun _ => ?_⟩
    · rw [linesOf_append, linesOf_declarations, linesOf, Outline.lines, linesOf_terms, ← htext]
      simp [linesOf]
    · have hinner (number : Nat) := entries_replay [⟨number, .results⟩, ⟨0, .program⟩] body
        (hx.declareAll _) hσ [] hfits htexts (hsaves.symm ▸ hn)
      have hblock : Replays hs [.block text (texts.map .term)] _ _ [⟨0, .program⟩] body _ _ :=
        .block (fun _ => rfl) hopens (by simpa using hne) (fun _ _ => rfl) fun number _ => hinner number
      rwa [Stage.saved_nil] at hblock

end

end Qua
