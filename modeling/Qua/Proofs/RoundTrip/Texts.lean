import Mathlib.Data.Set.Basic
import Qua.Proofs.Replay.Results

/-!
# Texts with renamed streams

Two texts differ in names only if one is got from the other by renaming at some places. The lines that are
written for actions and saves differ so from those for the same with their streams renamed, and they take up
as many lines. Main statements: `Action.render_renamed` and `SaveEntry.render_renamed`.
-/

namespace Qua

open Script (numberAfter numbersFrom)

/-- The texts are the same but for names of the set, which the second text has renamed. -/
inductive Text.Renamed (σ : String → String) (names : Set String) : String → String → Prop
  | text (s : String) : Renamed σ names s s
  | name (h : n ∈ names) : Renamed σ names n (σ n)
  | append (h : Renamed σ names a b) (h' : Renamed σ names a' b') : Renamed σ names (a ++ a') (b ++ b')

section

variable {σ : String → String} {names : Set String}

namespace Text.Renamed

theorem before (s : String) (h : Renamed σ names a b) : Renamed σ names (s ++ a) (s ++ b) := .append (.text s) h

theorem after (h : Renamed σ names a b) (s : String) : Renamed σ names (a ++ s) (b ++ s) := .append h (.text s)

theorem intercalate (sep : String) {as bs : List String} (h : List.Forall₂ (Renamed σ names) as bs) :
    Renamed σ names (sep.intercalate as) (sep.intercalate bs) := by
  induction h with
  | nil => exact .text _
  | @cons a b as bs h hs ih =>
    cases hs with
    | nil =>
      rw [String.intercalate_singleton, String.intercalate_singleton]
      exact h
    | cons h' hs =>
      rw [String.intercalate_cons_cons, String.intercalate_cons_cons]
      exact .append (h.after sep) ih

theorem join {as bs : List String} (h : List.Forall₂ (Renamed σ names) as bs) :
    Renamed σ names (String.join as) (String.join bs) := by
  induction h with
  | nil => exact .text _
  | cons h _ ih =>
    rw [String.join_cons, String.join_cons]
    exact .append h ih

/-- Names that stand in one line leave the line breaks as they are. -/
theorem count_lineBreaks (h : Renamed σ names a b)
    (hn : ∀ n ∈ names, '\n' ∉ n.toList ∧ '\n' ∉ (σ n).toList) : a.toList.count '\n' = b.toList.count '\n' := by
  induction h with
  | text s => rfl
  | name h =>
    obtain ⟨hn, hσ⟩ := hn _ h
    rw [List.count_eq_zero_of_not_mem hn, List.count_eq_zero_of_not_mem hσ]
  | append _ _ ih ih' => rw [String.toList_append, String.toList_append, List.count_append, List.count_append, ih, ih']

end Text.Renamed

open Text (Renamed)

theorem forall₂_refl_renamed (texts : List String) : List.Forall₂ (Renamed σ names) texts texts :=
  List.forall₂_same.mpr fun text _ => .text text

-- ---------------------------------------------------------------------------
-- Lines
-- ---------------------------------------------------------------------------

/-- The lines differ in names only, and stand at the same depth. -/
structure Line.Renamed (σ : String → String) (names : Set String) (line line' : Line) : Prop where
  depth : line'.depth = line.depth
  text : Text.Renamed σ names line.text line'.text

theorem Line.Renamed.refl (line : Line) : line.Renamed σ names line := ⟨rfl, .text _⟩

theorem Line.Renamed.render {line line' : Line} (h : line.Renamed σ names line') :
    Text.Renamed σ names line.render line'.render := by
  rw [Qua.Line.render, Qua.Line.render, h.depth]
  exact (h.text.before _).after _

theorem renamed_renderAll {lines lines' : List Line} (h : List.Forall₂ (Line.Renamed σ names) lines lines') :
    Renamed σ names (Line.renderAll lines) (Line.renderAll lines') :=
  .join (List.forall₂_map_left_iff.mpr (List.forall₂_map_right_iff.mpr (h.imp fun _ _ hline => hline.render)))

/-- Lines with renamed streams have the same numbers. -/
theorem numbersFrom_renamed {lines lines' : List Line} (h : List.Forall₂ (Line.Renamed σ names) lines lines')
    (hn : ∀ n ∈ names, '\n' ∉ n.toList ∧ '\n' ∉ (σ n).toList) (number : Nat) :
    numbersFrom number lines = numbersFrom number lines' := by
  induction h generalizing number with
  | nil => rfl
  | cons h _ ih =>
    rw [numbersFrom, numbersFrom, numberAfter, numberAfter, h.text.count_lineBreaks hn, ih]

-- ---------------------------------------------------------------------------
-- Actions
-- ---------------------------------------------------------------------------

theorem renamed_timestampKeyword {f g : String → String} {stream : Option String}
    (h : ∀ n ∈ stream, Renamed σ names (f n) (g n)) :
    Renamed σ names (timestampKeyword (stream.map f)) (timestampKeyword (stream.map g)) := by
  cases stream with
  | none => exact .text _
  | some n => exact .before ", timestamp_stream=" (h n rfl)

/-- The text of an action differs as its streams do. -/
theorem Action.render_renamed {a : Action} {f g : String → String}
    (hn : ∀ n ∈ a.streamNames, Renamed σ names (f n) (g n)) (h : (a.mapStreams f).render = .ok text) :
    ∃ text', (a.mapStreams g).render = .ok text' ∧ Renamed σ names text text' := by
  cases a with
  | play p =>
    have hstream := renamed_timestampKeyword fun n hm => hn n (Option.mem_toList.mpr hm)
    simp only [mapStreams, render, Play.render] at h ⊢
    obtain ⟨pulse, hpulse, h⟩ := except_bind_eq_ok.mp h
    obtain ⟨amp, hamp, h⟩ := except_bind_eq_ok.mp h
    obtain ⟨duration, hduration, h⟩ := except_bind_eq_ok.mp h
    obtain ⟨condition, hcondition, h⟩ := except_bind_eq_ok.mp h
    simp only [hpulse, hamp, hduration, hcondition, bind, Except.bind]
    cases hchirp : p.chirp with
    | none =>
      rw [hchirp] at h
      obtain ⟨chirped, hchirped, h⟩ := except_bind_eq_ok.mp h
      obtain ⟨truncate, htruncate, h⟩ := except_bind_eq_ok.mp h
      obtain rfl := Except.ok.inj h
      simp only [hchirped, htruncate]
      exact ⟨_, rfl, (hstream.before _).after _⟩
    | some chirp =>
      rw [hchirp] at h
      obtain ⟨chirped, hchirped, h⟩ := except_bind_eq_ok.mp h
      obtain ⟨truncate, htruncate, h⟩ := except_bind_eq_ok.mp h
      obtain rfl := Except.ok.inj h
      simp only [hchirped, htruncate]
      exact ⟨_, rfl, (hstream.before _).after _⟩
  | measure m =>
    have hstream := renamed_timestampKeyword fun n hm =>
      hn n (List.mem_append_right _ (Option.mem_toList.mpr hm))
    have hdata : Renamed σ names ((m.stream.map f).getD "None") ((m.stream.map g).getD "None") := by
      cases hs : m.stream with
      | none => exact .text _
      | some n => exact hn n (List.mem_append_left _ (by simp [hs]))
    simp only [mapStreams, render, Measure.render] at h ⊢
    obtain ⟨amp, hamp, h⟩ := except_bind_eq_ok.mp h
    obtain ⟨processes, hprocesses, h⟩ := except_bind_eq_ok.mp h
    obtain rfl := Except.ok.inj h
    simp only [hamp, hprocesses, bind, Except.bind]
    have hparts := Renamed.intercalate ", " (.cons (.text (Text.quote m.pulse ++ amp))
      (.cons (.text (Text.quote m.element)) (.cons hdata (forall₂_refl_renamed processes))))
    exact ⟨_, rfl, (Renamed.append (hparts.before "measure(") hstream).after ")"⟩
  | save source stream =>
    simp only [mapStreams, render] at h ⊢
    obtain ⟨value, hvalue, h⟩ := except_bind_eq_ok.mp h
    obtain rfl := Except.ok.inj h
    simp only [hvalue, bind, Except.bind]
    exact ⟨_, rfl, ((hn stream List.mem_cons_self).before _).after ")"⟩
  | _ => exact ⟨text, h, .text text⟩

-- ---------------------------------------------------------------------------
-- Saves
-- ---------------------------------------------------------------------------

open StreamToken (HasText methodText)

theorem renamed_methodText (h : Renamed σ names text text') (name : String) (arguments : List String) :
    Renamed σ names (methodText text name arguments) (methodText text' name arguments) :=
  (((h.after _).after _).after _).after _ |>.after _

theorem renamed_methodOn (h : Renamed σ names text text') (name : String) (ho : Renamed σ names other other') :
    Renamed σ names (methodText text name [other]) (methodText text' name [other']) := by
  rw [methodText, methodText, String.intercalate_singleton, String.intercalate_singleton]
  exact (Renamed.append (((h.after _).after _).after _) ho).after _

/-- A source has a text, and under another name it has the text with that name. -/
theorem ResultSource.hasText_renamed {source : ResultSource} (hn : source.name ∈ names) :
    ∃ text text', HasText source.token text ∧ HasText (source.renamed σ).token text' ∧
      Renamed σ names text text' := by
  obtain ⟨name, isAdcTrace, mode, input, autoReshape⟩ := source
  have hname : Renamed σ names name (σ name) := .name hn
  have hread : ∃ text text',
      HasText (ResultSource.token ⟨name, false, mode, none, false⟩) text ∧
      HasText (ResultSource.token ⟨σ name, false, mode, none, false⟩) text' ∧ Renamed σ names text text' := by
    refine ⟨_, _, StreamToken.hasText_read mode name, StreamToken.hasText_read mode (σ name), ?_⟩
    cases mode with
    | values => exact hname
    | _ => exact renamed_methodText hname _ _
  obtain ⟨text, text', ht, ht', h⟩ := hread
  have hinput : ∃ text text',
      HasText (ResultSource.token ⟨name, false, mode, input, false⟩) text ∧
      HasText (ResultSource.token ⟨σ name, false, mode, input, false⟩) text' ∧ Renamed σ names text text' := by
    cases input with
    | none => exact ⟨text, text', ht, ht', h⟩
    | some input =>
      exact ⟨_, _, StreamToken.hasText_input ht input, StreamToken.hasText_input ht' input,
        renamed_methodText h _ _⟩
  obtain ⟨text, text', ht, ht', h⟩ := hinput
  have hshape : ∃ text text',
      HasText (ResultSource.token ⟨name, false, mode, input, autoReshape⟩) text ∧
      HasText (ResultSource.token ⟨σ name, false, mode, input, autoReshape⟩) text' ∧
        Renamed σ names text text' := by
    cases autoReshape with
    | false => exact ⟨text, text', ht, ht', h⟩
    | true =>
      exact ⟨_, _, StreamToken.hasText_reshape ht, StreamToken.hasText_reshape ht', renamed_methodText h _ _⟩
  obtain ⟨text, text', ht, ht', h⟩ := hshape
  cases isAdcTrace with
  | false => exact ⟨text, text', ht, ht', h⟩
  | true => exact ⟨text, text', StreamToken.hasText_adcTrace ht, StreamToken.hasText_adcTrace ht', h⟩

/-- A pipeline has a text, and over renamed streams it has the text with the new names. -/
theorem Pipeline.hasText_renamed (p : Pipeline) (hw : p.Writable) (hn : ∀ source ∈ p.sources, source.name ∈ names) :
    ∃ text text', HasText p.token text ∧ HasText (p.renamed σ).token text' ∧ Renamed σ names text text' := by
  induction p with
  | source source => exact ResultSource.hasText_renamed (hn source (List.mem_singleton_self source))
  | average parent ih =>
    obtain ⟨text, text', ht, ht', h⟩ := ih hw hn
    exact ⟨_, _, StreamToken.hasText_average ht, StreamToken.hasText_average ht', renamed_methodText h _ _⟩
  | flatten parent ih =>
    obtain ⟨text, text', ht, ht', h⟩ := ih hw hn
    exact ⟨_, _, StreamToken.hasText_flatten ht, StreamToken.hasText_flatten ht', renamed_methodText h _ _⟩
  | buffer first others parent ih =>
    obtain ⟨text, text', ht, ht', h⟩ := ih hw.2 hn
    exact ⟨_, _, StreamToken.hasText_buffer ht first others, StreamToken.hasText_buffer ht' first others,
      renamed_methodText h _ _⟩
  | bufferAndSkip length skipped parent ih =>
    obtain ⟨text, text', ht, ht', h⟩ := ih hw.2.2 hn
    exact ⟨_, _, StreamToken.hasText_bufferAndSkip ht length skipped,
      StreamToken.hasText_bufferAndSkip ht' length skipped, renamed_methodText h _ _⟩
  | map function parent ih =>
    obtain ⟨text, text', ht, ht', h⟩ := ih hw.2 hn
    obtain ⟨called, hcalled, -⟩ := Replay.function_reads (s := {}) rfl function hw.1
    exact ⟨_, _, StreamToken.hasText_map ht hcalled, StreamToken.hasText_map ht' hcalled,
      renamed_methodText h _ _⟩
  | skip length parent ih =>
    obtain ⟨text, text', ht, ht', h⟩ := ih hw.2 hn
    exact ⟨_, _, StreamToken.hasText_skip ht length, StreamToken.hasText_skip ht' length,
      renamed_methodText h _ _⟩
  | skipLast length parent ih =>
    obtain ⟨text, text', ht, ht', h⟩ := ih hw.2 hn
    exact ⟨_, _, StreamToken.hasText_skipLast ht length, StreamToken.hasText_skipLast ht' length,
      renamed_methodText h _ _⟩
  | take length parent ih =>
    obtain ⟨text, text', ht, ht', h⟩ := ih hw.2 hn
    exact ⟨_, _, StreamToken.hasText_take ht length, StreamToken.hasText_take ht' length,
      renamed_methodText h _ _⟩
  | histogram bins parent ih =>
    obtain ⟨text, text', ht, ht', h⟩ := ih hw.2 hn
    exact ⟨_, _, StreamToken.hasText_histogram ht hw.1, StreamToken.hasText_histogram ht' hw.1,
      renamed_methodText h _ _⟩
  | zip other parent iho ih =>
    obtain ⟨text, text', ht, ht', h⟩ := ih hw.2 fun source hm => hn source (List.mem_append_right _ hm)
    obtain ⟨others, others', ho, ho', h'⟩ := iho hw.1 fun source hm => hn source (List.mem_append_left _ hm)
    exact ⟨_, _, StreamToken.hasText_zip ht ho, StreamToken.hasText_zip ht' ho', renamed_methodOn h _ h'⟩
  | arithmetic operator left right ihl ihr =>
    obtain ⟨l, l', hl, hl', h⟩ := ihl hw.1 fun source hm => hn source (List.mem_append_left _ hm)
    obtain ⟨r, r', hr, hr', h'⟩ := ihr hw.2 fun source hm => hn source (List.mem_append_right _ hm)
    have ht := StreamToken.hasText_arithmetic (.stream left.token) (.stream right.token) hl hr operator
    have ht' := StreamToken.hasText_arithmetic (.stream (left.renamed σ).token)
      (.stream (right.renamed σ).token) hl' hr' operator
    rw [StreamOperand.token, Replay.isStream_pipeline, if_pos rfl] at ht ht'
    exact ⟨_, _, ht, ht', (((Renamed.append (((h.after _).after _).after _) h').after _).before _).after _⟩
  | arithmeticLeft operator left right ih =>
    obtain ⟨l, l', hl, hl', h⟩ := ih hw.1 hn
    obtain ⟨r, -, hr, -⟩ := Replay.constant_reads (s := {}) right hw.2
    have ht := StreamToken.hasText_arithmetic (.stream left.token) _ hl hr operator
    have ht' := StreamToken.hasText_arithmetic (.stream (left.renamed σ).token) _ hl' hr operator
    rw [StreamOperand.token, Replay.isStream_pipeline, if_pos rfl] at ht ht'
    exact ⟨_, _, ht, ht', (((((h.after _).after _).after _).after _).after _ |>.before _).after _⟩
  | arithmeticRight operator left right ih =>
    obtain ⟨l, -, hl, -, -, hoperand⟩ := Replay.constant_reads (s := {}) left hw.1
    obtain ⟨r, r', hr, hr', h⟩ := ih hw.2 hn
    have ht := StreamToken.hasText_arithmetic _ (.stream right.token) hl hr operator
    have ht' := StreamToken.hasText_arithmetic _ (.stream (right.renamed σ).token) hl hr' operator
    rw [hoperand, if_neg (by simp)] at ht ht'
    exact ⟨_, _, ht, ht', ((h.before _).before _).after _⟩

theorem SaveEntry.Over.renamed {own own' : List String} {entry : SaveEntry} (h : entry.Over own)
    (hn : ∀ n ∈ entry.pipeline.sourceNames, σ n ∈ own' ∧
      ResultSource.isTraceName (σ n) = ResultSource.isTraceName n) : (entry.mapSources σ).Over own' := by
  obtain ⟨pipeline, he, hw, hs⟩ := h
  refine ⟨pipeline.renamed σ, by rw [pipeline.token_renamed, ← he]; rfl, (pipeline.writable_renamed σ).mpr hw, ?_⟩
  rw [he, pipeline.sourceNames_token, List.forall_mem_map] at hn
  rw [pipeline.sources_renamed, List.forall_mem_map]
  intro source hm
  obtain ⟨hmem, htrace⟩ := hn source hm
  exact ⟨hmem, (hs source hm).2.trans htrace.symm⟩

/-- The text of a save differs as its streams do. -/
theorem SaveEntry.render_renamed {own : List String} {entry : SaveEntry} (h : entry.Over own)
    (hn : ∀ n ∈ entry.pipeline.sourceNames, n ∈ names) (hr : entry.render = .ok text) :
    ∃ text', (entry.mapSources σ).render = .ok text' ∧ Renamed σ names text text' := by
  obtain ⟨pipeline, he, hw, -⟩ := h
  rw [he, pipeline.sourceNames_token, List.forall_mem_map] at hn
  obtain ⟨ptext, ptext', ht, ht', h⟩ := pipeline.hasText_renamed (σ := σ) hw hn
  rw [pipeline.token_renamed, ← he] at ht'
  rw [← he] at ht
  have hp : entry.pipeline.render = .ok ptext := ht
  have hp' : (entry.mapSources σ).pipeline.render = .ok ptext' := ht'
  rw [SaveEntry.render, hp] at hr
  obtain rfl := Except.ok.inj hr
  exact ⟨_, by rw [SaveEntry.render, hp']; rfl, ((((h.after _).after _).after _).after _).after _⟩

end

end Qua
