import Mathlib.Data.String.Basic
import Qua.Program.Shorthand
import Qua.Proofs.Build.Poison
import Qua.Proofs.Build.Registry
import Qua.Proofs.Stream.Renamed

/-!
# Shorthands are recovered

From the saves of a finished program it can be told which of its streams stand for tags, and for which.
The saves of a stream that stands for a tag are those of the tag's first use and no others, and the
shortest of their tags gives the tag (`TagRole.tagOfSaves_saves`); no other stream has a save that was
made for a tag (`Registry.Sound`). Main statement: `Session.shorthands_recovered`.
-/

namespace Qua

theorem Text.withoutSuffix?_append (s p : String) : Text.withoutSuffix? p (s ++ p) = some s := by
  have h : p.toList.isSuffixOf? (s ++ p).toList = some s.toList := by simp
  rw [Text.withoutSuffix?, h, Option.map_some, String.ofList_toList]

-- ---------------------------------------------------------------------------
-- The tag of saves
-- ---------------------------------------------------------------------------

namespace Program

theorem shorterTag_of_lt {a b : String} (h : a.utf8ByteSize < b.utf8ByteSize) : shorterTag a b = a := by
  rw [shorterTag, if_neg]
  simp only [isShorterTag, Bool.or_eq_true, Bool.and_eq_true, decide_eq_true_eq, beq_iff_eq]
  omega

/-- The tags of the two inputs differ in their last character. -/
theorem shorterTag_inputs (tag : String) :
    shorterTag (tag ++ "_input1") (tag ++ "_input2") = tag ++ "_input1" := by
  have horder : ¬(tag ++ "_input2" < tag ++ "_input1") := by
    rw [String.lt_iff_toList_lt, String.toList_append, String.toList_append]
    induction tag.toList with
    | nil => decide
    | cons c cs ih => simpa [List.cons_lt_cons_iff] using ih
  rw [shorterTag, if_neg]
  have hsize : "_input1".utf8ByteSize = "_input2".utf8ByteSize := rfl
  simp [isShorterTag, horder, String.utf8ByteSize_append, hsize]

theorem withoutInputSuffix_input1 (tag : String) : withoutInputSuffix (tag ++ "_input1") = tag := by
  rw [withoutInputSuffix, Text.withoutSuffix?_append]

end Program

open Program (shorterTag shortestTag? withoutInputSuffix)

namespace TagRole

variable {role : TagRole} {tag : String} {source : ResultSource} {entry : SaveEntry}

theorem mem_saves (h : entry ∈ role.saves tag source) :
    entry.auto = true ∧ entry.pipeline.sourceNames = [source.name] := by
  have hstream {addTimestamps : Bool} {tag : String} {source : ResultSource}
      (h : entry ∈ Build.streamSaves addTimestamps tag source) :
      entry.auto = true ∧ entry.pipeline.sourceNames = [source.name] := by
    rw [Build.streamSaves, List.mem_cons] at h
    obtain rfl | h := h
    · exact ⟨rfl, source.sourceNames_token⟩
    · split at h
      · obtain rfl := List.mem_singleton.mp h
        exact ⟨rfl, source.timestamps.sourceNames_token⟩
      · cases h
  cases role with
  | timestamps => exact hstream h
  | values => exact hstream h
  | trace =>
    obtain ⟨⟨inputTag, input⟩, hi, h⟩ := List.mem_flatMap.mp h
    obtain ⟨ha, hn⟩ := hstream h
    refine ⟨ha, hn.trans ?_⟩
    obtain ⟨-, rfl⟩ | ⟨-, rfl⟩ : (inputTag = _ ∧ input = source.input1) ∨
        inputTag = _ ∧ input = source.input2 := by simpa [Build.traceInputs] using hi
    · rfl
    · rfl

/-- The shortest tag of the saves is that of the first use, with a suffix if a trace was declared. -/
theorem shortestTag?_saves (role : TagRole) (tag : String) (source : ResultSource) :
    shortestTag? ((role.saves tag source).map SaveEntry.tag) =
      some (if role.isAdcTrace then tag ++ "_input1" else tag) := by
  have hsuffix (tag : String) : tag.utf8ByteSize < (tag ++ Build.timestampsSuffix).utf8ByteSize := by
    rw [String.utf8ByteSize_append]
    exact Nat.lt_add_of_pos_right (by decide)
  cases role with
  | timestamps => rfl
  | values => exact congrArg some (Program.shorterTag_of_lt (hsuffix tag))
  | trace =>
    have hlast : (tag ++ "_input1").utf8ByteSize <
        (tag ++ "_input2" ++ Build.timestampsSuffix).utf8ByteSize := by
      have hinput : (tag ++ "_input1").utf8ByteSize = (tag ++ "_input2").utf8ByteSize := by
        simp only [String.utf8ByteSize_append]
        rfl
      exact hinput ▸ hsuffix _
    simp only [saves, Build.traceSaves, Build.traceInputs, Build.streamSaves, shortestTag?,
      List.flatMap_cons, List.flatMap_nil, if_true, List.cons_append, List.nil_append, List.map_cons,
      List.map_nil, List.foldl_cons, List.foldl_nil, Program.shorterTag_of_lt (hsuffix _),
      Program.shorterTag_inputs, Program.shorterTag_of_lt hlast, isAdcTrace]

/-- A stream whose saves are those of the first use of a tag is taken for that tag. -/
theorem shorthand?_of_saves {p : Program} (role : TagRole) (tag : String) (n : Nat)
    (h : p.savesOf (streamName role.isAdcTrace n) =
      role.saves tag (numberedStream role.isAdcTrace n)) :
    p.shorthand? (streamName role.isAdcTrace n) = some tag := by
  have hauto : (role.saves tag (numberedStream role.isAdcTrace n)).all SaveEntry.auto = true :=
    List.all_eq_true.mpr fun entry he => (mem_saves he).1
  rw [Program.shorthand?, h, if_pos hauto, shortestTag?_saves, isTraceName_streamName]
  cases role with
  | trace => exact congrArg some (Program.withoutInputSuffix_input1 tag)
  | _ => rfl

end TagRole

-- ---------------------------------------------------------------------------
-- Which saves there are
-- ---------------------------------------------------------------------------

namespace Registry

/-- The name of a stream that has been declared. -/
def IsNamed (r : Registry) (name : String) : Prop :=
  ∃ isAdcTrace n, name = streamName isAdcTrace n ∧ n ≤ r.streams

/-- The saves that read a stream. -/
def savesOf (r : Registry) (name : String) : List SaveEntry :=
  r.saves.filter fun entry => entry.pipeline.sourceNames.contains name

/-- The streams that stand for tags are none of those that the script has declared, and their saves are
those of the first use of the tag. All other saves read streams of the script. -/
structure Sound (own : List String) (r : Registry) : Prop where
  named : ∀ name ∈ own, r.IsNamed name
  lookup : ∀ tag source, (tag, source) ∈ r.shorthands → r.shorthands.lookup tag = some source
  shorthand : ∀ tag source, (tag, source) ∈ r.shorthands → source.name ∉ own ∧
    ∃ role n, source = numberedStream (TagRole.isAdcTrace role) n ∧ n ≤ r.streams ∧
      r.savesOf source.name = role.saves tag source
  explicit : ∀ entry ∈ r.saves, entry.auto = false → ∀ name ∈ entry.pipeline.sourceNames, name ∈ own
  automatic : ∀ entry ∈ r.saves, entry.auto = true →
    ∃ tag source, (tag, source) ∈ r.shorthands ∧ entry.pipeline.sourceNames = [source.name]

theorem sound_initial : Sound [] ({} : Draft).registry where
  named _ h := nomatch h
  lookup _ _ h := nomatch h
  shorthand _ _ h := nomatch h
  explicit _ h := nomatch h
  automatic _ h := nomatch h

variable {own : List String} {r r' : Registry} {name : String}

theorem mem_of_lookup (h : r.shorthands.lookup tag = some source) : (tag, source) ∈ r.shorthands := by
  obtain ⟨before, after, hs, -⟩ := List.lookup_eq_some_iff.mp h
  rw [hs]
  exact List.mem_append_right before List.mem_cons_self

theorem IsNamed.mono (h : r.IsNamed name) (hs : r.streams ≤ r'.streams) : r'.IsNamed name := by
  obtain ⟨isAdcTrace, n, rfl, hn⟩ := h
  exact ⟨isAdcTrace, n, rfl, hn.trans hs⟩

theorem IsNamed.ne_next (h : r.IsNamed name) (isAdcTrace : Bool) : name ≠ (r.next isAdcTrace).name := by
  obtain ⟨_, n, rfl, hn⟩ := h
  intro he
  have hn' : n = r.streams + 1 := (streamName_injective he).2
  omega

/-- Saves only read streams that have been declared. -/
theorem Sound.reads_named (h : r.Sound own) {entry : SaveEntry} (he : entry ∈ r.saves)
    (hr : name ∈ entry.pipeline.sourceNames) : r.IsNamed name := by
  cases ha : entry.auto with
  | false => exact h.named name (h.explicit entry he ha name hr)
  | true =>
    obtain ⟨tag, source, hs, hn⟩ := h.automatic entry he ha
    obtain ⟨-, role, n, rfl, hle, -⟩ := h.shorthand tag source hs
    rw [hn, List.mem_singleton] at hr
    exact ⟨_, n, hr, hle⟩

theorem Sound.declared (h : r.Sound own) (isAdcTrace : Bool) :
    r.declared.Sound ((r.next isAdcTrace).name :: own) where
  named := List.forall_mem_cons.mpr ⟨⟨isAdcTrace, _, rfl, Nat.le_refl _⟩,
    fun name hn => (h.named name hn).mono (Nat.le_succ _)⟩
  lookup := h.lookup
  shorthand tag source hs := by
    obtain ⟨ho, role, n, rfl, hle, hsaves⟩ := h.shorthand tag source hs
    have hnamed : r.IsNamed (numberedStream role.isAdcTrace n).name := ⟨_, n, rfl, hle⟩
    refine ⟨?_, role, n, rfl, hle.trans (Nat.le_succ _), hsaves⟩
    rw [List.mem_cons, not_or]
    exact ⟨hnamed.ne_next isAdcTrace, ho⟩
  explicit entry he ha name hr := List.mem_cons_of_mem _ (h.explicit entry he ha name hr)
  automatic := h.automatic

theorem Sound.saved (h : r.Sound own) {entry : SaveEntry} (ha : entry.auto = false)
    (hr : ∀ name ∈ entry.pipeline.sourceNames, name ∈ own) : (r.saved entry).Sound own where
  named := h.named
  lookup := h.lookup
  shorthand tag source hs := by
    obtain ⟨ho, role, n, hsource, hle, hsaves⟩ := h.shorthand tag source hs
    refine ⟨ho, role, n, hsource, hle, ?_⟩
    have hn : source.name ∉ entry.pipeline.sourceNames := fun hn => ho (hr _ hn)
    rw [savesOf, Registry.saved, List.filter_append, ← savesOf, hsaves]
    simp [hn]
  explicit other he := by
    rw [Registry.saved, List.mem_append, List.mem_singleton] at he
    obtain he | rfl := he
    · exact h.explicit other he
    · exact fun _ => hr
  automatic other he ho := by
    rw [Registry.saved, List.mem_append, List.mem_singleton] at he
    obtain he | rfl := he
    · exact h.automatic other he ho
    · rw [ha] at ho
      nomatch ho

theorem Sound.tagged (h : r.Sound own) (role : TagRole) {tag : String}
    (hn : r.shorthands.lookup tag = none) : (r.tagged role tag).Sound own where
  named name ho := (h.named name ho).mono (Nat.le_succ _)
  lookup tag' source hs := by
    obtain hs | hs := List.mem_cons.mp hs
    · obtain ⟨rfl, rfl⟩ := Prod.mk.inj hs
      exact List.lookup_cons_self
    · have hl := h.lookup tag' source hs
      have hne : (tag' == tag) = false := by
        rw [beq_eq_false_iff_ne]
        rintro rfl
        rw [hn] at hl
        nomatch hl
      rw [Registry.tagged, List.lookup_cons, hne]
      exact hl
  shorthand tag' source hs := by
    obtain hs | hs := List.mem_cons.mp hs
    · -- The new stream: no save has read it before.
      obtain ⟨rfl, rfl⟩ := Prod.mk.inj hs
      refine ⟨fun ho => (h.named _ ho).ne_next role.isAdcTrace rfl, role, _, rfl, Nat.le_refl _, ?_⟩
      rw [savesOf, Registry.tagged, List.filter_append,
        List.filter_eq_nil_iff.mpr fun entry he => ?_, List.nil_append,
        List.filter_eq_self.mpr fun entry he => ?_]
      · simp [(TagRole.mem_saves he).2]
      · rw [List.contains_iff_mem]
        exact fun hr => (h.reads_named he hr).ne_next role.isAdcTrace rfl
    · obtain ⟨ho, role', n, rfl, hle, hsaves⟩ := h.shorthand tag' source hs
      refine ⟨ho, role', n, rfl, hle.trans (Nat.le_succ _), ?_⟩
      have hnamed : r.IsNamed (numberedStream role'.isAdcTrace n).name := ⟨_, n, rfl, hle⟩
      rw [savesOf, Registry.tagged, List.filter_append, ← savesOf, hsaves,
        List.filter_eq_nil_iff.mpr fun entry he => ?_, List.append_nil]
      rw [(TagRole.mem_saves he).2]
      simpa using hnamed.ne_next role.isAdcTrace
  explicit entry he ha := by
    obtain he | he := List.mem_append.mp he
    · exact h.explicit entry he ha
    · rw [(TagRole.mem_saves he).1] at ha
      nomatch ha
  automatic entry he ha := by
    obtain he | he := List.mem_append.mp he
    · obtain ⟨tag', source, hs, hr⟩ := h.automatic entry he ha
      exact ⟨tag', source, List.mem_cons_of_mem _ hs, hr⟩
    · exact ⟨tag, _, List.mem_cons_self, (TagRole.mem_saves he).2⟩

theorem Sound.usesTags (h : r.Sound own) (hr : r.UsesTags r') : r'.Sound own := by
  induction hr with
  | refl r => exact h
  | first role tag hn _ _ ih => exact ih (h.tagged role hn)

end Registry

-- ---------------------------------------------------------------------------
-- Runs
-- ---------------------------------------------------------------------------

/-- The streams that a pipeline reads that is registered to be saved. -/
def Event.reads : Event → List String
  | .call (.request (.registerSave _ _ pipeline)) _ => pipeline.sourceNames
  | _ => []

/-- The name of the stream that is answered. -/
def Answer.streams : Answer → List String
  | .ok outcome => outcome.stream?.toList.map ResultSource.name
  | .error _ => []

namespace Session

/-- The pipelines that a script registers read streams that it has declared itself before. -/
def ReadsOwn : List String → List (Event × Answer) → Prop
  | _, [] => True
  | own, (event, answer) :: rest =>
    (∀ name ∈ event.reads, name ∈ own) ∧ ReadsOwn (Answer.streams answer ++ own) rest

instance decidableReadsOwn :
    (own : List String) → (transcript : List (Event × Answer)) → Decidable (ReadsOwn own transcript)
  | _, [] => isTrue trivial
  | own, (_, answer) :: rest =>
    have := decidableReadsOwn (Answer.streams answer ++ own) rest
    inferInstanceAs (Decidable (_ ∧ _))

end Session

theorem Registry.Sound.records {own : List String} {r r' : Registry} {event : Event} {outcome : Outcome}
    (h : r.Sound own) (ho : ∀ name ∈ event.reads, name ∈ own) (hr : event.Records r r' outcome) :
    r'.Sound (Answer.streams (.ok outcome) ++ own) := by
  have htags (hr : outcome.stream? = none ∧ r.UsesTags r') :
      r'.Sound (Answer.streams (.ok outcome) ++ own) := by
    rw [Answer.streams, hr.1]
    exact h.usesTags hr.2
  match event, hr with
  | .close number, hr => exact htags hr
  | .drop number, hr => exact htags hr
  | .call (.leaf _) _, hr => exact htags hr
  | .call (.loopCondition _) _, hr => exact htags hr
  | .call (.enter _) _, hr => exact htags hr
  | .call (.request asked) _, hr =>
    cases asked with
    | declareStream isAdcTrace =>
      obtain ⟨rfl, rfl⟩ := hr
      exact h.declared isAdcTrace
    | registerSave kind tag pipeline =>
      obtain ⟨hs, -, rfl⟩ := hr
      rw [Answer.streams, hs]
      exact h.saved rfl ho
    | _ => exact htags hr

namespace Session

/-- What is known of the streams of a session holds as long as it has not failed. -/
theorem run_sound (events : List Event) {own : List String} (hd : d.site.Scoped)
    (hr : d.registry.Sound own) (ho : ReadsOwn own (events.zip (run events ⟨d, none⟩).1))
    (hp : (run events ⟨d, none⟩).2.poison = none) :
    ∃ t own', (run events ⟨d, none⟩).2 = ⟨t, none⟩ ∧ t.registry.Sound own' ∧ own ⊆ own' ∧
      ∀ source, .ok (.stream source) ∈ (run events ⟨d, none⟩).1 → source.name ∈ own' := by
  induction events generalizing d own with
  | nil => exact ⟨d, own, rfl, hr, List.Subset.refl _, fun _ h => nomatch h⟩
  | cons event events ih =>
    rw [run_cons] at ho hp ⊢
    rw [List.zip_cons_cons, ReadsOwn] at ho
    obtain ⟨outcome, t, hrun, hm⟩ | ⟨answer, d', e, hrun, -⟩ := event.perform_cases hd
    · have hrecords := Event.perform_records hrun
      rw [hrun] at ho hp ⊢
      obtain ⟨u, own', hu, hsound, hsub, hanswers⟩ :=
        ih (hm.scoped hd) (hr.records ho.1 hrecords) ho.2 hp
      refine ⟨u, own', hu, hsound, fun name hn => hsub (List.mem_append_right _ hn), fun source hs => ?_⟩
      obtain hs | hs := List.mem_cons.mp hs
      · obtain rfl := Except.ok.inj hs
        exact hsub List.mem_cons_self
      · exact hanswers source hs
    · rw [hrun, run_poisoned] at hp
      nomatch hp

end Session

/-- What is known of the streams of a draft decides which of them are taken for tags. -/
theorem Registry.Sound.shorthand? {own : List String} {d : Draft} (h : d.registry.Sound own)
    (name tag : String) : d.program.shorthand? name = some tag ↔
      ∃ source, d.shorthands.lookup tag = some source ∧ source.name = name := by
  have hfound {tag : String} {source : ResultSource} (hs : (tag, source) ∈ d.shorthands) :
      d.program.shorthand? source.name = some tag := by
    obtain ⟨-, role, n, rfl, -, hrole⟩ := h.shorthand tag source hs
    exact role.shorthand?_of_saves tag n hrole
  constructor
  · intro hname
    have hauto : (d.program.savesOf name).all SaveEntry.auto = true := by
      by_contra hn
      rw [Program.shorthand?, if_neg hn] at hname
      nomatch hname
    obtain ⟨entry, he⟩ : ∃ entry, entry ∈ d.program.savesOf name := by
      refine List.exists_mem_of_ne_nil _ fun hn => ?_
      rw [Program.shorthand?, hn] at hname
      nomatch hname
    obtain ⟨hmem, hreads⟩ := List.mem_filter.mp he
    obtain ⟨tag', source, hs, hn⟩ := h.automatic entry hmem (List.all_eq_true.mp hauto entry he)
    obtain rfl : name = source.name := by simpa [hn] using hreads
    obtain rfl : tag' = tag := Option.some.inj ((hfound hs).symm.trans hname)
    exact ⟨source, h.lookup tag' source hs, rfl⟩
  · rintro ⟨source, hl, rfl⟩
    exact hfound (mem_of_lookup (r := d.registry) hl)

namespace Session

theorem finish_eq_ok {s : Session} :
    s.finish = .ok p ↔ s.poison = none ∧ s.draft.scopes.length ≤ 1 ∧ s.draft.program = p := by
  cases hs : s.poison with
  | some reason => simp [finish, hs]
  | none =>
    by_cases hl : 1 < s.draft.scopes.length
    · simp [finish, finishDraft, hs, hl]
    · simp [finish, finishDraft, hs, hl, Nat.le_of_not_lt hl]

/-- In a finished program whose registered pipelines read streams of its own, exactly the streams that
were declared on behalf of a tag are taken for one, each for its tag, whatever the tags and the uses of
them are; a stream that the script has declared is never taken for a tag. -/
theorem shorthands_recovered (events : List Event) {p : Program} (ho : ReadsOwn [] (transcript events))
    (hf : (run events {}).2.finish = .ok p) :
    (∀ name tag, p.shorthand? name = some tag ↔
      ∃ source, (run events {}).2.draft.shorthands.lookup tag = some source ∧ source.name = name) ∧
    ∀ source, .ok (.stream source) ∈ (run events {}).1 → p.shorthand? source.name = none := by
  obtain ⟨hp, -, rfl⟩ := finish_eq_ok.mp hf
  obtain ⟨d, own, hs, hsound, -, hanswers⟩ :=
    run_sound events Site.scoped_initial Registry.sound_initial ho hp
  replace hs : (run events {}).2 = ⟨d, none⟩ := hs
  rw [hs]
  refine ⟨hsound.shorthand?, fun source hsource => ?_⟩
  rw [Option.eq_none_iff_forall_ne_some]
  intro tag ht
  obtain ⟨declared, hl, hn⟩ := (hsound.shorthand? source.name tag).mp ht
  exact (hsound.shorthand tag declared (Registry.mem_of_lookup hl)).1 (hn ▸ hanswers source hsource)

/-- A declared stream that is saved as `a`, and three tags that are easily taken for one another's. -/
def alikeTags : List Event := [.call (.request (.declareStream false)) "1",
  .call (.leaf (.measure "readout" "q"
    { stream := some (.tag "a_timestamps"), timestampStream := some (.tag "") })) "2",
  .call (.request (.registerSave .saveAll "a" (numberedStream false 1).token)) "3",
  .call (.leaf (.save (.int 1) (.tag "a_input1"))) "4"]

theorem shorthands_recovered_alike :
    ∃ p, (run alikeTags {}).2.finish = .ok p ∧ ReadsOwn [] (transcript alikeTags) ∧
      p.shorthand? "r1" = none ∧ p.shorthand? "atr_r2" = some "a_timestamps" ∧
      p.shorthand? "r3" = some "" ∧ p.shorthand? "r4" = some "a_input1" := by
  have hf : (run alikeTags {}).2.finish = .ok (run alikeTags {}).2.draft.program :=
    finish_eq_ok.mpr ⟨by decide +kernel, by decide +kernel, rfl⟩
  have h := shorthands_recovered alikeTags (by decide +kernel) hf
  refine ⟨_, hf, by decide +kernel, h.2 (numberedStream false 1) ?_,
    (h.1 _ _).mpr ⟨numberedStream true 2, by decide +kernel, by decide +kernel⟩,
    (h.1 _ _).mpr ⟨numberedStream false 3, by decide +kernel, by decide +kernel⟩,
    (h.1 _ _).mpr ⟨numberedStream false 4, by decide +kernel, by decide +kernel⟩⟩
  rw [alikeTags, run_cons]
  exact List.mem_cons_self

end Session
end Qua
