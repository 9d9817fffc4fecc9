import Qua.Proofs.RoundTrip.Widening
import Qua.Proofs.Replay.Results

/-!
# What is made of handles

What a script composes of the handles that it has been given is over the variables and arrays, and reads the
streams, of its session. Main statements: `Expression.MadeOf.over`, `StreamToken.MadeOf.pipeline`,
`MeasureProcess.MadeOf.grounded`.
-/

namespace Qua

/-- Everything that has been given is over the variables and arrays, and the streams are those of the
script. -/
structure Grounds (hs : List (String × Expression)) (own : List String) (given : List Outcome) : Prop where
  expressions : ∀ e, .expression e ∈ given → e.Over hs
  sources : ∀ source, .stream source ∈ given →
    source.name ∈ own ∧ source.isAdcTrace = ResultSource.isTraceName source.name

section

variable {hs : List (String × Expression)} {own : List String} {given : List Outcome}

-- ---------------------------------------------------------------------------
-- Expressions
-- ---------------------------------------------------------------------------

namespace Expression

variable {e whole i : Expression}

theorem Over.index (hw : whole.Over hs) (hi : i.Over hs) (h : whole.index i = .ok e) : e.Over hs := by
  cases whole with
  | array name =>
    simp only [Expression.index] at h
    split at h
    · next hscalar =>
      obtain rfl := Except.ok.inj h
      refine ⟨⟨hw.array.1, hscalar, hi.writable⟩, ?_⟩
      rw [Expression.handles, List.cons_subset]
      exact ⟨hw.array.2, hi.handles⟩
    · cases h
  | _ => cases h

theorem Over.length (hw : whole.Over hs) (h : whole.lengthOf = .ok e) : e.Over hs := by
  cases whole with
  | array name =>
    obtain rfl := Except.ok.inj h
    exact ⟨hw.array.1, by simpa [Expression.handles] using hw.array.2⟩
  | _ => cases h

theorem over_call {arguments : List Expression} (ha : Library.arity? library function = some arguments.length)
    (h : ∀ e ∈ arguments, e.Over hs) : (Expression.call library function arguments).Over hs := by
  have hall : AllWritable arguments ∧ handlesOfAll arguments ⊆ hs := by
    clear ha
    induction arguments with
    | nil => exact ⟨trivial, List.nil_subset _⟩
    | cons e rest ih =>
      obtain ⟨he, hrest⟩ := List.forall_mem_cons.mp h
      obtain ⟨hw, hh⟩ := ih hrest
      refine ⟨⟨he.writable, hw⟩, ?_⟩
      rw [handlesOfAll, List.append_subset]
      exact ⟨he.handles, hh⟩
  exact ⟨⟨ha, hall.1⟩, hall.2⟩

/-- What is made of handles that are over the variables and arrays is so too. -/
theorem MadeOf.over (h : e.MadeOf given) (hg : Grounds hs own given) : e.Over hs := by
  induction h with
  | handle h => exact hg.expressions _ h
  | literal h => exact over_literal h
  | register r => exact ⟨trivial, by simp [Expression.handles]⟩
  | binary op _ _ ihl ihr => exact over_binary.mpr ⟨ihl, ihr⟩
  | index _ _ h ihw ihi => exact ihw.index ihi h
  | length _ h ihw => exact ihw.length h

end Expression

-- ---------------------------------------------------------------------------
-- Streams
-- ---------------------------------------------------------------------------

theorem ResultSource.MadeOf.name_mem {source : ResultSource} (h : source.MadeOf given)
    (hg : ∀ source, .stream source ∈ given → source.name ∈ own) : source.name ∈ own := by
  induction h with
  | handle h => exact hg _ h
  | timestamps _ ih | withTimestamps _ ih | input1 _ ih | input2 _ ih | reshaped _ ih => exact ih

theorem ResultSource.MadeOf.grounded {source : ResultSource} (h : source.MadeOf given)
    (hg : Grounds hs own given) :
    source.name ∈ own ∧ source.isAdcTrace = isTraceName source.name := by
  induction h with
  | handle h => exact hg.sources _ h
  | timestamps _ ih | withTimestamps _ ih | input1 _ ih | input2 _ ih | reshaped _ ih => exact ih

namespace StreamToken

section

variable {item argument : Rendering} {arguments : List Rendering} {name text : String}

theorem pipeline_of_method (h : item.method name = .ok text) : ∃ parent, item.pipeline = .ok parent :=
  (except_bind_eq_ok.mp h).imp fun _ h => h.1

theorem pipeline_of_methodOnAtoms (h : item.methodOnAtoms name arguments = .ok text) :
    ∃ parent, item.pipeline = .ok parent :=
  (except_bind_eq_ok.mp h).imp fun _ h => h.1

theorem pipelines_of_methodOn (h : item.methodOn name argument = .ok text) :
    (∃ parent, item.pipeline = .ok parent) ∧ ∃ other, argument.pipeline = .ok other := by
  obtain ⟨parent, hp, h⟩ := except_bind_eq_ok.mp h
  obtain ⟨other, ho, -⟩ := except_bind_eq_ok.mp h
  exact ⟨⟨parent, hp⟩, other, ho⟩

end

/-- The operands of arithmetic that has a text have texts. -/
theorem operands_of_arithmetic {left right : StreamOperand} {op : ArithmeticOperator} {text : String}
    (h : HasText (arithmetic op left right) text) :
    (∃ l, HasText left.token l) ∧ ∃ r, HasText right.token r := by
  have hrun : Rendering.arithmetic op.symbol left.token.rendering right.token.rendering = .ok text := by
    rw [HasText, arithmetic, pipeline_operator] at h
    rw [← h]
    cases op <;> rfl
  obtain ⟨l, hl, hrun⟩ := except_bind_eq_ok.mp hrun
  obtain ⟨r, hr, -⟩ := except_bind_eq_ok.mp hrun
  exact ⟨⟨l, hl⟩, r, hr⟩

/-- The pipeline can be written, over streams of the script. -/
def IsPipeline (own : List String) (token : StreamToken) : Prop :=
  ∃ pipeline : Pipeline, token = pipeline.token ∧ pipeline.Writable ∧
    ∀ source ∈ pipeline.sources, source.name ∈ own ∧
      source.isAdcTrace = ResultSource.isTraceName source.name

/-- A token that is composed by operators and has a text is a pipeline: its buffers have dimensions. -/
theorem MadeOf.pipeline {token : StreamToken} (h : token.MadeOf given) (hg : Grounds hs own given) :
    ∀ text, HasText token text → token.IsPipeline own := by
  induction h with
  | source h => exact fun _ _ => ⟨.source _, rfl, trivial, List.forall_mem_singleton.mpr (h.grounded hg)⟩
  | average _ ih =>
    intro text ht
    rw [HasText, StreamToken.average, apply, pipeline_operator] at ht
    obtain ⟨parent, hp⟩ := pipeline_of_method ht
    obtain ⟨pipeline, rfl, hw, hs⟩ := ih parent hp
    exact ⟨.average pipeline, rfl, hw, hs⟩
  | @buffer _ dimensions _ hd ih =>
    intro text ht
    cases dimensions with
    | nil =>
      rw [HasText, StreamToken.buffer, apply, pipeline_operator] at ht
      cases ht
    | cons first others =>
      rw [HasText, pipeline_buffer] at ht
      obtain ⟨parent, hp⟩ := pipeline_of_methodOnAtoms ht
      obtain ⟨pipeline, rfl, hw, hs⟩ := ih parent hp
      exact ⟨.buffer first others pipeline, rfl, ⟨hd, hw⟩, hs⟩
  | bufferAndSkip _ hl hk ih =>
    intro text ht
    rw [HasText, StreamToken.bufferAndSkip, apply, pipeline_operator] at ht
    obtain ⟨parent, hp⟩ := pipeline_of_methodOnAtoms ht
    obtain ⟨pipeline, rfl, hw, hs⟩ := ih parent hp
    exact ⟨.bufferAndSkip _ _ pipeline, rfl, ⟨hl, hk, hw⟩, hs⟩
  | map _ hf ih =>
    intro text ht
    rw [HasText, StreamToken.map, apply, pipeline_operator] at ht
    obtain ⟨parent, hp, -⟩ := except_bind_eq_ok.mp ht
    obtain ⟨pipeline, rfl, hw, hs⟩ := ih parent hp
    exact ⟨.map _ pipeline, rfl, ⟨hf, hw⟩, hs⟩
  | flatten _ ih =>
    intro text ht
    rw [HasText, StreamToken.flatten, apply, pipeline_operator] at ht
    obtain ⟨parent, hp⟩ := pipeline_of_method ht
    obtain ⟨pipeline, rfl, hw, hs⟩ := ih parent hp
    exact ⟨.flatten pipeline, rfl, hw, hs⟩
  | skip _ hl ih =>
    intro text ht
    rw [HasText, StreamToken.skip, apply, pipeline_operator] at ht
    obtain ⟨parent, hp⟩ := pipeline_of_methodOnAtoms ht
    obtain ⟨pipeline, rfl, hw, hs⟩ := ih parent hp
    exact ⟨.skip _ pipeline, rfl, ⟨hl, hw⟩, hs⟩
  | skipLast _ hl ih =>
    intro text ht
    rw [HasText, StreamToken.skipLast, apply, pipeline_operator] at ht
    obtain ⟨parent, hp⟩ := pipeline_of_methodOnAtoms ht
    obtain ⟨pipeline, rfl, hw, hs⟩ := ih parent hp
    exact ⟨.skipLast _ pipeline, rfl, ⟨hl, hw⟩, hs⟩
  | take _ hl ih =>
    intro text ht
    rw [HasText, StreamToken.take, apply, pipeline_operator] at ht
    obtain ⟨parent, hp⟩ := pipeline_of_methodOnAtoms ht
    obtain ⟨pipeline, rfl, hw, hs⟩ := ih parent hp
    exact ⟨.take _ pipeline, rfl, ⟨hl, hw⟩, hs⟩
  | histogram _ hb ih =>
    intro text ht
    rw [HasText, StreamToken.histogram, apply, pipeline_operator] at ht
    obtain ⟨⟨parent, hp⟩, -⟩ := pipelines_of_methodOn ht
    obtain ⟨pipeline, rfl, hw, hs⟩ := ih parent hp
    exact ⟨.histogram _ pipeline, rfl, ⟨hb, hw⟩, hs⟩
  | zip _ _ iho ih =>
    intro text ht
    rw [HasText, StreamToken.zip, apply, pipeline_operator] at ht
    obtain ⟨⟨parent, hp⟩, other, ho⟩ := pipelines_of_methodOn ht
    obtain ⟨pipeline, rfl, hw, hs⟩ := ih parent hp
    obtain ⟨pipeline', rfl, hw', hs'⟩ := iho other ho
    exact ⟨.zip pipeline' pipeline, rfl, ⟨hw', hw⟩, List.forall_mem_append.mpr ⟨hs', hs⟩⟩
  | arithmetic op _ _ ihl ihr =>
    intro text ht
    obtain ⟨⟨l, hl⟩, r, hr⟩ := operands_of_arithmetic ht
    obtain ⟨left, rfl, hw, hs⟩ := ihl l hl
    obtain ⟨right, rfl, hw', hs'⟩ := ihr r hr
    exact ⟨.arithmetic op left right, rfl, ⟨hw, hw'⟩, List.forall_mem_append.mpr ⟨hs, hs'⟩⟩
  | arithmeticLeft op _ hc ih =>
    intro text ht
    obtain ⟨⟨l, hl⟩, -⟩ := operands_of_arithmetic ht
    obtain ⟨left, rfl, hw, hs⟩ := ih l hl
    exact ⟨.arithmeticLeft op left _, rfl, ⟨hw, hc⟩, hs⟩
  | arithmeticRight op hc _ ih =>
    intro text ht
    obtain ⟨-, r, hr⟩ := operands_of_arithmetic ht
    obtain ⟨right, rfl, hw, hs⟩ := ih r hr
    exact ⟨.arithmeticRight op _ right, rfl, ⟨hc, hw⟩, hs⟩

/-- The streams that a pipeline reads have been given. -/
theorem MadeOf.reads {token : StreamToken} (h : token.MadeOf given)
    (hg : ∀ source, .stream source ∈ given → source.name ∈ own) : ∀ name ∈ token.sourceNames, name ∈ own := by
  have happly {operator : String} (ho : operator ≠ sourceSymbol) {arguments : List StreamToken}
      (ha : ∀ t ∈ arguments, t.sourceNames = []) {parent : StreamToken}
      (h : ∀ name ∈ parent.sourceNames, name ∈ own) :
      ∀ name ∈ (apply operator arguments parent).sourceNames, name ∈ own := by
    rwa [sourceNames_apply ho ha]
  induction h with
  | source h =>
    rw [ResultSource.sourceNames_token, List.forall_mem_singleton]
    exact h.name_mem hg
  | average _ ih | flatten _ ih => exact happly (by decide) (by simp) ih
  | buffer _ _ ih => exact happly (by decide) (by simp [sourceNames_integer]) ih
  | bufferAndSkip _ _ _ ih | skip _ _ ih | skipLast _ _ ih | take _ _ ih =>
    exact happly (by decide) (by simp [sourceNames_integer]) ih
  | map _ _ ih => exact happly (by decide) (by simp [sourceNames_function]) ih
  | histogram _ _ ih => exact happly (by decide) (by simp [sourceNames_bins]) ih
  | zip _ _ iho ih =>
    rw [StreamToken.zip, apply, sourceNames_operator (by decide)]
    simpa [sourceNamesOfItems] using List.forall_mem_append.mpr ⟨iho, ih⟩
  | arithmetic op _ _ ihl ihr =>
    rw [sourceNames_arithmetic]
    exact List.forall_mem_append.mpr ⟨ihl, ihr⟩
  | arithmeticLeft op _ _ ih =>
    rw [sourceNames_arithmetic, sourceNames_constant, List.append_nil]
    exact ih
  | arithmeticRight op _ _ ih =>
    rw [sourceNames_arithmetic, sourceNames_constant, List.nil_append]
    exact ih

theorem IsPipeline.mono {token : StreamToken} (h : token.IsPipeline own) (hsub : own ⊆ own') :
    token.IsPipeline own' := by
  obtain ⟨pipeline, he, hw, hs⟩ := h
  exact ⟨pipeline, he, hw, fun source hm => ⟨hsub (hs source hm).1, (hs source hm).2⟩⟩

end StreamToken

-- ---------------------------------------------------------------------------
-- Measure processes
-- ---------------------------------------------------------------------------

theorem ProcessTarget.arrayOf_over {e : Expression} (he : e.Over hs) (h : arrayOf e = .ok name) :
    (Expression.array name).Over hs := by
  cases e with
  | array name' =>
    obtain rfl := Except.ok.inj h
    exact he
  | _ => cases h

theorem ProcessTarget.variableOf_over {e : Expression} (he : e.Over hs) (h : variableOf e = .ok name) :
    (Expression.named name).Over hs := by
  cases e with
  | var v =>
    cases v with
    | named name' =>
      obtain rfl := Except.ok.inj h
      exact he
    | io r => cases h
  | _ => cases h

/-- The target is over the variables and arrays, and can be written. -/
theorem ProcessTarget.MadeOf.grounded {target : ProcessTarget} (h : target.MadeOf given)
    (hg : Grounds hs own given) :
    target.expression.Over hs ∧ (∀ n ∈ target.integers, n ≠ Int64.minValue) ∧ target.Placed := by
  cases h with
  | @full e _ he h =>
    have hover := he.over hg
    cases e with
    | var | cell =>
      obtain rfl := Except.ok.inj h
      exact ⟨hover, by simp [integers], trivial⟩
    | _ => cases h
  | sliced he hn h =>
    obtain ⟨name, ha, rfl⟩ := except_map_eq_ok.mp h
    exact ⟨arrayOf_over (he.over hg) ha, by simpa [integers] using hn, trivial⟩
  | accumulated he hn h =>
    obtain ⟨name, ha, rfl⟩ := except_map_eq_ok.mp h
    exact ⟨arrayOf_over (he.over hg) ha, by simpa [integers] using hn, trivial⟩
  | movingWindow he hn hc h =>
    obtain ⟨name, ha, rfl⟩ := except_map_eq_ok.mp h
    exact ⟨arrayOf_over (he.over hg) ha, by simpa [integers] using ⟨hn, hc⟩, trivial⟩

/-- The process is over the variables and arrays, and can be written. -/
theorem MeasureProcess.MadeOf.grounded {process : MeasureProcess} (h : process.MadeOf given)
    (hg : Grounds hs own given) :
    (∀ e ∈ process.expressions, e.Over hs) ∧ (∀ n ∈ process.integers, n ≠ Int64.minValue) ∧
      process.Placed := by
  cases h with
  | analog kind weights ht =>
    obtain ⟨he, hn, hp⟩ := ht.grounded hg
    exact ⟨List.forall_mem_singleton.mpr he, hn, hp⟩
  | timeTagging he hl hn h =>
    obtain ⟨target, ht, h⟩ := except_bind_eq_ok.mp h
    obtain ⟨length?, hlength, h⟩ := except_bind_eq_ok.mp h
    obtain rfl := Except.ok.inj h
    refine ⟨List.forall_mem_cons.mpr ⟨ProcessTarget.arrayOf_over (he.over hg) ht, ?_⟩,
      List.forall_mem_singleton.mpr hn, trivial⟩
    intro e he
    obtain ⟨name, hname, rfl⟩ := List.mem_map.mp he
    obtain rfl := Option.mem_toList.mp hname
    rcases hlength' : ‹Option Expression› with _ | l
    · rw [hlength'] at hlength
      cases hlength
    · rw [hlength'] at hlength hl
      obtain ⟨name', hn', hname'⟩ := except_map_eq_ok.mp hlength
      obtain rfl := Option.some.inj hname'
      exact ProcessTarget.variableOf_over ((hl l rfl).over hg) hn'
  | counting he hn h =>
    obtain ⟨target, ht, h⟩ := except_bind_eq_ok.mp h
    obtain rfl := Except.ok.inj h
    exact ⟨List.forall_mem_singleton.mpr (ProcessTarget.variableOf_over (he.over hg) ht),
      List.forall_mem_singleton.mpr hn, trivial⟩

end
end Qua
