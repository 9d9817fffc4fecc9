import Qua.Proofs.Renaming
import Qua.Proofs.Stream.Pipeline

/-!
# Pipelines with renamed streams

The names in the token of a pipeline are those of its sources, in their order. Renaming them in the
token is renaming the sources (`Pipeline.token_renamed`).
-/

namespace Qua

namespace StreamToken

variable {operator : String} {f : String → String}

theorem sourceNames_operator (h : operator ≠ sourceSymbol) (items : List StreamToken) :
    sourceNames (.list (.atom operator :: items)) = sourceNamesOfItems items := by
  by_cases hs : ∃ mode name, items = [mode, .atom name]
  · obtain ⟨mode, name, rfl⟩ := hs
    simp [sourceNames, sourceNamesOfItems, h]
  · rw [sourceNames]
    · rfl
    · rintro symbol mode name he
      exact hs ⟨mode, name, (List.cons.inj he).2⟩

theorem mapSources_operator (h : operator ≠ sourceSymbol) (items : List StreamToken) :
    mapSources f (.list (.atom operator :: items)) = .list (.atom operator :: mapSourcesOfItems f items) := by
  by_cases hs : ∃ mode name, items = [mode, .atom name]
  · obtain ⟨mode, name, rfl⟩ := hs
    simp [mapSources, mapSourcesOfItems, h]
  · rw [mapSources]
    · rfl
    · rintro symbol mode name he
      exact hs ⟨mode, name, (List.cons.inj he).2⟩

theorem mapSources_of_sourceless {t : StreamToken} (h : t.sourceNames = []) : t.mapSources f = t := by
  have hid := t.mapSources_id
  rwa [mapSources_congr t (g := f) (by simp [h])] at hid

theorem sourceNamesOfItems_atoms {items : List StreamToken} (h : ∀ t ∈ items, t.sourceNames = []) :
    sourceNamesOfItems items = [] := by
  induction items with
  | nil => rfl
  | cons t rest ih =>
    rw [List.forall_mem_cons] at h
    rw [sourceNamesOfItems, h.1, ih h.2, List.append_nil]

/-- An operator whose arguments have no sources. -/
theorem sourceNames_sourceless (h : operator ≠ sourceSymbol) {items : List StreamToken}
    (hi : ∀ t ∈ items, t.sourceNames = []) : sourceNames (.list (.atom operator :: items)) = [] := by
  rw [sourceNames_operator h, sourceNamesOfItems_atoms hi]

theorem sourceNames_integer (n : Int64) : (integer n).sourceNames = [] := rfl

theorem sourceNames_number (x : StreamNumber) : (number x).sourceNames = [] := by
  cases x with
  | int n => rfl
  | fixed x =>
    rw [number]
    split <;> rfl

theorem sourceNames_vector (values : List StreamNumber) : (vector values).sourceNames = [] := by
  refine sourceNames_sourceless (by decide) fun t ht => ?_
  obtain ⟨x, -, rfl⟩ := List.mem_map.mp ht
  exact sourceNames_number x

theorem sourceNames_weight (weight : DemodWeight) : weight.token.sourceNames = [] := by
  cases weight with
  | scalar value => exact sourceNames_number value
  | vector values => exact sourceNames_vector values

theorem sourceNames_mode (mode : Option ConvolutionMode) :
    (StreamFunction.modeToken mode).sourceNames = [] := by
  cases mode <;> rfl

theorem sourceNames_function (function : StreamFunction) : function.token.sourceNames = [] := by
  cases function with
  | average => exact sourceNames_sourceless (by decide) (by simp)
  | averageAxis axis => exact sourceNames_sourceless (by decide) (by simp [sourceNames_integer])
  | averageAxes axes => exact sourceNames_sourceless (by decide) (by simp [sourceNames_vector])
  | dotProduct values => exact sourceNames_sourceless (by decide) (by simp [sourceNames_vector])
  | tupleDotProduct => exact sourceNames_sourceless (by decide) (by simp)
  | multiplyBy scalar => exact sourceNames_sourceless (by decide) (by simp [sourceNames_number])
  | multiplyByVector values => exact sourceNames_sourceless (by decide) (by simp [sourceNames_vector])
  | tupleMultiply => exact sourceNames_sourceless (by decide) (by simp)
  | convolution values mode =>
    exact sourceNames_sourceless (by decide) (by simp [sourceNames_vector, sourceNames_mode])
  | tupleConvolution mode => exact sourceNames_sourceless (by decide) (by simp [sourceNames_mode])
  | fft output => cases output <;> exact sourceNames_sourceless (by decide) (by simp [sourceNames])
  | booleanToInt => exact sourceNames_sourceless (by decide) (by simp)
  | demod frequency cosine sine integrate =>
    refine sourceNames_sourceless (by decide) ?_
    cases integrate <;> simp [sourceNames_number, sourceNames_weight, sourceNames]

theorem mapSourcesOfItems_append (items items' : List StreamToken) :
    mapSourcesOfItems f (items ++ items') = mapSourcesOfItems f items ++ mapSourcesOfItems f items' := by
  induction items with
  | nil => rfl
  | cons t rest ih => rw [List.cons_append, mapSourcesOfItems, ih, mapSourcesOfItems, List.cons_append]

theorem sourceNamesOfItems_append (items items' : List StreamToken) :
    sourceNamesOfItems (items ++ items') = sourceNamesOfItems items ++ sourceNamesOfItems items' := by
  induction items with
  | nil => rfl
  | cons t rest ih =>
    rw [List.cons_append, sourceNamesOfItems, ih, sourceNamesOfItems, List.append_assoc]

theorem mapSourcesOfItems_sourceless {items : List StreamToken} (h : ∀ t ∈ items, t.sourceNames = []) :
    mapSourcesOfItems f items = items := by
  induction items with
  | nil => rfl
  | cons t rest ih =>
    rw [List.forall_mem_cons] at h
    rw [mapSourcesOfItems, mapSources_of_sourceless h.1, ih h.2]

/-- An operator whose only sources are those of its stream. -/
theorem sourceNames_apply (h : operator ≠ sourceSymbol) {arguments : List StreamToken}
    (ha : ∀ t ∈ arguments, t.sourceNames = []) (parent : StreamToken) :
    (apply operator arguments parent).sourceNames = parent.sourceNames := by
  rw [apply, sourceNames_operator h, sourceNamesOfItems_append, sourceNamesOfItems_atoms ha,
    List.nil_append, sourceNamesOfItems, sourceNamesOfItems, List.append_nil]

theorem mapSources_apply (h : operator ≠ sourceSymbol) {arguments : List StreamToken}
    (ha : ∀ t ∈ arguments, t.sourceNames = []) (parent : StreamToken) :
    (apply operator arguments parent).mapSources f = apply operator arguments (parent.mapSources f) := by
  rw [apply, mapSources_operator h, mapSourcesOfItems_append, mapSourcesOfItems_sourceless ha]
  rfl

theorem sourceNames_arithmetic (operator : ArithmeticOperator) (left right : StreamOperand) :
    (arithmetic operator left right).sourceNames = left.token.sourceNames ++ right.token.sourceNames := by
  rw [arithmetic, sourceNames_operator (by cases operator <;> decide), sourceNamesOfItems,
    sourceNamesOfItems, sourceNamesOfItems, List.append_nil]

theorem mapSources_arithmetic (operator : ArithmeticOperator) (left right : StreamOperand) :
    (arithmetic operator left right).mapSources f =
      .list [.atom operator.symbol, left.token.mapSources f, right.token.mapSources f] := by
  rw [arithmetic, mapSources_operator (by cases operator <;> decide), mapSourcesOfItems,
    mapSourcesOfItems, mapSourcesOfItems]

end StreamToken

/-- The same stream under another name. -/
def ResultSource.renamed (f : String → String) (source : ResultSource) : ResultSource :=
  { source with name := f source.name }

open StreamToken

theorem ResultSource.token_renamed (f : String → String) (source : ResultSource) :
    (source.renamed f).token = source.token.mapSources f := by
  obtain ⟨name, isAdcTrace, mode, input, autoReshape⟩ := source
  cases input <;> cases autoReshape <;> cases isAdcTrace <;>
    simp [token, renamed, mapSourcesOfItems, mapSources, inputSymbol, autoReshapeSymbol, adcTraceSymbol,
      sourceSymbol]

theorem ResultSource.sourceNames_token (source : ResultSource) : source.token.sourceNames = [source.name] := by
  obtain ⟨name, isAdcTrace, mode, input, autoReshape⟩ := source
  cases input <;> cases autoReshape <;> cases isAdcTrace <;>
    simp [token, sourceNamesOfItems, sourceNames, inputSymbol, autoReshapeSymbol, adcTraceSymbol,
      sourceSymbol]

namespace Pipeline

def renamed (f : String → String) : Pipeline → Pipeline
  | .source read => .source (read.renamed f)
  | .average parent => .average (parent.renamed f)
  | .buffer first others parent => .buffer first others (parent.renamed f)
  | .bufferAndSkip length skipped parent => .bufferAndSkip length skipped (parent.renamed f)
  | .map function parent => .map function (parent.renamed f)
  | .flatten parent => .flatten (parent.renamed f)
  | .skip length parent => .skip length (parent.renamed f)
  | .skipLast length parent => .skipLast length (parent.renamed f)
  | .take length parent => .take length (parent.renamed f)
  | .histogram bins parent => .histogram bins (parent.renamed f)
  | .zip other parent => .zip (other.renamed f) (parent.renamed f)
  | .arithmetic operator left right => .arithmetic operator (left.renamed f) (right.renamed f)
  | .arithmeticLeft operator left right => .arithmeticLeft operator (left.renamed f) right
  | .arithmeticRight operator left right => .arithmeticRight operator left (right.renamed f)

theorem renamed_id (p : Pipeline) : p.renamed id = p := by
  induction p <;> simp_all [renamed, ResultSource.renamed]

theorem sources_renamed (f : String → String) (p : Pipeline) :
    (p.renamed f).sources = p.sources.map (ResultSource.renamed f) := by
  induction p <;> simp_all [renamed, sources]

theorem writable_renamed (f : String → String) (p : Pipeline) : (p.renamed f).Writable ↔ p.Writable := by
  induction p <;> simp_all [renamed, Writable]

end Pipeline

theorem sourceNames_constant (constant : StreamConstant) : constant.operand.token.sourceNames = [] := by
  cases constant with
  | number value => exact sourceNames_number value
  | vector values => exact sourceNames_vector values

theorem sourceNames_bins (bins : List (List StreamNumber)) :
    sourceNames (.list (.atom vectorSymbol :: bins.map vector)) = [] := by
  refine sourceNames_sourceless (by decide) fun t ht => ?_
  obtain ⟨bin, -, rfl⟩ := List.mem_map.mp ht
  exact sourceNames_vector bin

namespace Pipeline

/-- Renaming the streams in the token of a pipeline renames its sources. -/
theorem token_renamed (f : String → String) (p : Pipeline) :
    (p.renamed f).token = p.token.mapSources f := by
  induction p with
  | source read => exact read.token_renamed f
  | average parent ih | flatten parent ih =>
    rw [renamed, token, token, ih]
    exact (mapSources_apply (by decide) (by simp) _).symm
  | buffer first others parent ih =>
    rw [renamed, token, token, ih]
    refine (mapSources_apply (by decide) (fun t ht => ?_) _).symm
    obtain ⟨n, -, rfl⟩ := List.mem_map.mp ht
    rfl
  | bufferAndSkip length skipped parent ih =>
    rw [renamed, token, token, ih]
    exact (mapSources_apply (by decide) (by simp [sourceNames_integer]) _).symm
  | map function parent ih =>
    rw [renamed, token, token, ih]
    exact (mapSources_apply (by decide) (by simp [sourceNames_function]) _).symm
  | skip length parent ih | skipLast length parent ih | take length parent ih =>
    rw [renamed, token, token, ih]
    exact (mapSources_apply (by decide) (by simp [sourceNames_integer]) _).symm
  | histogram bins parent ih =>
    rw [renamed, token, token, ih]
    exact (mapSources_apply (by decide) (by simp [sourceNames_bins]) _).symm
  | zip other parent iho ih =>
    rw [renamed, token, token, iho, ih, StreamToken.zip, StreamToken.zip, apply, apply,
      mapSources_operator (by decide)]
    rfl
  | arithmetic operator left right ihl ihr =>
    rw [renamed, token, token, ihl, ihr, mapSources_arithmetic]
    rfl
  | arithmeticLeft operator left right ihl =>
    rw [renamed, token, token, ihl, mapSources_arithmetic,
      mapSources_of_sourceless (sourceNames_constant right)]
    rfl
  | arithmeticRight operator left right ihr =>
    rw [renamed, token, token, ihr, mapSources_arithmetic,
      mapSources_of_sourceless (sourceNames_constant left)]
    rfl

/-- The names in the token of a pipeline are those of its sources. -/
theorem sourceNames_token (p : Pipeline) : p.token.sourceNames = p.sources.map ResultSource.name := by
  induction p with
  | source read => exact read.sourceNames_token
  | average parent ih | flatten parent ih =>
    rw [token, sources, ← ih]
    exact sourceNames_apply (by decide) (by simp) _
  | buffer first others parent ih =>
    rw [token, sources, ← ih]
    refine sourceNames_apply (by decide) (fun t ht => ?_) _
    obtain ⟨n, -, rfl⟩ := List.mem_map.mp ht
    rfl
  | bufferAndSkip length skipped parent ih =>
    rw [token, sources, ← ih]
    exact sourceNames_apply (by decide) (by simp [sourceNames_integer]) _
  | map function parent ih =>
    rw [token, sources, ← ih]
    exact sourceNames_apply (by decide) (by simp [sourceNames_function]) _
  | skip length parent ih | skipLast length parent ih | take length parent ih =>
    rw [token, sources, ← ih]
    exact sourceNames_apply (by decide) (by simp [sourceNames_integer]) _
  | histogram bins parent ih =>
    rw [token, sources, ← ih]
    exact sourceNames_apply (by decide) (by simp [sourceNames_bins]) _
  | zip other parent iho ih =>
    rw [token, sources, List.map_append, ← iho, ← ih, StreamToken.zip, apply,
      sourceNames_operator (by decide)]
    simp [sourceNamesOfItems]
  | arithmetic operator left right ihl ihr =>
    rw [token, sources, List.map_append, ← ihl, ← ihr, sourceNames_arithmetic]
    rfl
  | arithmeticLeft operator left right ihl =>
    rw [token, sources, ← ihl, sourceNames_arithmetic, sourceNames_constant, List.append_nil]
    rfl
  | arithmeticRight operator left right ihr =>
    rw [token, sources, ← ihr, sourceNames_arithmetic, sourceNames_constant, List.nil_append]
    rfl

end Pipeline
end Qua
