import Qua.Proofs.Printing.Parts
import Qua.Proofs.Stream.Pipeline

/-!
# Pipelines that can be printed

Every operator of a pipeline can be printed if its operands can, except for a buffer without dimensions.
Numbers and functions are always atoms, those that are not finite being written as in a sentence.
-/

namespace Qua

section
variable {H : Hazard → Prop}

namespace StreamToken

/-- The token can be printed as a pipeline. -/
abbrev Prints (H : Hazard → Prop) (token : StreamToken) : Prop := Renders H token.rendering.pipeline

variable {token parent other : StreamToken} {item argument : Rendering}

theorem HasText.prints {text : String} (h : HasText token text) : token.Prints H := by
  rw [Prints, h]
  exact .ok _

-- ---------------------------------------------------------------------------
-- Numbers and lists
-- ---------------------------------------------------------------------------

theorem prints_number (n : StreamNumber) : (number n).Prints H := by
  cases n <;> exact (hasText_atom _).prints

theorem prints_list {tokens : List StreamToken} (h : ∀ t ∈ tokens, t.Prints H) :
    (StreamToken.list (.atom vectorSymbol :: tokens)).Prints H := by
  have hrun : Rendering.application ((StreamToken.atom vectorSymbol :: tokens).map rendering)
      vectorSymbol (tokens.map rendering) = Rendering.vector (tokens.map rendering) := rfl
  rw [Prints, pipeline_operator, hrun]
  exact Renders.bind (.mapM (List.forall_mem_map.mpr h)) fun _ _ => .ok _

theorem prints_vector (values : List StreamNumber) : (vector values).Prints H :=
  prints_list (List.forall_mem_map.mpr fun n _ => prints_number n)

theorem prints_weight (weight : DemodWeight) : weight.token.Prints H := by
  cases weight with
  | scalar n => exact prints_number n
  | vector values => exact prints_vector values

-- ---------------------------------------------------------------------------
-- Functions
-- ---------------------------------------------------------------------------

/-- Functions can always be printed. -/
theorem prints_function (function : StreamFunction) : Renders H function.token.rendering.function := by
  have hcall : ∀ {operator name : String} {argument : StreamToken},
      (∀ item, Rendering.functionCall operator [item] = Rendering.call name item) → argument.Prints H →
      Renders H (rendering (.list [.atom operator, argument])).function := by
    intro operator name argument hname h
    rw [function_operator, List.map_singleton, hname]
    exact Renders.bind h fun _ _ => .ok _
  cases function with
  | average | tupleDotProduct | tupleMultiply | booleanToInt => exact .ok _
  | averageAxis axis => exact hcall (fun _ => rfl) (prints_number (.int axis))
  | averageAxes axes => exact hcall (fun _ => rfl) (prints_vector _)
  | dotProduct values => exact hcall (fun _ => rfl) (prints_vector values)
  | multiplyBy scalar => exact hcall (fun _ => rfl) (prints_number scalar)
  | multiplyByVector values => exact hcall (fun _ => rfl) (prints_vector values)
  | convolution values mode =>
    rw [StreamFunction.token, function_operator]
    refine Renders.bind (prints_vector values) fun _ _ => ?_
    cases mode with
    | none => exact .ok _
    | some mode => cases mode <;> exact .ok _
  | tupleConvolution mode =>
    rw [function_tupleConvolution]
    exact .ok _
  | fft output =>
    rw [function_fft]
    exact .ok _
  | demod frequency cosine sine integrate =>
    have hparts : ∀ rest : String → String → String → Except RenderError String,
        (∀ f c s, Renders H (rest f c s)) → Renders H (do
          let f ← (number frequency).rendering.pipeline
          let c ← cosine.token.rendering.pipeline
          let s ← sine.token.rendering.pipeline
          rest f c s) := fun rest h =>
      (prints_number frequency).bind fun f _ => (prints_weight cosine).bind fun c _ =>
        (prints_weight sine).bind fun s _ => h f c s
    cases integrate with
    | none =>
      simp only [StreamFunction.token, List.append_nil, function_operator]
      exact hparts _ fun _ _ _ => .ok _
    | some integrate =>
      simp only [StreamFunction.token, List.cons_append, List.nil_append, function_operator]
      exact hparts _ fun _ _ _ => .ok _

-- ---------------------------------------------------------------------------
-- Operators
-- ---------------------------------------------------------------------------

theorem prints_method (h : Renders H item.pipeline) (name : String) : Renders H (item.method name) :=
  h.bind fun _ _ => .ok _

theorem prints_methodOn (h : Renders H item.pipeline) (name : String) (ha : Renders H argument.pipeline) :
    Renders H (item.methodOn name argument) :=
  h.bind fun _ _ => ha.bind fun _ _ => .ok _

theorem prints_methodOnAtoms (h : Renders H item.pipeline) (name : String) (arguments : List Int64) :
    Renders H (item.methodOnAtoms name ((arguments.map integer).map rendering)) := by
  refine h.bind fun _ _ => ?_
  rw [atoms_integers]
  exact .ok _

theorem prints_average (h : parent.Prints H) : parent.average.Prints H := by
  rw [Prints, average, apply, pipeline_operator]
  exact prints_method h "average"

theorem prints_flatten (h : parent.Prints H) : parent.flatten.Prints H := by
  rw [Prints, flatten, apply, pipeline_operator]
  exact prints_method h "flatten"

theorem prints_skip (h : parent.Prints H) (length : Int64) : (parent.skip length).Prints H := by
  rw [Prints, skip, apply, pipeline_operator]
  exact prints_methodOnAtoms h "skip" [length]

theorem prints_skipLast (h : parent.Prints H) (length : Int64) : (parent.skipLast length).Prints H := by
  rw [Prints, skipLast, apply, pipeline_operator]
  exact prints_methodOnAtoms h "skip_last" [length]

theorem prints_take (h : parent.Prints H) (length : Int64) : (parent.take length).Prints H := by
  rw [Prints, take, apply, pipeline_operator]
  exact prints_methodOnAtoms h "take" [length]

theorem prints_bufferAndSkip (h : parent.Prints H) (length skipped : Int64) :
    (parent.bufferAndSkip length skipped).Prints H := by
  rw [Prints, bufferAndSkip, apply, pipeline_operator]
  exact prints_methodOnAtoms h "buffer_and_skip" [length, skipped]

/-- A buffer has at least one dimension where it is written. -/
theorem pipeline_buffer_nil (parent : StreamToken) :
    (parent.buffer []).rendering.pipeline = .error (.unsupportedStreamOperator "buffer") := by
  rw [buffer, apply, pipeline_operator]
  rfl

theorem prints_buffer (h : parent.Prints H) {dimensions : List Int64} (hd : dimensions = [] → H .buffer) :
    (parent.buffer dimensions).Prints H := by
  cases dimensions with
  | nil =>
    rw [Prints, pipeline_buffer_nil]
    rintro _ ⟨⟩
    exact ⟨.buffer, hd rfl, .buffer⟩
  | cons first others =>
    rw [Prints, pipeline_buffer]
    exact prints_methodOnAtoms h "buffer" (first :: others)

theorem prints_histogram (h : parent.Prints H) (bins : List (List StreamNumber)) :
    (parent.histogram bins).Prints H := by
  rw [Prints, histogram, apply, pipeline_operator]
  exact prints_methodOn h "histogram" (prints_list (List.forall_mem_map.mpr fun bin _ => prints_vector bin))

theorem prints_zip (h : parent.Prints H) (ho : other.Prints H) : (zip other parent).Prints H := by
  rw [Prints, zip, apply, pipeline_operator]
  exact prints_methodOn h "zip" ho

theorem prints_map (h : parent.Prints H) (function : StreamFunction) : (parent.map function).Prints H := by
  rw [Prints, map, apply, pipeline_operator]
  exact Renders.bind h fun _ _ => (prints_function function).bind fun _ _ => .ok _

theorem prints_arithmetic (operator : ArithmeticOperator) {left right : StreamOperand}
    (hl : left.token.Prints H) (hr : right.token.Prints H) : (arithmetic operator left right).Prints H := by
  have hrun : Renders H
      (Rendering.arithmetic operator.symbol left.token.rendering right.token.rendering) := by
    refine Renders.bind hl fun _ _ => Renders.bind hr fun _ _ => ?_
    split <;> exact .ok _
  rw [Prints, arithmetic, pipeline_operator]
  cases operator <;> exact hrun

/-- What is read of a stream can always be printed. -/
theorem prints_source (source : ResultSource) : source.token.Prints H := by
  obtain ⟨text, htext⟩ : ∃ text, HasText source.token text := by
    have hread := hasText_read source.mode source.name
    unfold ResultSource.token
    cases source.input <;> cases source.autoReshape <;> cases source.isAdcTrace
    · exact ⟨_, hread⟩
    · exact ⟨_, hasText_adcTrace hread⟩
    · exact ⟨_, hasText_reshape hread⟩
    · exact ⟨_, hasText_adcTrace (hasText_reshape hread)⟩
    · exact ⟨_, hasText_input hread _⟩
    · exact ⟨_, hasText_adcTrace (hasText_input hread _)⟩
    · exact ⟨_, hasText_reshape (hasText_input hread _)⟩
    · exact ⟨_, hasText_adcTrace (hasText_reshape (hasText_input hread _))⟩
  exact htext.prints

end StreamToken

theorem SaveEntry.renders {entry : SaveEntry} (h : entry.pipeline.Prints H) : Renders H entry.render :=
  Renders.bind h fun _ _ => .ok _

end
end Qua
