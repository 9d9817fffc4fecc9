import Qua.Proofs.Replay.Operands
import Qua.Proofs.Replay.Taking
import Qua.Proofs.Stream.Renamed

/-!
# Pipelines read back

The text of a pipeline is a chain of calls. Evaluated where the names of its sources stand for the
declared streams, it gives a stream with the token of the pipeline.
-/

namespace Qua

open Replay
open Script (IsSeparator)
open StreamToken (HasText methodText functionText)
open Text (IsIdentifier)

namespace Replay

variable {s : State} {name text : String} {token token' : StreamToken}

-- ---------------------------------------------------------------------------
-- Numbers
-- ---------------------------------------------------------------------------

/-- The value of a number of a pipeline. -/
def numberValue : StreamNumber → Value
  | .int n => .int n
  | .fixed x => .float x

theorem means_number {value : StreamNumber} (h : value.Writable) :
    OperandMeans s value.text (numberValue value) := by
  cases value with
  | int n => exact means_integer h
  | fixed x => exact means_real h

theorem toNumber_value (value : StreamNumber) : (numberValue value).toNumber = .ok value := by
  cases value <;> rfl

/-- The vectors of a pipeline. -/
theorem means_vector {values : List StreamNumber} (h : ∀ value ∈ values, value.Writable) :
    PrimaryMeans s ("[" ++ ", ".intercalate (values.map StreamNumber.text) ++ "]")
      (.list (values.map numberValue)) := by
  refine means_list (.inr rfl) ?_
  induction values with
  | nil => exact .nil
  | cons value values ih =>
    rw [List.forall_mem_cons] at h
    exact .cons (means_number h.1).term (ih h.2)

/-- The bins of a histogram. -/
theorem means_vectors {bins : List (List StreamNumber)}
    (h : ∀ bin ∈ bins, ∀ value ∈ bin, StreamNumber.Writable value) :
    List.Forall₂ (Means s)
      (bins.map fun bin => "[" ++ ", ".intercalate (bin.map StreamNumber.text) ++ "]")
      (bins.map fun bin => .list (bin.map numberValue)) := by
  induction bins with
  | nil => exact .nil
  | cons bin bins ih =>
    rw [List.forall_mem_cons] at h
    exact .cons (means_vector h.1).means (ih h.2)

theorem toNumbers_values (values : List StreamNumber) :
    (Value.list (values.map numberValue)).toNumbers = .ok values :=
  mapM_map_ok toNumber_value values

-- ---------------------------------------------------------------------------
-- Streams
-- ---------------------------------------------------------------------------

/-- The text stands for a stream with that token. -/
def StreamMeans (s : State) (text : String) (token : StreamToken) : Prop :=
  ∃ v, PrimaryMeans s text v ∧ v.isStream = true ∧ v.toOperand = .ok (.stream token)

theorem eq_of_isStream {v : Value} (h : v.isStream = true) (hv : v.toOperand = .ok (.stream token)) :
    v = .stream token ∨ ∃ source, v = .source source ∧ source.token = token := by
  cases v with
  | source source =>
    simp only [Value.toOperand, Except.ok.injEq, StreamOperand.stream.injEq] at hv
    exact .inr ⟨source, rfl, hv⟩
  | stream token' =>
    simp only [Value.toOperand, Except.ok.injEq, StreamOperand.stream.injEq] at hv
    exact .inl (by rw [hv])
  | _ => nomatch h

/-- Names of methods that only a stream has, and not a source, and that save nothing. -/
def IsStreamMethod (name : String) : Prop :=
  IsIdentifier name ∧ saveMethod? name = none ∧ ∀ source, sourceMethod? source name = none

/-- A method of a stream makes another stream. -/
theorem StreamMeans.method {texts : List String} {vs : List Value} (h : StreamMeans s text token)
    (hn : IsStreamMethod name) (ha : List.Forall₂ (Means s) texts vs)
    (ht : Takes (streamMethod name token) (.of name vs []) token') :
    StreamMeans s (methodText text name texts) token' := by
  obtain ⟨v, hv, hs, ho⟩ := h
  have hcall : Takes (callStream s.inProgram name token) (.of name vs [])
      (pure (.stream token')) := by
    have hmap := ht.map fun token => (pure (Value.stream token) : Build Value)
    rw [map_eq_pure_bind] at hmap
    rw [callStream, hn.2.1]
    exact hmap
  have hmethod : Takes (Replay.method s.inProgram v name) (.of name vs []) (pure (.stream token')) := by
    obtain rfl | ⟨source, rfl, rfl⟩ := eq_of_isStream hs ho
    · exact hcall
    · rw [Replay.method, hn.2.2 source]
      exact hcall
  have hp := yields_method hv hs hn.1 (.inr rfl) ha .nil (hmethod.perform rfl)
  rw [List.append_nil] at hp
  exact ⟨.stream token', hp, rfl, rfl⟩

/-- A method of a source selects what is read of it. -/
theorem means_sourceMethod {source selected : ResultSource} (h : PrimaryMeans s text (.source source))
    (hn : IsIdentifier name) (hm : sourceMethod? source name = some selected) :
    PrimaryMeans s (methodText text name []) (.source selected) := by
  have ht : Takes (Replay.method s.inProgram (.source source) name) (.of name [] [])
      (pure (.source selected)) := by
    rw [Replay.method, hm, Arguments.of_eq]
    exact .done _ (by simp)
  have ha : List.Forall₂ (Means s) [] [] := .nil
  have hp := yields_method h rfl hn (.inr rfl) ha .nil (ht.perform rfl)
  rwa [List.append_nil] at hp

/-- The declared stream that a source reads. -/
def declaration (source : ResultSource) : ResultSource :=
  ⟨source.name, source.isAdcTrace, .values, none, false⟩

/-- A source reads as the declared stream with the methods that select from it; the stream may have been
declared under another name. -/
theorem streamMeans_source (f : String → String) (source : ResultSource) (hn : IsIdentifier source.name)
    (h : s.environment.lookup source.name = some (.source (declaration (source.renamed f)))) :
    ∃ text, HasText source.token text ∧ StreamMeans s text (source.renamed f).token := by
  obtain ⟨name, isAdcTrace, mode, input, autoReshape⟩ := source
  have hread : ∃ text, HasText (.list [.atom StreamToken.sourceSymbol, .atom mode.code, .atom name]) text ∧
      PrimaryMeans s text (.source ⟨f name, isAdcTrace, mode, none, false⟩) := by
    refine ⟨_, StreamToken.hasText_read mode name, ?_⟩
    have hb := means_bound hn h
    cases mode with
    | values => exact hb
    | timestamps => exact means_sourceMethod hb (by decide) rfl
    | valuesAndTimestamps => exact means_sourceMethod hb (by decide) rfl
  obtain ⟨text, ht, hm⟩ := hread
  have hinput : ∃ text, HasText (ResultSource.token ⟨name, false, mode, input, false⟩) text ∧
      PrimaryMeans s text (.source ⟨f name, isAdcTrace, mode, input, false⟩) := by
    cases input with
    | none => exact ⟨text, ht, hm⟩
    | some input =>
      refine ⟨_, StreamToken.hasText_input ht input, ?_⟩
      cases input <;> exact means_sourceMethod hm (by decide) rfl
  obtain ⟨text, ht, hm⟩ := hinput
  have hshape : ∃ text, HasText (ResultSource.token ⟨name, false, mode, input, autoReshape⟩) text ∧
      PrimaryMeans s text (.source ⟨f name, isAdcTrace, mode, input, autoReshape⟩) := by
    cases autoReshape with
    | false => exact ⟨text, ht, hm⟩
    | true => exact ⟨_, StreamToken.hasText_reshape ht, means_sourceMethod hm (by decide) rfl⟩
  obtain ⟨text, ht, hm⟩ := hshape
  refine ⟨text, ?_, _, hm, rfl, rfl⟩
  cases isAdcTrace with
  | false => exact ht
  | true => exact StreamToken.hasText_adcTrace ht

-- ---------------------------------------------------------------------------
-- Functions
-- ---------------------------------------------------------------------------

/-- The function has a text, which stands for it in the module of stream functions. -/
def FunctionReads (s : State) (function : StreamFunction) : Prop :=
  ∃ text, function.token.rendering.function = .ok text ∧
    PrimaryMeans s ("FUNCTIONS." ++ text) (.function function)

/-- A call of a stream function. -/
theorem functionReads_of {function : StreamFunction} (name : String) (texts keywords : List String)
    {vs : List Value} {entries : List (String × Value)}
    (hfree : s.environment.lookup functionsModule = none) (hn : IsIdentifier name)
    (htext : function.token.rendering.function = .ok (functionText name (texts ++ keywords)))
    (ha : List.Forall₂ (Means s) texts vs) (hk : List.Forall₂ (KeywordMeans s) keywords entries)
    (ht : Takes (streamFunction name) (.of ("FUNCTIONS." ++ name) vs entries) function) :
    FunctionReads s function := by
  refine ⟨_, htext, ?_⟩
  have hmodule : Takes (moduleFunction s.inProgram functionsModule name)
      (.of ("FUNCTIONS." ++ name) vs entries) (pure (.function function)) := by
    have hmap := ht.map fun function => (pure (Value.function function) : Build Value)
    rw [map_eq_pure_bind] at hmap
    have hl : Library.ofNamespace? functionsModule = none := by decide
    rw [moduleFunction, hl, if_pos rfl]
    exact hmap
  have hp := yields_module (by decide) hn hfree (by decide) (.inl rfl) ha hk (hmodule.perform rfl)
  simpa [String.append_assoc, functionsModule, functionText] using hp

/-- A choice that is not given. -/
theorem Takes.choice_missing {f : Option β → Taking α} {ofName? : String → Option β} {n : Nat}
    {function : String} (h : Takes (f none) (.after function n [] []) r) :
    Takes (Taking.choice ofName? n name >>= f) (.after function n [] []) r := by
  rw [Taking.choice, bind_assoc]
  exact .optional_keyword (by simp) h

/-- The value of a factor of a demodulation. -/
def weightValue : DemodWeight → Value
  | .scalar value => numberValue value
  | .vector values => .list (values.map numberValue)

theorem weight_reads {weight : DemodWeight} (h : weight.Writable) :
    ∃ text, HasText weight.token text ∧ Means s text (weightValue weight) ∧
      (weightValue weight).toWeight = .ok weight := by
  cases weight with
  | scalar value =>
    refine ⟨value.text, ?_, (means_number h).term, by cases value <;> rfl⟩
    rw [DemodWeight.token, StreamToken.number_eq h]
    exact StreamToken.hasText_atom _
  | vector values =>
    refine ⟨_, StreamToken.hasText_vector h, (means_vector h).means, ?_⟩
    rw [weightValue, Value.toWeight, mapM_map_ok toNumber_value]
    rfl

theorem mode_texts (mode : Option ConvolutionMode) :
    StreamToken.modeTexts mode = mode.toList.map fun mode => Text.quote mode.name := by
  cases mode with
  | none => rfl
  | some mode => cases mode <;> decide

theorem output_texts (output : Option FftOutput) :
    (output.toList.map fun output => "\"" ++ output.name ++ "\"") =
      output.toList.map fun output => Text.quote output.name := by
  cases output with
  | none => rfl
  | some output => cases output <;> decide

/-- The name of an optional choice. -/
theorem means_choice (name : β → String) (choice : Option β) :
    List.Forall₂ (Means s) (choice.toList.map fun c => Text.quote (name c))
      (choice.toList.map fun c => .string (name c)) := by
  cases choice with
  | none => exact .nil
  | some c => exact .cons (means_string _).means .nil

/-- A choice that may be missing, as the last argument. -/
theorem Takes.choice_last {f : Option β → Taking α} {ofName? : String → Option β} {n : Nat}
    {function : String} (name : β → String) (choice : Option β)
    (hname : ∀ c ∈ choice, ofName? (name c) = some c)
    (h : ∀ n, Takes (f choice) (.after function n [] []) r) :
    Takes (Taking.choice ofName? n argument >>= f)
      (.after function n (choice.toList.map fun c => .string (name c)) []) r := by
  cases choice with
  | none => exact .choice_missing (h n)
  | some c => exact .choice (hname c rfl) (h (n + 1))

theorem axes_writable {axes : List Int64} (h : ∀ axis ∈ axes, axis ≠ Int64.minValue) :
    ∀ value ∈ axes.map StreamNumber.int, value.Writable := by
  intro value hv
  obtain ⟨axis, ha, rfl⟩ := List.mem_map.mp hv
  exact h axis ha

theorem averageAxes_values (axes : List Int64) :
    averageAxes (.list ((axes.map StreamNumber.int).map numberValue)) = .ok (.averageAxes axes) := by
  have hi : (axes.map Value.int).mapM Value.toInt = .ok axes :=
    mapM_map_ok (v := Value.int) (fun _ => rfl) axes
  rw [List.map_map]
  change StreamFunction.averageAxes <$> (axes.map Value.int).mapM Value.toInt = _
  rw [hi]
  rfl

theorem multiplier_values (vector : List StreamNumber) :
    multiplier (.list (vector.map numberValue)) = .ok (.multiplyByVector vector) := by
  rw [multiplier, mapM_map_ok toNumber_value]
  rfl

section

variable (hfree : s.environment.lookup functionsModule = none)
include hfree

attribute [local simp] streamFunction

theorem reads_average : FunctionReads s .average := by
  refine functionReads_of "average" [] [] hfree (by decide) rfl .nil .nil ?_
  rw [Arguments.of_eq, streamFunction]
  exact .optional_keyword (by simp) (.done _ (by simp [splitKeyword_nil]))

theorem reads_averageAxis {axis : Int64} (h : axis ≠ Int64.minValue) :
    FunctionReads s (.averageAxis axis) := by
  refine functionReads_of "average" [toString axis.toInt] [] hfree (by decide) rfl
    (.cons (means_integer h).term .nil) .nil ?_
  rw [Arguments.of_eq, streamFunction]
  exact .optional rfl (.done_lift rfl (by simp))

theorem reads_averageAxes {axes : List Int64} (h : ∀ axis ∈ axes, axis ≠ Int64.minValue) :
    FunctionReads s (.averageAxes axes) := by
  have hw := axes_writable h
  refine functionReads_of "average" [_] [] hfree (by decide)
    (StreamToken.function_call (fun _ => rfl) (StreamToken.hasText_vector hw))
    (.cons (means_vector hw).means .nil) .nil ?_
  rw [Arguments.of_eq, streamFunction]
  exact .optional rfl (.done_lift (averageAxes_values axes) (by simp))

theorem reads_dotProduct {vector : List StreamNumber} (h : ∀ value ∈ vector, value.Writable) :
    FunctionReads s (.dotProduct vector) := by
  refine functionReads_of "dot_product" [_] [] hfree (by decide)
    (StreamToken.function_call (fun _ => rfl) (StreamToken.hasText_vector h))
    (.cons (means_vector h).means .nil) .nil ?_
  rw [Arguments.of_eq, streamFunction]
  exact .required (.of_lift (toNumbers_values vector) (.done _ (by simp)))

theorem reads_tupleDotProduct : FunctionReads s .tupleDotProduct := by
  refine functionReads_of "tuple_dot_product" [] [] hfree (by decide) rfl .nil .nil ?_
  rw [Arguments.of_eq, streamFunction]
  exact .done _ (by simp)

theorem reads_multiplyBy {scalar : StreamNumber} (h : scalar.Writable) :
    FunctionReads s (.multiplyBy scalar) := by
  have ht : HasText (StreamToken.number scalar) scalar.text := by
    rw [StreamToken.number_eq h]
    exact StreamToken.hasText_atom _
  refine functionReads_of "multiply_by" [_] [] hfree (by decide)
    (StreamToken.function_call (fun _ => rfl) ht) (.cons (means_number h).term .nil) .nil ?_
  rw [Arguments.of_eq, streamFunction]
  exact .required (.done_lift (by cases scalar <;> rfl) (by simp))

theorem reads_multiplyByVector {vector : List StreamNumber}
    (h : ∀ value ∈ vector, value.Writable) : FunctionReads s (.multiplyByVector vector) := by
  refine functionReads_of "multiply_by" [_] [] hfree (by decide)
    (StreamToken.function_call (fun _ => rfl) (StreamToken.hasText_vector h))
    (.cons (means_vector h).means .nil) .nil ?_
  rw [Arguments.of_eq, streamFunction]
  exact .required (.done_lift (multiplier_values vector) (by simp))

theorem reads_tupleMultiply : FunctionReads s .tupleMultiply := by
  refine functionReads_of "tuple_multiply" [] [] hfree (by decide) rfl .nil .nil ?_
  rw [Arguments.of_eq, streamFunction]
  exact .done _ (by simp)

theorem reads_booleanToInt : FunctionReads s .booleanToInt := by
  refine functionReads_of "boolean_to_int" [] [] hfree (by decide) rfl .nil .nil ?_
  rw [Arguments.of_eq, streamFunction]
  exact .done _ (by simp)

theorem reads_convolution {vector : List StreamNumber} (h : ∀ value ∈ vector, value.Writable)
    (mode : Option ConvolutionMode) : FunctionReads s (.convolution vector mode) := by
  have ha := means_choice (s := s) ConvolutionMode.name mode
  rw [← mode_texts] at ha
  refine functionReads_of "convolution" (_ :: StreamToken.modeTexts mode) [] hfree (by decide) ?_
    (.cons (means_vector h).means ha) .nil ?_
  · rw [List.append_nil]
    exact StreamToken.function_convolution (StreamToken.hasText_vector h) mode
  · rw [Arguments.of_eq, streamFunction]
    exact .required (.of_lift (toNumbers_values vector)
      (.choice_last ConvolutionMode.name mode (fun mode _ => by cases mode <;> rfl)
        fun _ => .done _ (by simp)))

theorem reads_tupleConvolution (mode : Option ConvolutionMode) :
    FunctionReads s (.tupleConvolution mode) := by
  have ha := means_choice (s := s) ConvolutionMode.name mode
  rw [← mode_texts] at ha
  refine functionReads_of "tuple_convolution" (StreamToken.modeTexts mode) [] hfree (by decide) ?_ ha
    .nil ?_
  · rw [List.append_nil]
    exact StreamToken.function_tupleConvolution mode
  · rw [Arguments.of_eq, streamFunction, map_eq_pure_bind]
    exact .choice_last ConvolutionMode.name mode (fun mode _ => by cases mode <;> rfl)
      fun _ => .done _ (by simp)

theorem reads_fft (output : Option FftOutput) : FunctionReads s (.fft output) := by
  have ha := means_choice (s := s) FftOutput.name output
  have htext := StreamToken.function_fft output
  rw [output_texts] at htext
  refine functionReads_of "fft" _ [] hfree (by decide) ?_ ha .nil ?_
  · rw [List.append_nil]
    exact htext
  · rw [Arguments.of_eq, streamFunction, map_eq_pure_bind]
    exact .choice_last FftOutput.name output (fun output _ => by cases output <;> rfl)
      fun _ => .done _ (by simp)

theorem reads_demod {frequency : StreamNumber} {cosine sine : DemodWeight}
    (hf : frequency.Writable) (hc : cosine.Writable) (hs : sine.Writable) (integrate : Option Bool) :
    FunctionReads s (.demod frequency cosine sine integrate) := by
  obtain ⟨c, hct, hcm, hcw⟩ := weight_reads (s := s) hc
  obtain ⟨t, hst, hsm, hsw⟩ := weight_reads (s := s) hs
  have hk : List.Forall₂ (KeywordMeans s)
      (integrate.toList.map fun integrate => "integrate=" ++ if integrate then "True" else "False")
      (keywordOf "integrate" (integrate.map .bool)) := by
    cases integrate with
    | none => exact .nil
    | some integrate =>
      refine .cons ?_ .nil
      have hn : IsIdentifier "integrate" := by decide
      have hb := KeywordMeans.of hn (means_bool (s := s) integrate).means
      cases integrate <;> exact hb
  refine functionReads_of "demod" [frequency.text, c, t] _ hfree (by decide)
    (StreamToken.function_demod hf hct hst integrate)
    (.cons (means_number hf).term (.cons hcm (.cons hsm .nil))) hk ?_
  rw [Arguments.of_eq, map_keywordOf, streamFunction]
  refine .required (.of_lift (toNumber_value frequency) (.required (.of_lift hcw (.required
    (.of_lift hsw (.optional_keyword (by simp) ?_))))))
  rw [splitKeyword_last]
  refine .read_optional (g := id) (fun b _ => ⟨rfl, rfl⟩) ?_
  rw [Option.map_id_fun, id_eq]
  exact .done _ fun k hk => slot_taken hk

end

/-- A stream function reads back from its text. -/
theorem function_reads (hfree : s.environment.lookup functionsModule = none)
    (function : StreamFunction) (h : function.Writable) : FunctionReads s function := by
  cases function with
  | average => exact reads_average hfree
  | averageAxis axis => exact reads_averageAxis hfree h
  | averageAxes axes => exact reads_averageAxes hfree h
  | dotProduct vector => exact reads_dotProduct hfree h
  | tupleDotProduct => exact reads_tupleDotProduct hfree
  | multiplyBy scalar => exact reads_multiplyBy hfree h
  | multiplyByVector vector => exact reads_multiplyByVector hfree h
  | tupleMultiply => exact reads_tupleMultiply hfree
  | convolution vector mode => exact reads_convolution hfree h mode
  | tupleConvolution mode => exact reads_tupleConvolution hfree mode
  | fft output => exact reads_fft hfree output
  | booleanToInt => exact reads_booleanToInt hfree
  | demod frequency cosine sine integrate => exact reads_demod hfree h.1 h.2.1 h.2.2 integrate

-- ---------------------------------------------------------------------------
-- Arithmetic
-- ---------------------------------------------------------------------------

/-- A number or a vector reads back as an operand. -/
theorem constant_reads (constant : StreamConstant) (h : constant.Writable) :
    ∃ text v, HasText constant.operand.token text ∧ OperandMeans s text v ∧
      v.toOperand = .ok constant.operand ∧ constant.operand.token.isStream = false := by
  cases constant with
  | number value =>
    refine ⟨value.text, numberValue value, ?_, means_number h, by cases value <;> rfl, ?_⟩
    · rw [StreamConstant.operand, StreamOperand.token, StreamToken.number_eq h]
      exact StreamToken.hasText_atom _
    · rw [StreamConstant.operand, StreamOperand.token, StreamToken.number_eq h]
      rfl
  | vector values =>
    refine ⟨_, _, StreamToken.hasText_vector h, (means_vector h).operand, ?_, rfl⟩
    rw [Value.toOperand, mapM_map_ok toNumber_value]
    rfl

theorem StreamMeans.means (h : StreamMeans s text token) :
    ∃ v, OperandMeans s text v ∧ v.toOperand = .ok (.stream token) ∧ v.isStream = true := by
  obtain ⟨v, hv, hs, ho⟩ := h
  exact ⟨v, hv.operand, ho, hs⟩

/-- The operator of a script for an operator of stream arithmetic. -/
def scriptOperator : ArithmeticOperator → Script.Operator
  | .add => .plus
  | .subtract => .minus
  | .multiply => .star
  | .divide => .slash

/-- Arithmetic on a stream, by a method. -/
theorem means_arithmeticMethod {right : StreamOperand} {v : Value} (h : StreamMeans s text token)
    (hr : OperandMeans s r v) (hv : v.toOperand = .ok right) (operator : ArithmeticOperator) :
    StreamMeans s ("(" ++ (text ++ "." ++ StreamToken.Rendering.arithmeticMethod operator.symbol ++
      "(" ++ r ++ ")") ++ ")") (.arithmetic operator (.stream token) right) := by
  have ht (name : String) : Takes (streamArithmetic operator token) (.of name [v] [])
      (.arithmetic operator (.stream token) right) := by
    rw [Arguments.of_eq, streamArithmetic]
    exact .required (.of_lift hv (.done _ (by simp)))
  have hm : StreamMeans s
      (methodText text (StreamToken.Rendering.arithmeticMethod operator.symbol) [r])
      (.arithmetic operator (.stream token) right) := by
    cases operator with
    | add => exact h.method ⟨by decide, rfl, fun _ => rfl⟩ (.cons hr.term .nil) (ht _)
    | subtract => exact h.method ⟨by decide, rfl, fun _ => rfl⟩ (.cons hr.term .nil) (ht _)
    | multiply => exact h.method ⟨by decide, rfl, fun _ => rfl⟩ (.cons hr.term .nil) (ht _)
    | divide => exact h.method ⟨by decide, rfl, fun _ => rfl⟩ (.cons hr.term .nil) (ht _)
  obtain ⟨w, hw, hs, ho⟩ := hm
  rw [methodText, String.intercalate_singleton] at hw
  exact ⟨w, means_parenthesized hw.means, hs, ho⟩

/-- Arithmetic of a number or a vector and a stream, by an operator. -/
theorem means_arithmeticOperator {left : StreamOperand} {v : Value} (hl : OperandMeans s l v)
    (hv : v.toOperand = .ok left) (h : StreamMeans s text token) (operator : ArithmeticOperator) :
    StreamMeans s ("(" ++ (l ++ operator.symbol ++ text) ++ ")")
      (.arithmetic operator left (.stream token)) := by
  obtain ⟨w, hw, ho, hs⟩ := h.means
  have hb : binary (scriptOperator operator) v w =
      .ok (.stream (.arithmetic operator left (.stream token))) := by
    have hop : streamOperator? (scriptOperator operator) = some operator := by cases operator <;> rfl
    have hstream : (v.isStream || w.isStream) = true := by rw [hs, Bool.or_true]
    unfold binary
    rw [if_pos hstream, streamBinary, hop]
    simp only [hv, ho]
    rfl
  have hsymbol : operator.symbol = (scriptOperator operator).text := by cases operator <;> rfl
  obtain ⟨above, hlevel, habove⟩ : ∃ above, (scriptOperator operator).level? = some above ∧
      0 < above := by
    cases operator <;> exact ⟨_, rfl, by decide⟩
  rw [hsymbol]
  exact ⟨_, means_parenthesized (means_binary hl hw hlevel habove hb), rfl, rfl⟩

-- ---------------------------------------------------------------------------
-- Pipelines
-- ---------------------------------------------------------------------------

/-- The sources are declared, and the module of stream functions is not hidden. -/
structure Declares (s : State) (sources : List ResultSource) : Prop where
  functions : s.environment.lookup functionsModule = none
  names : ∀ source ∈ sources, IsIdentifier source.name
  values : ∀ source ∈ sources, s.environment.lookup source.name = some (.source (declaration source))

/-- The names of the sources stand for streams that have been declared under other names. -/
structure Binds (s : State) (f : String → String) (sources : List ResultSource) : Prop where
  functions : s.environment.lookup functionsModule = none
  names : ∀ source ∈ sources, IsIdentifier source.name
  values : ∀ source ∈ sources,
    s.environment.lookup source.name = some (.source (declaration (source.renamed f)))

theorem Binds.mono {f : String → String} {sources sources' : List ResultSource} (h : Binds s f sources)
    (hsub : ∀ source ∈ sources', source ∈ sources) : Binds s f sources' :=
  ⟨h.functions, fun source hm => h.names source (hsub source hm),
    fun source hm => h.values source (hsub source hm)⟩

theorem isStream_pipeline (p : Pipeline) : p.token.isStream = true := by
  cases p with
  | source source =>
    obtain ⟨name, isAdcTrace, mode, input, autoReshape⟩ := source
    cases isAdcTrace <;> cases autoReshape <;> cases input <;> rfl
  | arithmetic operator left right => cases operator <;> rfl
  | arithmeticLeft operator left right => cases operator <;> rfl
  | arithmeticRight operator left right => cases operator <;> rfl
  | _ => rfl

/-- What the text of a pipeline stands for has its token, with the streams that its names stand for. -/
theorem pipeline_binds {f : String → String} (p : Pipeline) (hw : p.Writable) (hs : Binds s f p.sources) :
    ∃ text, HasText p.token text ∧ StreamMeans s text (p.renamed f).token := by
  induction p with
  | source source =>
    have hm : source ∈ (Pipeline.source source).sources := List.mem_singleton_self source
    exact streamMeans_source f source (hs.names source hm) (hs.values source hm)
  | average parent ih =>
    obtain ⟨text, ht, hm⟩ := ih hw hs
    refine ⟨_, StreamToken.hasText_average ht, hm.method ⟨by decide, rfl, fun _ => rfl⟩ .nil ?_⟩
    rw [Arguments.of_eq, streamMethod]
    exact .done _ (by simp)
  | flatten parent ih =>
    obtain ⟨text, ht, hm⟩ := ih hw hs
    refine ⟨_, StreamToken.hasText_flatten ht, hm.method ⟨by decide, rfl, fun _ => rfl⟩ .nil ?_⟩
    rw [Arguments.of_eq, streamMethod]
    exact .done _ (by simp)
  | buffer first others parent ih =>
    obtain ⟨text, ht, hm⟩ := ih hw.2 hs
    refine ⟨_, StreamToken.hasText_buffer ht first others,
      hm.method ⟨by decide, rfl, fun _ => rfl⟩ (means_integers hw.1) ?_⟩
    rw [Arguments.of_eq, streamMethod]
    exact .allRest (.mapped (mapM_map_ok (v := Value.int) (fun _ => rfl) (first :: others))
      (.done _ (by simp)))
  | bufferAndSkip length skipped parent ih =>
    obtain ⟨text, ht, hm⟩ := ih hw.2.2 hs
    refine ⟨_, StreamToken.hasText_bufferAndSkip ht length skipped,
      hm.method ⟨by decide, rfl, fun _ => rfl⟩
        (.cons (means_integer hw.1).term (.cons (means_integer hw.2.1).term .nil)) ?_⟩
    rw [Arguments.of_eq, streamMethod]
    exact .int (.int (.done _ (by simp)))
  | map function parent ih =>
    obtain ⟨text, ht, hm⟩ := ih hw.2 hs
    obtain ⟨ftext, hft, hfm⟩ := function_reads hs.functions function hw.1
    refine ⟨_, StreamToken.hasText_map ht hft,
      hm.method ⟨by decide, rfl, fun _ => rfl⟩ (.cons hfm.means .nil) ?_⟩
    rw [Arguments.of_eq, streamMethod]
    exact .required (.done _ (by simp))
  | skip length parent ih =>
    obtain ⟨text, ht, hm⟩ := ih hw.2 hs
    refine ⟨_, StreamToken.hasText_skip ht length,
      hm.method ⟨by decide, rfl, fun _ => rfl⟩ (.cons (means_integer hw.1).term .nil) ?_⟩
    rw [Arguments.of_eq, streamMethod]
    exact .int (.done _ (by simp))
  | skipLast length parent ih =>
    obtain ⟨text, ht, hm⟩ := ih hw.2 hs
    refine ⟨_, StreamToken.hasText_skipLast ht length,
      hm.method ⟨by decide, rfl, fun _ => rfl⟩ (.cons (means_integer hw.1).term .nil) ?_⟩
    rw [Arguments.of_eq, streamMethod]
    exact .int (.done _ (by simp))
  | take length parent ih =>
    obtain ⟨text, ht, hm⟩ := ih hw.2 hs
    refine ⟨_, StreamToken.hasText_take ht length,
      hm.method ⟨by decide, rfl, fun _ => rfl⟩ (.cons (means_integer hw.1).term .nil) ?_⟩
    rw [Arguments.of_eq, streamMethod]
    exact .int (.done _ (by simp))
  | histogram bins parent ih =>
    obtain ⟨text, ht, hm⟩ := ih hw.2 hs
    refine ⟨_, StreamToken.hasText_histogram ht hw.1, hm.method ⟨by decide, rfl, fun _ => rfl⟩
      (.cons (means_list (.inr rfl) (means_vectors hw.1)).means .nil) ?_⟩
    rw [Arguments.of_eq, streamMethod]
    exact .required (.of_lift rfl (.mapped (mapM_map_ok toNumbers_values bins) (.done _ (by simp))))
  | zip other parent iho ih =>
    obtain ⟨text, ht, hm⟩ := ih hw.2 (hs.mono fun source h => List.mem_append_right _ h)
    obtain ⟨otext, hot, v, hv, hvs, hvo⟩ := iho hw.1 (hs.mono fun source h => List.mem_append_left _ h)
    refine ⟨_, StreamToken.hasText_zip ht hot,
      hm.method ⟨by decide, rfl, fun _ => rfl⟩ (.cons hv.means .nil) ?_⟩
    rw [Arguments.of_eq, streamMethod]
    refine .required ?_
    obtain rfl | ⟨source, rfl, he⟩ := eq_of_isStream hvs hvo
    · exact .done _ (by simp)
    · rw [Pipeline.renamed, Pipeline.token, ← he]
      exact .done _ (by simp)
  | arithmetic operator left right ihl ihr =>
    obtain ⟨l, hlt, hlm⟩ := ihl hw.1 (hs.mono fun source h => List.mem_append_left _ h)
    obtain ⟨r, hrt, hrm⟩ := ihr hw.2 (hs.mono fun source h => List.mem_append_right _ h)
    obtain ⟨v, hv, ho, -⟩ := hrm.means
    have ht := StreamToken.hasText_arithmetic (.stream left.token) (.stream right.token) hlt hrt
      operator
    rw [StreamOperand.token, isStream_pipeline, if_pos rfl] at ht
    exact ⟨_, ht, means_arithmeticMethod hlm hv ho operator⟩
  | arithmeticLeft operator left right ihl =>
    obtain ⟨l, hlt, hlm⟩ := ihl hw.1 hs
    obtain ⟨r, v, hrt, hv, ho, -⟩ := constant_reads (s := s) right hw.2
    have ht := StreamToken.hasText_arithmetic (.stream left.token) _ hlt hrt operator
    rw [StreamOperand.token, isStream_pipeline, if_pos rfl] at ht
    exact ⟨_, ht, means_arithmeticMethod hlm hv ho operator⟩
  | arithmeticRight operator left right ihr =>
    obtain ⟨l, v, hlt, hv, ho, hn⟩ := constant_reads (s := s) left hw.1
    obtain ⟨r, hrt, hrm⟩ := ihr hw.2 hs
    have ht := StreamToken.hasText_arithmetic _ (.stream right.token) hlt hrt operator
    rw [hn, if_neg (by simp)] at ht
    exact ⟨_, ht, means_arithmeticOperator hv ho hrm operator⟩

/-- What the text of a pipeline stands for has its token. -/
theorem pipeline_reads (p : Pipeline) (hw : p.Writable) (hs : Declares s p.sources) :
    ∃ text, HasText p.token text ∧ StreamMeans s text p.token := by
  have h := pipeline_binds (f := id) p hw ⟨hs.functions, hs.names, hs.values⟩
  rwa [p.renamed_id] at h

end Replay

namespace Pipeline

/-- A pipeline has a text, and the text is read back where its sources are declared: as a script of one
term, whose value is a stream with exactly the token of the pipeline. Nothing is built on the way. -/
theorem script_readsToken (p : Pipeline) (s : State) (hw : p.Writable) (hs : Declares s p.sources) :
    ∃ text term value, p.token.render = .ok text ∧ Script.parse text = .ok [.term 1 term] ∧
      evaluate term s = .ok (value, s) ∧ value.isStream = true ∧
      value.toOperand = .ok (.stream p.token) := by
  obtain ⟨text, ht, value, ⟨term, hterm, he⟩, hv, ho⟩ := pipeline_reads p hw hs
  exact ⟨text, term, value, ht, hterm.operand.term.parse, he, hv, ho⟩

/-- A number before a pipeline of two streams, one of which is mapped and the other multiplied. -/
theorem script_readsToken_nested :
    let first : ResultSource := ⟨"r1", false, .timestamps, none, false⟩
    let second : ResultSource := ⟨"atr_r2", true, .values, some .second, true⟩
    let p : Pipeline := .arithmeticRight .subtract (.number (.int (-5)))
      (.zip
        (.map (.convolution [.int 1, .fixed (.neg .zero)] (some .same)) (.buffer 2 [3] (.source first)))
        (.arithmeticLeft .multiply (.source second) (.vector [.int (-1), .fixed .zero])))
    let s : State :=
      { environment := [("r1", .source ⟨"r1", false, .values, none, false⟩),
          ("atr_r2", .source ⟨"atr_r2", true, .values, none, false⟩)] }
    ∃ text term value, p.token.render = .ok text ∧ Script.parse text = .ok [.term 1 term] ∧
      evaluate term s = .ok (value, s) ∧ value.isStream = true ∧
      value.toOperand = .ok (.stream p.token) := by
  intro first second p s
  have hw : p.Writable := by
    refine ⟨(by decide : (-5 : Int64) ≠ Int64.minValue), ⟨?_, ?_, trivial⟩, trivial, ?_⟩
    · exact List.forall_mem_cons.2 ⟨(by decide : (1 : Int64) ≠ Int64.minValue),
        List.forall_mem_singleton.2 rfl⟩
    · exact List.forall_mem_cons.2 ⟨by decide, List.forall_mem_singleton.2 (by decide)⟩
    · exact List.forall_mem_cons.2 ⟨(by decide : (-1 : Int64) ≠ Int64.minValue),
        List.forall_mem_singleton.2 rfl⟩
  have hnames : ∀ source ∈ p.sources, source = first ∨ source = second := by
    simp [p, sources]
  refine script_readsToken p s hw ⟨rfl, fun source hm => ?_, fun source hm => ?_⟩
  · obtain rfl | rfl := hnames source hm <;> decide
  · obtain rfl | rfl := hnames source hm <;> rfl

end Pipeline
end Qua
