import Mathlib.Data.List.Forall2
import Qua.Stream.Operator
import Qua.Stream.Render

/-!
# Pipelines

A pipeline is composed of declared streams by operators. It has a token, as any tree of atoms is one; the
rules below give the text of the token operator by operator.
-/

namespace Qua

/-- A number or a vector as an operand of stream arithmetic. -/
inductive StreamConstant
  | number (value : StreamNumber)
  | vector (values : List StreamNumber)

def StreamConstant.operand : StreamConstant → StreamOperand
  | .number value => .number value
  | .vector values => .vector values

/-- How a pipeline is composed. -/
inductive Pipeline
  | source (source : ResultSource)
  | average (parent : Pipeline)
  /-- A buffer has at least one dimension. -/
  | buffer (first : Int64) (others : List Int64) (parent : Pipeline)
  | bufferAndSkip (length skip : Int64) (parent : Pipeline)
  | map (function : StreamFunction) (parent : Pipeline)
  | flatten (parent : Pipeline)
  | skip (length : Int64) (parent : Pipeline)
  | skipLast (length : Int64) (parent : Pipeline)
  | take (length : Int64) (parent : Pipeline)
  | histogram (bins : List (List StreamNumber)) (parent : Pipeline)
  | zip (other parent : Pipeline)
  | arithmetic (operator : ArithmeticOperator) (left right : Pipeline)
  | arithmeticLeft (operator : ArithmeticOperator) (left : Pipeline) (right : StreamConstant)
  | arithmeticRight (operator : ArithmeticOperator) (left : StreamConstant) (right : Pipeline)

namespace Pipeline

def token : Pipeline → StreamToken
  | .source read => read.token
  | .average parent => parent.token.average
  | .buffer first others parent => parent.token.buffer (first :: others)
  | .bufferAndSkip length skipped parent => parent.token.bufferAndSkip length skipped
  | .map function parent => parent.token.map function
  | .flatten parent => parent.token.flatten
  | .skip length parent => parent.token.skip length
  | .skipLast length parent => parent.token.skipLast length
  | .take length parent => parent.token.take length
  | .histogram bins parent => parent.token.histogram bins
  | .zip other parent => StreamToken.zip other.token parent.token
  | .arithmetic operator left right => .arithmetic operator (.stream left.token) (.stream right.token)
  | .arithmeticLeft operator left right => .arithmetic operator (.stream left.token) right.operand
  | .arithmeticRight operator left right => .arithmetic operator left.operand (.stream right.token)

/-- The streams from which values flow. -/
def sources : Pipeline → List ResultSource
  | .source read => [read]
  | .average parent | .flatten parent => parent.sources
  | .buffer _ _ parent | .bufferAndSkip _ _ parent => parent.sources
  | .map _ parent | .skip _ parent | .skipLast _ parent | .take _ parent => parent.sources
  | .histogram _ parent => parent.sources
  | .zip other parent => other.sources ++ parent.sources
  | .arithmetic _ left right => left.sources ++ right.sources
  | .arithmeticLeft _ left _ => left.sources
  | .arithmeticRight _ _ right => right.sources

end Pipeline

-- ---------------------------------------------------------------------------
-- Numbers
-- ---------------------------------------------------------------------------

/-- A number that a script can hold: a finite real, or an integer other than the least one. -/
def StreamNumber.Writable : StreamNumber → Prop
  | .int n => n ≠ Int64.minValue
  | .fixed x => x.isFinite = true

def StreamNumber.text : StreamNumber → String
  | .int n => toString n.toInt
  | .fixed x => NumberStyle.script.write x

def StreamConstant.Writable : StreamConstant → Prop
  | .number value => value.Writable
  | .vector values => ∀ value ∈ values, value.Writable

def DemodWeight.Writable : DemodWeight → Prop
  | .scalar value => value.Writable
  | .vector values => ∀ value ∈ values, value.Writable

def StreamFunction.Writable : StreamFunction → Prop
  | .averageAxis axis => axis ≠ Int64.minValue
  | .averageAxes axes => ∀ axis ∈ axes, axis ≠ Int64.minValue
  | .dotProduct vector => ∀ value ∈ vector, value.Writable
  | .multiplyBy scalar => scalar.Writable
  | .multiplyByVector vector => ∀ value ∈ vector, value.Writable
  | .convolution vector _ => ∀ value ∈ vector, value.Writable
  | .demod frequency cosine sine _ => frequency.Writable ∧ cosine.Writable ∧ sine.Writable
  | _ => True

/-- All numbers in the pipeline can be written. -/
def Pipeline.Writable : Pipeline → Prop
  | .source _ => True
  | .average parent | .flatten parent => parent.Writable
  | .buffer first others parent =>
    (∀ length ∈ first :: others, length ≠ Int64.minValue) ∧ parent.Writable
  | .bufferAndSkip length skipped parent =>
    length ≠ Int64.minValue ∧ skipped ≠ Int64.minValue ∧ parent.Writable
  | .map function parent => function.Writable ∧ parent.Writable
  | .skip length parent | .skipLast length parent | .take length parent =>
    length ≠ Int64.minValue ∧ parent.Writable
  | .histogram bins parent =>
    (∀ bin ∈ bins, ∀ value ∈ bin, StreamNumber.Writable value) ∧ parent.Writable
  | .zip other parent => other.Writable ∧ parent.Writable
  | .arithmetic _ left right => left.Writable ∧ right.Writable
  | .arithmeticLeft _ left right => left.Writable ∧ right.Writable
  | .arithmeticRight _ left right => left.Writable ∧ right.Writable

-- ---------------------------------------------------------------------------
-- Texts
-- ---------------------------------------------------------------------------

namespace StreamToken

/-- The text of the token as a pipeline. -/
abbrev HasText (token : StreamToken) (text : String) : Prop := token.rendering.pipeline = .ok text

@[simp] theorem token_rendering (token : StreamToken) : token.rendering.token = token := by
  cases token <;> rfl

theorem renderingsOf_eq (items : List StreamToken) : renderingsOf items = items.map rendering := by
  induction items with
  | nil => rfl
  | cons item items ih => rw [renderingsOf, ih, List.map_cons]

theorem hasText_atom (text : String) : HasText (.atom text) text := rfl

@[simp] theorem atom_rendering (text : String) : (StreamToken.atom text).rendering.atom = .ok text := rfl

/-- A list that starts with an operator is that operator with arguments. -/
theorem pipeline_operator (operator : String) (arguments : List StreamToken) :
    (rendering (.list (.atom operator :: arguments))).pipeline =
      Rendering.application ((StreamToken.atom operator :: arguments).map rendering) operator
        (arguments.map rendering) := by
  rw [rendering, renderingsOf_eq]
  rfl

theorem function_operator (operator : String) (arguments : List StreamToken) :
    (rendering (.list (.atom operator :: arguments))).function =
      Rendering.functionCall operator (arguments.map rendering) := by
  rw [rendering, renderingsOf_eq]
  rfl

theorem number_eq {value : StreamNumber} (h : value.Writable) : number value = .atom value.text := by
  cases value with
  | int n => rfl
  | fixed x =>
    have h : x.isFinite = true := h
    rw [number, if_pos h]
    rfl

theorem hasText_all {tokens : List StreamToken} {texts : List String}
    (h : List.Forall₂ HasText tokens texts) :
    (tokens.map rendering).mapM Rendering.pipeline = .ok texts := by
  induction h with
  | nil => rfl
  | @cons token text tokens texts h _ ih =>
    rw [List.map_cons, List.mapM_cons, show token.rendering.pipeline = .ok text from h, ih]
    rfl

/-- A list of tokens in square brackets. -/
theorem hasText_list {tokens : List StreamToken} {texts : List String}
    (h : List.Forall₂ HasText tokens texts) :
    HasText (.list (.atom vectorSymbol :: tokens)) ("[" ++ ", ".intercalate texts ++ "]") := by
  have hl : Rendering.application ((StreamToken.atom vectorSymbol :: tokens).map rendering)
      vectorSymbol (tokens.map rendering) = Rendering.vector (tokens.map rendering) := rfl
  rw [HasText, pipeline_operator, hl, Rendering.vector, hasText_all h]
  rfl

theorem hasText_vector {values : List StreamNumber} (h : ∀ value ∈ values, value.Writable) :
    HasText (vector values) ("[" ++ ", ".intercalate (values.map StreamNumber.text) ++ "]") := by
  refine hasText_list ?_
  induction values with
  | nil => exact .nil
  | cons value values ih =>
    rw [List.forall_mem_cons] at h
    refine .cons ?_ (ih h.2)
    rw [number_eq h.1]
    exact hasText_atom _

/-- Texts of integers. -/
theorem atoms_integers (values : List Int64) :
    Rendering.atoms ((values.map integer).map rendering) =
      .ok (", ".intercalate (values.map fun n => toString n.toInt)) := by
  have h : ((values.map integer).map rendering).mapM Rendering.atom =
      .ok (values.map fun n => toString n.toInt) := by
    induction values with
    | nil => rfl
    | cons n values ih =>
      rw [List.map_cons, List.map_cons, List.mapM_cons, ih]
      rfl
  rw [Rendering.atoms, h]
  rfl

/-- The text of a method call. -/
def methodText (text name : String) (arguments : List String) : String :=
  text ++ "." ++ name ++ "(" ++ ", ".intercalate arguments ++ ")"

section

variable {parent other : StreamToken} {text otherText : String}

theorem method_run (h : HasText parent text) (name : String) :
    parent.rendering.method name = .ok (methodText text name []) := by
  rw [Rendering.method, h]
  simp [methodText, bind, Except.bind, pure, Except.pure, String.append_assoc]

theorem methodOn_run (h : HasText parent text) (name : String) (ho : HasText other otherText) :
    parent.rendering.methodOn name other.rendering = .ok (methodText text name [otherText]) := by
  rw [Rendering.methodOn, h, ho]
  simp [methodText, bind, Except.bind, pure, Except.pure, String.append_assoc]

theorem methodOnAtoms_run (h : HasText parent text) (name : String) (arguments : List Int64) :
    parent.rendering.methodOnAtoms name ((arguments.map integer).map rendering) =
      .ok (methodText text name (arguments.map fun n => toString n.toInt)) := by
  rw [Rendering.methodOnAtoms, h, atoms_integers]
  rfl

theorem hasText_average (h : HasText parent text) :
    HasText parent.average (methodText text "average" []) := by
  rw [HasText, average, apply, pipeline_operator, ← method_run h]
  rfl

theorem hasText_flatten (h : HasText parent text) :
    HasText parent.flatten (methodText text "flatten" []) := by
  rw [HasText, flatten, apply, pipeline_operator, ← method_run h]
  rfl

theorem hasText_skip (h : HasText parent text) (length : Int64) :
    HasText (parent.skip length) (methodText text "skip" [toString length.toInt]) := by
  rw [HasText, skip, apply, pipeline_operator]
  exact methodOnAtoms_run h "skip" [length]

theorem hasText_skipLast (h : HasText parent text) (length : Int64) :
    HasText (parent.skipLast length) (methodText text "skip_last" [toString length.toInt]) := by
  rw [HasText, skipLast, apply, pipeline_operator]
  exact methodOnAtoms_run h "skip_last" [length]

theorem hasText_take (h : HasText parent text) (length : Int64) :
    HasText (parent.take length) (methodText text "take" [toString length.toInt]) := by
  rw [HasText, take, apply, pipeline_operator]
  exact methodOnAtoms_run h "take" [length]

theorem hasText_bufferAndSkip (h : HasText parent text) (length skipped : Int64) :
    HasText (parent.bufferAndSkip length skipped)
      (methodText text "buffer_and_skip" [toString length.toInt, toString skipped.toInt]) := by
  rw [HasText, bufferAndSkip, apply, pipeline_operator]
  exact methodOnAtoms_run h "buffer_and_skip" [length, skipped]

/-- The lengths and the stream come as one list, which `application` takes apart from the back. -/
theorem pipeline_buffer (first : Int64) (others : List Int64) (parent : StreamToken) :
    (parent.buffer (first :: others)).rendering.pipeline =
      parent.rendering.methodOnAtoms "buffer" (((first :: others).map integer).map rendering) := by
  rw [buffer, apply, pipeline_operator]
  cases others with
  | nil => rfl
  | cons second others =>
    have hrun : ∀ items last, Rendering.application items "buffer"
        ((integer first).rendering :: (integer second).rendering ::
          ((others.map integer).map rendering ++ [last])) =
        last.methodOnAtoms "buffer" (((first :: second :: others).map integer).map rendering) := by
      intro items last
      refine Eq.trans (b := Rendering.methodOnAtoms
        (((integer second).rendering :: ((others.map integer).map rendering ++ [last])).getLast
          (List.cons_ne_nil _ _)) "buffer" ((integer first).rendering ::
        ((integer second).rendering :: ((others.map integer).map rendering ++ [last])).dropLast)) rfl ?_
      simp only [← List.cons_append, List.getLast_concat, List.dropLast_concat, List.map_cons]
    simp only [List.map_cons, List.map_append, List.map_nil, List.cons_append]
    exact hrun _ _

theorem hasText_buffer (h : HasText parent text) (first : Int64) (others : List Int64) :
    HasText (parent.buffer (first :: others))
      (methodText text "buffer" ((first :: others).map fun n => toString n.toInt)) := by
  rw [HasText, pipeline_buffer]
  exact methodOnAtoms_run h "buffer" (first :: others)

theorem hasText_zip (h : HasText parent text) (ho : HasText other otherText) :
    HasText (zip other parent) (methodText text "zip" [otherText]) := by
  rw [HasText, zip, apply, pipeline_operator, ← methodOn_run h "zip" ho]
  rfl

theorem hasText_histogram (h : HasText parent text) {bins : List (List StreamNumber)}
    (hb : ∀ bin ∈ bins, ∀ value ∈ bin, StreamNumber.Writable value) :
    HasText (parent.histogram bins) (methodText text "histogram"
      ["[" ++ ", ".intercalate (bins.map fun bin =>
        "[" ++ ", ".intercalate (bin.map StreamNumber.text) ++ "]") ++ "]"]) := by
  have hvectors : List.Forall₂ HasText (bins.map vector) (bins.map fun bin =>
      "[" ++ ", ".intercalate (bin.map StreamNumber.text) ++ "]") := by
    clear h
    induction bins with
    | nil => exact .nil
    | cons bin bins ih =>
      rw [List.forall_mem_cons] at hb
      exact .cons (hasText_vector hb.1) (ih hb.2)
  rw [HasText, histogram, apply, pipeline_operator,
    ← methodOn_run h "histogram" (hasText_list hvectors)]
  rfl

theorem hasText_map (h : HasText parent text) {function : StreamFunction}
    {functionText : String} (hf : function.token.rendering.function = .ok functionText) :
    HasText (parent.map function) (methodText text "map" ["FUNCTIONS." ++ functionText]) := by
  have hrun : Rendering.application (([.atom "map", function.token] ++ [parent]).map rendering) "map"
      (([function.token] ++ [parent]).map rendering) = do
        let parent ← parent.rendering.pipeline
        let function ← function.token.rendering.function
        return parent ++ ".map(FUNCTIONS." ++ function ++ ")" := rfl
  rw [HasText, map, apply, pipeline_operator]
  refine hrun.trans ?_
  rw [h, hf]
  simp only [methodText, bind, Except.bind, pure, Except.pure, String.intercalate_singleton,
    String.append_assoc]
  have happend : ".map(FUNCTIONS." = "." ++ ("map" ++ ("(" ++ "FUNCTIONS.")) := rfl
  rw [happend, String.append_assoc, String.append_assoc, String.append_assoc]

end

-- ---------------------------------------------------------------------------
-- Arithmetic and sources
-- ---------------------------------------------------------------------------

/-- Arithmetic on a stream is a method of it, and what is left of a stream stands before an operator. -/
theorem hasText_arithmetic (left right : StreamOperand) {l r : String}
    (hl : HasText left.token l) (hr : HasText right.token r) (operator : ArithmeticOperator) :
    HasText (arithmetic operator left right)
      (if left.token.isStream then
        "(" ++ (l ++ "." ++ Rendering.arithmeticMethod operator.symbol ++ "(" ++ r ++ ")") ++ ")"
      else "(" ++ (l ++ operator.symbol ++ r) ++ ")") := by
  have hrun : Rendering.arithmetic operator.symbol left.token.rendering right.token.rendering =
      .ok (if left.token.isStream then
        "(" ++ (l ++ "." ++ Rendering.arithmeticMethod operator.symbol ++ "(" ++ r ++ ")") ++ ")"
      else "(" ++ (l ++ operator.symbol ++ r) ++ ")") := by
    rw [Rendering.arithmetic, hl, hr, token_rendering]
    simp only [bind, Except.bind]
    split <;> simp [pure, Except.pure, String.append_assoc]
  rw [HasText, arithmetic, pipeline_operator, ← hrun]
  cases operator <;> rfl

/-- What is called on a source for its mode. -/
def modeMethod? : TimestampMode → Option String
  | .values => none
  | .timestamps => some "timestamps"
  | .valuesAndTimestamps => some "with_timestamps"

def inputMethod : AdcInput → String
  | .first => "input1"
  | .second => "input2"

theorem hasText_read (mode : TimestampMode) (name : String) :
    HasText (.list [.atom sourceSymbol, .atom mode.code, .atom name])
      (match modeMethod? mode with
        | none => name
        | some method => methodText name method []) := by
  have hrun : ∀ modeText, Rendering.modeText
      (([.atom sourceSymbol, .atom mode.code, .atom name] : List StreamToken).map rendering)
        mode.code = .ok modeText →
      HasText (.list [.atom sourceSymbol, .atom mode.code, .atom name]) (name ++ modeText) := by
    intro modeText h
    rw [HasText, pipeline_operator]
    exact congrArg (· >>= fun mode => pure (name ++ mode)) h
  cases mode with
  | values =>
    have h := hrun "" rfl
    rwa [String.append_empty] at h
  | timestamps => simpa [modeMethod?, methodText, String.append_assoc] using hrun ".timestamps()" rfl
  | valuesAndTimestamps =>
    simpa [modeMethod?, methodText, String.append_assoc] using hrun ".with_timestamps()" rfl

section

variable {token : StreamToken} {text : String}

theorem hasText_input (h : HasText token text) (input : AdcInput) :
    HasText (.list [.atom inputSymbol, .atom input.code, token])
      (methodText text (inputMethod input) []) := by
  have hrun : Rendering.application
      (([.atom inputSymbol, .atom input.code, token] : List StreamToken).map rendering) inputSymbol
      (([.atom input.code, token] : List StreamToken).map rendering) =
      token.rendering.pipeline >>= fun parent =>
        pure (parent ++ ".input" ++ input.code ++ "()") := rfl
  rw [HasText, pipeline_operator, hrun, h]
  cases input <;> simp [AdcInput.code, inputMethod, methodText, bind, Except.bind, pure,
    Except.pure, String.append_assoc]

theorem hasText_reshape (h : HasText token text) :
    HasText (.list [.atom autoReshapeSymbol, token]) (methodText text "auto_reshape" []) := by
  rw [HasText, pipeline_operator, ← method_run h]
  rfl

theorem hasText_adcTrace (h : HasText token text) : HasText (.list [.atom adcTraceSymbol, token]) text := by
  rw [HasText, pipeline_operator, ← h]
  rfl

end

-- ---------------------------------------------------------------------------
-- Functions
-- ---------------------------------------------------------------------------

/-- The text of a call of a function. -/
def functionText (name : String) (arguments : List String) : String :=
  name ++ "(" ++ ",".intercalate arguments ++ ")"

/-- A function with one argument, which is a pipeline. -/
theorem function_call {operator name : String} {argument : StreamToken} {text : String}
    (hname : ∀ item, Rendering.functionCall operator [item] = Rendering.call name item)
    (h : HasText argument text) :
    (rendering (.list [.atom operator, argument])).function = .ok (functionText name [text]) := by
  rw [function_operator, List.map_singleton, hname, Rendering.call, h]
  simp [functionText, bind, Except.bind, pure, Except.pure, String.append_assoc]

/-- The mode of a convolution in quotes, or nothing. -/
def modeTexts (mode : Option ConvolutionMode) : List String :=
  mode.toList.map fun mode => "\"" ++ mode.name ++ "\""

theorem function_convolution {vector : List StreamNumber} {text : String} (h : HasText (.vector vector) text)
    (mode : Option ConvolutionMode) :
    (StreamFunction.convolution vector mode).token.rendering.function =
      .ok (functionText "convolution" (text :: modeTexts mode)) := by
  rw [StreamFunction.token, function_operator]
  cases mode with
  | none =>
    simp [Rendering.functionCall, StreamFunction.modeToken, h, functionText, modeTexts, bind,
      Except.bind, pure, Except.pure, String.append_assoc]
  | some mode =>
    cases mode <;> simp [Rendering.functionCall, StreamFunction.modeToken, h, functionText, modeTexts,
      ConvolutionMode.name, bind, Except.bind, pure, Except.pure, String.append_assoc]

theorem function_tupleConvolution (mode : Option ConvolutionMode) :
    (StreamFunction.tupleConvolution mode).token.rendering.function =
      .ok (functionText "tuple_convolution" (modeTexts mode)) := by
  rw [StreamFunction.token, function_operator]
  cases mode with
  | none => rfl
  | some mode => cases mode <;> rfl

theorem function_fft (output : Option FftOutput) :
    (StreamFunction.fft output).token.rendering.function =
      .ok (functionText "fft" (output.toList.map fun output => "\"" ++ output.name ++ "\"")) := by
  cases output with
  | none => rfl
  | some output => cases output <;> rfl

theorem function_demod {frequency : StreamNumber} {cosine sine : DemodWeight} {c s : String}
    (hf : frequency.Writable) (hc : HasText cosine.token c) (hs : HasText sine.token s)
    (integrate : Option Bool) :
    (StreamFunction.demod frequency cosine sine integrate).token.rendering.function =
      .ok (functionText "demod" ([frequency.text, c, s] ++
        integrate.toList.map fun integrate => "integrate=" ++ if integrate then "True" else "False")) := by
  cases integrate with
  | none =>
    simp only [StreamFunction.token, number_eq hf, List.cons_append, List.nil_append,
      function_operator]
    simp [Rendering.functionCall, hc, hs, hasText_atom, functionText, bind, Except.bind, pure,
      Except.pure, String.append_assoc]
  | some integrate =>
    simp only [StreamFunction.token, number_eq hf, List.cons_append, List.nil_append,
      function_operator]
    cases integrate <;> simp [Rendering.functionCall, hc, hs, hasText_atom, functionText, bind,
      Except.bind, pure, Except.pure, String.append_assoc]

end StreamToken
end Qua
