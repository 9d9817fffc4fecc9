import Qua.Replay.Arguments

/-!
# Functions of modules

The measure processes and the stream functions that a script can call.
-/

namespace Qua.Replay

open Taking

/-- The module of the stream functions. -/
def functionsModule : String := "FUNCTIONS"

def processModules : List String :=
  ["demod", "integration", "dual_demod", "dual_integration", "time_tagging", "counting"]

/-- Whether a name that is not bound is that of a module. -/
def isModule (name : String) : Bool :=
  name == functionsModule || processModules.contains name || (Library.ofNamespace? name).isSome

/-- The output of an element, which is empty if not given. -/
def output (position : Nat) : Taking String := do
  let value ← optional position "element_output"
  return (← optionalAs Value.toText value).getD ""

def ofExpression (result : Except ExpressionError α) : Taking α :=
  liftM (Faulty.ofExpression result)

/-- A demodulation or integration with one pair of weights and output. -/
def singleProcess (kind : AnalogKind) (module name : String) : Taking MeasureProcess := do
  let weights ← text 0 "iw"
  let target ← expression 1 "target"
  let process (output : String) (target : ProcessTarget) : MeasureProcess :=
    .analog ⟨kind, .single weights output, target⟩
  match name with
  | "full" =>
    let output ← output 2
    process output <$> ofExpression (ProcessTarget.fullOf target)
  | "sliced" =>
    let samples ← int 2 "samples_per_chunk"
    let output ← output 3
    process output <$> ofExpression (ProcessTarget.slicedOf target samples)
  | "accumulated" =>
    let samples ← int 2 "samples_per_chunk"
    let output ← output 3
    process output <$> ofExpression (ProcessTarget.accumulatedOf target samples)
  | "moving_window" =>
    let samples ← int 2 "samples_per_chunk"
    let chunks ← int 3 "chunks_per_window"
    let output ← output 4
    process output <$> ofExpression (ProcessTarget.movingWindowOf target samples chunks)
  | _ => throw (.unknownFunction (module ++ "." ++ name))

/-- A demodulation or integration with two pairs of weights and outputs. -/
def dualProcess (kind : AnalogKind) (name : String) : Taking MeasureProcess := do
  let weights1 ← text 0 "iw1"
  let output1 ← text 1 "element_output1"
  let weights2 ← text 2 "iw2"
  let output2 ← text 3 "element_output2"
  let process (target : ProcessTarget) : MeasureProcess :=
    .analog ⟨kind, .dual weights1 output1 weights2 output2, target⟩
  match name with
  | "full" =>
    let target ← expression 4 "target"
    process <$> ofExpression (ProcessTarget.fullOf target)
  | "sliced" =>
    let samples ← int 4 "samples_per_chunk"
    let target ← expression 5 "target"
    process <$> ofExpression (ProcessTarget.slicedOf target samples)
  | "accumulated" =>
    let samples ← int 4 "samples_per_chunk"
    let target ← expression 5 "target"
    process <$> ofExpression (ProcessTarget.accumulatedOf target samples)
  | "moving_window" =>
    let samples ← int 4 "samples_per_chunk"
    let chunks ← int 5 "chunks_per_window"
    let target ← expression 6 "target"
    process <$> ofExpression (ProcessTarget.movingWindowOf target samples chunks)
  | _ => throw (.unknownFunction ("dual process " ++ name))

def timeTaggingKind? : String → Option TimeTaggingKind
  | "analog" => some .analog
  | "digital" => some .digital
  | "high_res" => some .highRes
  | _ => none

def timeTagging (name : String) : Taking MeasureProcess := do
  let target ← expression 0 "target"
  let maxTime ← int 1 "max_time"
  let targetLength ← optionalAs Value.toExpression (← optional 2 "targetLen")
  let output ← output 3
  match timeTaggingKind? name with
  | some kind => ofExpression (MeasureProcess.timeTaggingOf kind target maxTime targetLength output)
  | none => throw (.unknownFunction ("time_tagging." ++ name))

/-- One output or several. -/
def outputs : Value → Faulty (List String)
  | .string output => .ok [output]
  | other => do
    let items ← other.toItems
    items.mapM Value.toText

def counting (name : String) : Taking MeasureProcess := do
  if name = "digital" then
    let target ← expression 0 "target"
    let maxTime ← int 1 "max_time"
    let outputs ← optionalAs outputs (← optional 2 "element_outputs")
    ofExpression (MeasureProcess.countingOf target maxTime (outputs.getD []))
  else throw (.unknownFunction ("counting." ++ name))

def measureProcess (module name : String) : Taking MeasureProcess :=
  match module with
  | "demod" => singleProcess .demod module name
  | "integration" => singleProcess .integration module name
  | "dual_demod" => dualProcess .demod name
  | "dual_integration" => dualProcess .integration name
  | "time_tagging" => timeTagging name
  | "counting" => counting name
  | _ => throw (.unknownFunction (module ++ "." ++ name))

/-- One axis or several. -/
def averageAxes : Value → Faulty StreamFunction
  | .int axis => .ok (.averageAxis axis)
  | other => .averageAxes <$> other.toInts

def multiplier : Value → Faulty StreamFunction
  | .list items => .multiplyByVector <$> items.mapM Value.toNumber
  | .tuple items => .multiplyByVector <$> items.mapM Value.toNumber
  | other => .multiplyBy <$> other.toNumber

def streamFunction (name : String) : Taking StreamFunction := do
  match name with
  | "average" =>
    match ← optional 0 "axis" with
    | none => return .average
    | some axes => averageAxes axes
  | "dot_product" =>
    let vector ← required 0 "vector"
    return .dotProduct (← vector.toNumbers)
  | "tuple_dot_product" => return .tupleDotProduct
  | "multiply_by" =>
    let factor ← required 0 "scalar_or_vector"
    multiplier factor
  | "tuple_multiply" => return .tupleMultiply
  | "convolution" =>
    let vector ← required 0 "constant_vector"
    let vector ← vector.toNumbers
    let mode ← choice ConvolutionMode.ofName? 1 "mode"
    return .convolution vector mode
  | "tuple_convolution" => .tupleConvolution <$> choice ConvolutionMode.ofName? 0 "mode"
  | "fft" => .fft <$> choice FftOutput.ofName? 0 "output"
  | "boolean_to_int" => return .booleanToInt
  | "demod" =>
    let frequency ← required 0 "frequency"
    let frequency ← frequency.toNumber
    let cosine ← required 1 "iw_cos"
    let cosine ← cosine.toWeight
    let sine ← required 2 "iw_sin"
    let sine ← sine.toWeight
    let integrate ← optionalAs Value.toBool (← optional 3 "integrate")
    return .demod frequency cosine sine integrate
  | _ => throw (.unknownFunction (functionsModule ++ "." ++ name))

end Qua.Replay
