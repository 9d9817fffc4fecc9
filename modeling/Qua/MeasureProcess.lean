import Qua.Expression.Describe

/-!
# Measure processes

What a measurement computes from the acquired data, and the variable or array that receives it.
-/

namespace Qua

inductive AnalogKind
  | demod
  | integration
  deriving DecidableEq, Repr

def AnalogKind.all : List AnalogKind := [.demod, .integration]

/-- Integration weights, each with the output of the element that they are applied to. -/
inductive IntegrationWeights
  | single (weights output : String)
  | dual (weights1 output1 weights2 output2 : String)
  deriving DecidableEq, Repr

/-- Where the results go: one value, or an array with a value for each chunk of samples. -/
inductive ProcessTarget
  | full (target : Expression)
  | sliced (array : String) (samplesPerChunk : Int64)
  | accumulated (array : String) (samplesPerChunk : Int64)
  | movingWindow (array : String) (samplesPerChunk chunksPerWindow : Int64)
  deriving BEq, Repr

structure AnalogProcess where
  kind : AnalogKind
  weights : IntegrationWeights
  target : ProcessTarget
  deriving BEq, Repr

inductive TimeTaggingKind
  | analog
  | digital
  | highRes
  deriving DecidableEq, Repr

def TimeTaggingKind.all : List TimeTaggingKind := [.analog, .digital, .highRes]

def TimeTaggingKind.name : TimeTaggingKind → String
  | .analog => "analog"
  | .digital => "digital"
  | .highRes => "high_res"

structure TimeTagging where
  kind : TimeTaggingKind
  target : String
  targetLength : Option String
  maxTime : Int64
  output : String
  deriving BEq, Repr

structure Counting where
  outputs : List String
  target : String
  maxTime : Int64
  deriving BEq, Repr

inductive MeasureProcess
  | analog (process : AnalogProcess)
  | timeTagging (process : TimeTagging)
  | counting (process : Counting)
  deriving BEq, Repr

namespace ProcessTarget

/-- A single value goes to a variable or to the cell of an array. -/
def fullOf (target : Expression) : Except ExpressionError ProcessTarget :=
  match target with
  | .var _ => .ok (.full target)
  | .cell _ _ => .ok (.full target)
  | other => .error (.notAScalar other.describe)

/-- The name of an array. -/
def arrayOf (target : Expression) : Except ExpressionError String :=
  match target.arrayName? with
  | some name => .ok name
  | none => .error (.notAnArray target.describe)

/-- The name of a variable that is not a register. -/
def variableOf (target : Expression) : Except ExpressionError String :=
  match target.variableName? with
  | some name => .ok name
  | none => .error (.notAScalar target.describe)

def slicedOf (target : Expression) (samples : Int64) : Except ExpressionError ProcessTarget :=
  (ProcessTarget.sliced · samples) <$> arrayOf target

def accumulatedOf (target : Expression) (samples : Int64) : Except ExpressionError ProcessTarget :=
  (ProcessTarget.accumulated · samples) <$> arrayOf target

def movingWindowOf (target : Expression) (samples chunks : Int64) :
    Except ExpressionError ProcessTarget :=
  (ProcessTarget.movingWindow · samples chunks) <$> arrayOf target

end ProcessTarget

namespace MeasureProcess

def timeTaggingOf (kind : TimeTaggingKind) (target : Expression) (maxTime : Int64)
    (targetLength : Option Expression) (output : String) : Except ExpressionError MeasureProcess := do
  let target ← ProcessTarget.arrayOf target
  let targetLength ← targetLength.mapM ProcessTarget.variableOf
  return .timeTagging ⟨kind, target, targetLength, maxTime, output⟩

def countingOf (target : Expression) (maxTime : Int64) (outputs : List String) :
    Except ExpressionError MeasureProcess := do
  let target ← ProcessTarget.variableOf target
  return .counting ⟨outputs, target, maxTime⟩

end MeasureProcess
end Qua
