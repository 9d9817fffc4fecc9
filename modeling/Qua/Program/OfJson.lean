import Qua.Json.Content
import Qua.Program.ToJson

/-!
# Programs from JSON

The readers of what `Program.toJson` and its parts write. How a real is read is left to the caller.
Nested values are read by readers whose fuel bounds the depth.
-/

namespace Qua

variable (real? : Json → Option Binary64)

def Literal.ofJson? (json : Json) : Option Literal := do
  match ← json.choice? with
  | ("Int", value) => Literal.int <$> value.int32?
  | ("Bool", value) => Literal.bool <$> value.bool?
  | ("Fixed", value) => Literal.fixed <$> real? value
  | _ => none

def Variable.ofJson? (json : Json) : Option Variable :=
  match json.choice? with
  | some ("Named", name) => Variable.named <$> name.string?
  | _ => (Register.all.map Variable.io).find? fun v => v.toJson.same json

namespace Expression

/-- The expression that is written as the value, nested at most `fuel` deep. -/
def ofJsonWithin : Nat → Json → Option Expression
  | 0, _ => none
  | fuel + 1, json => do
    match ← json.choice? with
    | ("Variable", v) => Expression.var <$> Variable.ofJson? v
    | ("ArrayVar", name) => Expression.array <$> name.string?
    | ("ArrayCell", content) =>
      return .cell (← content.field? Json.string? "array")
        (← content.field? (ofJsonWithin fuel) "index")
    | ("Literal", value) => Expression.literal <$> Literal.ofJson? real? value
    | ("Binary", content) =>
      return .binary
        (← content.field? (Json.oneOf? BinaryOperator.all fun op => .string op.name) "operator")
        (← content.field? (ofJsonWithin fuel) "left") (← content.field? (ofJsonWithin fuel) "right")
    | ("LibCall", content) =>
      return .call
        (← content.field? (Json.oneOf? Library.all fun library => .string library.namespaceName)
          "library")
        (← content.field? Json.string? "function")
        (← content.field? (Json.all? (ofJsonWithin fuel)) "arguments")
    | ("ArrayLength", name) => Expression.length <$> name.string?
    | _ => none

/-- The expression that is written as the value. -/
def ofJson? (json : Json) : Option Expression := ofJsonWithin real? (json.depth + 1) json

end Expression

namespace MeasureProcess

def weightsOfJson? (json : Json) : Option IntegrationWeights := do
  match ← json.choice? with
  | ("Single", content) =>
    return .single (← content.field? Json.string? "weights") (← content.field? Json.string? "output")
  | ("Dual", content) =>
    return .dual (← content.field? Json.string? "weights1") (← content.field? Json.string? "output1")
      (← content.field? Json.string? "weights2") (← content.field? Json.string? "output2")
  | _ => none

def targetOfJson? (json : Json) : Option ProcessTarget := do
  match ← json.choice? with
  | ("Full", target) => ProcessTarget.full <$> Expression.ofJson? real? target
  | ("Sliced", content) =>
    return .sliced (← content.field? Json.string? "array")
      (← content.field? Json.int64? "samples_per_chunk")
  | ("Accumulated", content) =>
    return .accumulated (← content.field? Json.string? "array")
      (← content.field? Json.int64? "samples_per_chunk")
  | ("MovingWindow", content) =>
    return .movingWindow (← content.field? Json.string? "array")
      (← content.field? Json.int64? "samples_per_chunk")
      (← content.field? Json.int64? "chunks_per_window")
  | _ => none

def ofJson? (json : Json) : Option MeasureProcess := do
  match ← json.choice? with
  | ("Analog", content) =>
    return .analog
      ⟨← content.field? (Json.oneOf? AnalogKind.all kindJson) "kind",
        ← content.field? weightsOfJson? "weights",
        ← content.field? (targetOfJson? real?) "target"⟩
  | ("TimeTagging", content) =>
    return .timeTagging
      ⟨← content.field? (Json.oneOf? TimeTaggingKind.all timeTaggingKindJson) "kind",
        ← content.field? Json.string? "target",
        ← content.optional? Json.string? "target_len",
        ← content.field? Json.int64? "max_time",
        ← content.field? Json.string? "output"⟩
  | ("Counting", content) =>
    return .counting
      ⟨← content.field? Json.strings? "outputs", ← content.field? Json.string? "target",
        ← content.field? Json.int64? "max_time"⟩
  | _ => none

end MeasureProcess

def Matrix.ofJson? (json : Json) : Option Matrix := do
  match ← json.all? (Expression.ofJson? real?) with
  | [c00, c01, c10, c11] => some ⟨c00, c01, c10, c11⟩
  | _ => none

def Pulse.ofJson? (json : Json) : Option Pulse := do
  match ← json.choice? with
  | ("Named", name) => Pulse.named <$> name.string?
  | ("Ramp", rate) => Pulse.ramp <$> Expression.ofJson? real? rate
  | _ => none

def Amp.ofJson? (json : Json) : Option Amp := do
  match ← json.choice? with
  | ("Scalar", value) => Amp.scalar <$> Expression.ofJson? real? value
  | ("Matrix", values) => Amp.matrix <$> Matrix.ofJson? real? values
  | _ => none

def Chirp.ofJson? (json : Json) : Option Chirp := do
  return ⟨← json.field? (Expression.ofJson? real?) "rate",
    ← json.field? (Json.all? Json.int64?) "times",
    ← json.field? (Json.oneOf? ChirpUnits.all ChirpUnits.toJson) "units",
    ← json.field? Json.bool? "continue_chirp"⟩

def TriggerElement.ofJson? (json : Json) : Option TriggerElement := do
  return ⟨← json.field? Json.string? "element", ← json.optional? Json.string? "output"⟩

namespace Action

def playOfJson? (json : Json) : Option Play := do
  let pulse ← json.field? (Pulse.ofJson? real?) "pulse"
  let element ← json.field? Json.string? "element"
  let amp ← json.optional? (Amp.ofJson? real?) "amp"
  let duration ← json.optional? (Expression.ofJson? real?) "duration"
  let condition ← json.optional? (Expression.ofJson? real?) "condition"
  let target ← json.optional? Json.string? "target"
  let chirp ← json.optional? (Chirp.ofJson? real?) "chirp"
  let truncate ← json.optional? (Expression.ofJson? real?) "truncate"
  let timestampStream ← json.optional? Json.string? "timestamp_stream"
  return { pulse, element, amp, duration, condition, target, chirp, truncate, timestampStream }

def measureOfJson? (json : Json) : Option Measure := do
  let pulse ← json.field? Json.string? "pulse"
  let element ← json.field? Json.string? "element"
  let amp ← json.optional? (Amp.ofJson? real?) "amp"
  let stream ← json.optional? Json.string? "stream"
  let processes ← json.field? (Json.all? (MeasureProcess.ofJson? real?)) "processes"
  let timestampStream ← json.optional? Json.string? "timestamp_stream"
  return { pulse, element, amp, stream, processes, timestampStream }

def waitForTriggerOfJson? (json : Json) : Option WaitForTrigger := do
  return ⟨← json.field? Json.strings? "elements", ← json.optional? Json.string? "pulse_to_play",
    ← json.optional? TriggerElement.ofJson? "trigger_element",
    ← json.optional? Json.string? "time_tag_target"⟩

/-- The action of a kind whose members the value has. -/
def ofJson? (kind : String) (json : Json) : Option Action := do
  let expression (name : String) := json.field? (Expression.ofJson? real?) name
  let string (name : String) := json.field? Json.string? name
  match kind with
  | "Play" => Action.play <$> playOfJson? real? json
  | "Measure" => Action.measure <$> measureOfJson? real? json
  | "Wait" => return .wait (← expression "duration") (← json.field? Json.strings? "elements")
  | "Align" => Action.align <$> json.field? Json.strings? "elements"
  | "Assign" => return .assign (← expression "target") (← expression "expression")
  | "Save" => return .save (← expression "source") (← string "stream")
  | "Pause" => return .pause
  | "UpdateFrequency" =>
    return .updateFrequency (← string "element") (← expression "value")
      (← json.field? (Json.oneOf? FrequencyUnits.all FrequencyUnits.toJson) "units")
      (← json.field? Json.bool? "keep_phase")
  | "UpdateCorrection" =>
    return .updateCorrection (← string "element")
      (← json.field? (Matrix.ofJson? real?) "correction")
  | "SetDcOffset" =>
    return .setDcOffset (← string "element") (← string "input") (← expression "offset")
  | "AdvanceInputStream" => Action.advanceInputStream <$> expression "stream"
  | "ResetPhase" => Action.resetPhase <$> string "element"
  | "ResetFrame" => Action.resetFrame <$> string "element"
  | "ZRotation" => return .zRotation (← expression "angle") (← string "element")
  | "RampToZero" =>
    return .rampToZero (← string "element") (← json.optional? Json.int64? "duration")
  | "FastFrameRotation" =>
    return .fastFrameRotation (← expression "cosine") (← expression "sine") (← string "element")
  | "WaitForTrigger" => Action.waitForTrigger <$> waitForTriggerOfJson? json
  | _ => none

end Action

def Iterator.ofJson? (json : Json) : Option Iterator := do
  return ⟨← json.field? Json.string? "variable", ← json.field? Json.string? "array"⟩

namespace Statement

/-- A branch whose statements are read by `statement?`. -/
def branchOfJson? (statement? : Json → Option Statement) (json : Json) :
    Option (Branch Statement) := do
  return ⟨← json.field? (Expression.ofJson? real?) "condition",
    ← json.field? (Json.all? statement?) "body", ← json.field? Json.string? "loc"⟩

/-- The statement that is written as the value, nested at most `fuel` deep. -/
def ofJsonWithin : Nat → Json → Option Statement
  | 0, _ => none
  | fuel + 1, json => do
    let (kind, content) ← json.choice?
    let block (name : String) := content.field? (Json.all? (ofJsonWithin fuel)) name
    let location ← content.field? Json.string? "loc"
    match kind with
    | "If" =>
      return .conditional (← content.field? (Expression.ofJson? real?) "condition")
        (← content.field? Json.bool? "unsafe_") (← block "body")
        (← content.field? (Json.all? (branchOfJson? real? (ofJsonWithin fuel))) "elseifs")
        (← content.optional? (Json.all? (ofJsonWithin fuel)) "else_") location
    | "For" =>
      return .loop (← block "init")
        (← content.optional? (Expression.ofJson? real?) "condition") (← block "update")
        (← block "body") location
    | "ForEach" =>
      return .forEach (← content.field? (Json.all? Iterator.ofJson?) "iterators") (← block "body")
        location
    | "StrictTiming" => return .strictTiming (← block "body") location
    | kind => return .action (← Action.ofJson? real? kind content) location

/-- The statement that is written as the value. -/
def ofJson? (json : Json) : Option Statement := ofJsonWithin real? (json.depth + 1) json

end Statement

def Declaration.ofJson? (json : Json) : Option Declaration := do
  return ⟨← json.field? Json.string? "name",
    ← json.field? (Json.oneOf? ScalarType.all ScalarType.toJson) "scalar_type",
    UInt64.ofNat (← json.field? (Json.below? UInt64.size) "size"),
    UInt8.ofNat (← json.field? (Json.below? UInt8.size) "dim"),
    ← json.field? Json.bool? "is_input_stream",
    ← json.field? (Json.all? (Literal.ofJson? real?)) "value"⟩

namespace StreamToken

/-- The token that is written as the value, nested at most `fuel` deep. -/
def ofJsonWithin : Nat → Json → Option StreamToken
  | 0, _ => none
  | fuel + 1, json => do
    match ← json.choice? with
    | ("Atom", value) => StreamToken.atom <$> value.string?
    | ("List", items) => StreamToken.list <$> items.all? (ofJsonWithin fuel)
    | _ => none

/-- The token that is written as the value. -/
def ofJson? (json : Json) : Option StreamToken := ofJsonWithin (json.depth + 1) json

end StreamToken

def SaveEntry.ofJson? (json : Json) : Option SaveEntry := do
  return ⟨← json.field? (Json.oneOf? SaveKind.all SaveKind.toJson) "kind",
    ← json.field? Json.string? "tag", ← json.field? Json.bool? "auto",
    ← json.field? StreamToken.ofJson? "pipeline"⟩

def Metadata.ofJson? (json : Json) : Option Metadata := do
  return ⟨← json.field? Json.bool? "uses_command_timestamps",
    ← json.field? Json.bool? "uses_fast_frame_rotation"⟩

def ResultAnalysis.ofJson? (json : Json) : Option ResultAnalysis :=
  ResultAnalysis.mk <$> json.field? (Json.all? SaveEntry.ofJson?) "entries"

/-- The program that is written as the value. -/
def Program.ofJson? (json : Json) : Option Program := do
  return ⟨← json.field? (Json.all? (Declaration.ofJson? real?)) "variables",
    ← json.field? (Json.all? (Statement.ofJson? real?)) "body",
    ← json.field? ResultAnalysis.ofJson? "result_analysis",
    ← json.field? Metadata.ofJson? "metadata"⟩

end Qua
