import Qua.Json
import Qua.Program

/-!
# Programs as JSON

Enumerations are named by a string and other choices are objects with one member, named for the
choice. How a real is written is left to the caller.
-/

namespace Qua

namespace Json

def strings (items : List String) : Json := .array (items.map .string)

def optional (write : α → Json) : Option α → Json
  | none => .null
  | some value => write value

/-- A choice with its content. -/
def choice (name : String) (content : Json) : Json := .object [(name, content)]

def int64 (n : Int64) : Json := .integer n.toInt

end Json

variable (real : Binary64 → Json)

def Literal.toJson : Literal → Json
  | .int value => .choice "Int" (.integer value.toInt)
  | .bool value => .choice "Bool" (.bool value)
  | .fixed value => .choice "Fixed" (real value)

def Variable.toJson : Variable → Json
  | .named name => .choice "Named" (.string name)
  | .io .io1 => .choice "Io" (.string "Io1")
  | .io .io2 => .choice "Io" (.string "Io2")

namespace Expression

mutual

def toJson : Expression → Json
  | .var v => .choice "Variable" v.toJson
  | .array name => .choice "ArrayVar" (.string name)
  | .cell name i => .choice "ArrayCell" (.object [("array", .string name), ("index", i.toJson)])
  | .literal value => .choice "Literal" (value.toJson real)
  | .binary operator left right =>
    .choice "Binary" (.object [("operator", .string operator.name), ("left", left.toJson),
      ("right", right.toJson)])
  | .call library function arguments =>
    .choice "LibCall" (.object [("library", .string library.namespaceName),
      ("function", .string function), ("arguments", .array (toJsonAll arguments))])
  | .length name => .choice "ArrayLength" (.string name)

def toJsonAll : List Expression → List Json
  | [] => []
  | e :: rest => e.toJson :: toJsonAll rest

end

end Expression

namespace MeasureProcess

def kindJson : AnalogKind → Json
  | .demod => .string "Demod"
  | .integration => .string "Integration"

def weightsJson : IntegrationWeights → Json
  | .single weights output =>
    .choice "Single" (.object [("weights", .string weights), ("output", .string output)])
  | .dual weights1 output1 weights2 output2 =>
    .choice "Dual" (.object [("weights1", .string weights1), ("output1", .string output1),
      ("weights2", .string weights2), ("output2", .string output2)])

def targetJson : ProcessTarget → Json
  | .full target => .choice "Full" (target.toJson real)
  | .sliced array samples =>
    .choice "Sliced" (.object [("array", .string array), ("samples_per_chunk", .int64 samples)])
  | .accumulated array samples =>
    .choice "Accumulated" (.object [("array", .string array), ("samples_per_chunk", .int64 samples)])
  | .movingWindow array samples chunks =>
    .choice "MovingWindow" (.object [("array", .string array), ("samples_per_chunk", .int64 samples),
      ("chunks_per_window", .int64 chunks)])

def timeTaggingKindJson : TimeTaggingKind → Json
  | .analog => .string "Analog"
  | .digital => .string "Digital"
  | .highRes => .string "HighRes"

def toJson : MeasureProcess → Json
  | .analog process =>
    .choice "Analog" (.object [("kind", kindJson process.kind),
      ("weights", weightsJson process.weights), ("target", targetJson real process.target)])
  | .timeTagging process =>
    .choice "TimeTagging" (.object [("kind", timeTaggingKindJson process.kind),
      ("target", .string process.target), ("target_len", .optional .string process.targetLength),
      ("max_time", .int64 process.maxTime), ("output", .string process.output)])
  | .counting process =>
    .choice "Counting" (.object [("outputs", .strings process.outputs),
      ("target", .string process.target), ("max_time", .int64 process.maxTime)])

end MeasureProcess

def Matrix.toJson (m : Matrix) : Json := .array (m.toList.map (Expression.toJson real))

def Pulse.toJson : Pulse → Json
  | .named name => .choice "Named" (.string name)
  | .ramp rate => .choice "Ramp" (rate.toJson real)

def Amp.toJson : Amp → Json
  | .scalar value => .choice "Scalar" (value.toJson real)
  | .matrix values => .choice "Matrix" (values.toJson real)

/-- The units as they are named in stored programs. -/
def ChirpUnits.toJson : ChirpUnits → Json
  | .hzPerNanoSec => .string "HzPerNanoSec"
  | .milliHzPerNanoSec => .string "MilliHzPerNanoSec"
  | .microHzPerNanoSec => .string "MicroHzPerNanoSec"
  | .nanoHzPerNanoSec => .string "NanoHzPerNanoSec"
  | .picoHzPerNanoSec => .string "PicoHzPerNanoSec"

/-- The units as they are named in stored programs. -/
def FrequencyUnits.toJson : FrequencyUnits → Json
  | .hz => .string "Hz"
  | .milliHz => .string "MilliHz"
  | .microHz => .string "MicroHz"

def Chirp.toJson (chirp : Chirp) : Json :=
  .object [("rate", chirp.rate.toJson real), ("times", .array (chirp.times.map .int64)),
    ("units", chirp.units.toJson), ("continue_chirp", .bool chirp.continues)]

def TriggerElement.toJson (trigger : TriggerElement) : Json :=
  .object [("element", .string trigger.element), ("output", .optional .string trigger.output)]

/-- The members of an action, without its location. -/
def Action.members : Action → List (String × Json)
  | .play p =>
    [("pulse", p.pulse.toJson real), ("element", .string p.element),
      ("amp", .optional (Amp.toJson real) p.amp),
      ("duration", .optional (Expression.toJson real) p.duration),
      ("condition", .optional (Expression.toJson real) p.condition),
      ("target", .optional .string p.target), ("chirp", .optional (Chirp.toJson real) p.chirp),
      ("truncate", .optional (Expression.toJson real) p.truncate),
      ("timestamp_stream", .optional .string p.timestampStream)]
  | .measure m =>
    [("pulse", .string m.pulse), ("element", .string m.element),
      ("amp", .optional (Amp.toJson real) m.amp), ("stream", .optional .string m.stream),
      ("processes", .array (m.processes.map (MeasureProcess.toJson real))),
      ("timestamp_stream", .optional .string m.timestampStream)]
  | .wait duration elements => [("duration", duration.toJson real), ("elements", .strings elements)]
  | .align elements => [("elements", .strings elements)]
  | .assign target value => [("target", target.toJson real), ("expression", value.toJson real)]
  | .save source stream => [("source", source.toJson real), ("stream", .string stream)]
  | .pause => []
  | .updateFrequency element value units keepPhase =>
    [("element", .string element), ("value", value.toJson real), ("units", units.toJson),
      ("keep_phase", .bool keepPhase)]
  | .updateCorrection element correction =>
    [("element", .string element), ("correction", correction.toJson real)]
  | .setDcOffset element input offset =>
    [("element", .string element), ("input", .string input), ("offset", offset.toJson real)]
  | .advanceInputStream stream => [("stream", stream.toJson real)]
  | .resetPhase element => [("element", .string element)]
  | .resetFrame element => [("element", .string element)]
  | .zRotation angle element => [("angle", angle.toJson real), ("element", .string element)]
  | .rampToZero element duration =>
    [("element", .string element), ("duration", .optional .int64 duration)]
  | .fastFrameRotation cosine sine element =>
    [("cosine", cosine.toJson real), ("sine", sine.toJson real), ("element", .string element)]
  | .waitForTrigger w =>
    [("elements", .strings w.elements), ("pulse_to_play", .optional .string w.pulse),
      ("trigger_element", .optional TriggerElement.toJson w.trigger),
      ("time_tag_target", .optional .string w.timeTagTarget)]

def Iterator.toJson (it : Iterator) : Json :=
  .object [("variable", .string it.variableName), ("array", .string it.array)]

namespace Statement

mutual

def toJson : Statement → Json
  | .action a l => .choice a.kind (.object (a.members real ++ [("loc", .string l)]))
  | .conditional condition isUnsafe body elifs otherwise l =>
    .choice "If" (.object [("condition", condition.toJson real), ("unsafe_", .bool isUnsafe),
      ("body", .array (toJsonBlock body)), ("elseifs", .array (toJsonBranches elifs)),
      ("else_", toJsonOtherwise otherwise), ("loc", .string l)])
  | .loop init condition update body l =>
    .choice "For" (.object [("init", .array (toJsonBlock init)),
      ("condition", .optional (Expression.toJson real) condition),
      ("update", .array (toJsonBlock update)), ("body", .array (toJsonBlock body)),
      ("loc", .string l)])
  | .forEach iterators body l =>
    .choice "ForEach" (.object [("iterators", .array (iterators.map Iterator.toJson)),
      ("body", .array (toJsonBlock body)), ("loc", .string l)])
  | .strictTiming body l =>
    .choice "StrictTiming" (.object [("body", .array (toJsonBlock body)), ("loc", .string l)])

def toJsonBlock : List Statement → List Json
  | [] => []
  | s :: rest => s.toJson :: toJsonBlock rest

def toJsonBranches : List (Branch Statement) → List Json
  | [] => []
  | ⟨condition, body, l⟩ :: rest =>
    .object [("condition", condition.toJson real), ("body", .array (toJsonBlock body)),
      ("loc", .string l)] :: toJsonBranches rest

def toJsonOtherwise : Option (List Statement) → Json
  | none => .null
  | some body => .array (toJsonBlock body)

end

end Statement

/-- The types as they are named in stored programs. -/
def ScalarType.toJson : ScalarType → Json
  | .int => .string "Int"
  | .bool => .string "Bool"
  | .fixed => .string "Fixed"

def Declaration.toJson (d : Declaration) : Json :=
  .object [("name", .string d.name), ("scalar_type", d.scalarType.toJson),
    ("size", .integer d.size.toNat), ("dim", .integer d.dimension.toNat),
    ("is_input_stream", .bool d.isInputStream),
    ("value", .array (d.value.map (Literal.toJson real)))]

namespace StreamToken

mutual

def toJson : StreamToken → Json
  | .atom value => .choice "Atom" (.string value)
  | .list items => .choice "List" (.array (toJsonItems items))

def toJsonItems : List StreamToken → List Json
  | [] => []
  | token :: rest => token.toJson :: toJsonItems rest

end

end StreamToken

def SaveKind.toJson : SaveKind → Json
  | .save => .string "Save"
  | .saveAll => .string "SaveAll"

def SaveEntry.toJson (entry : SaveEntry) : Json :=
  .object [("kind", entry.kind.toJson), ("tag", .string entry.tag), ("auto", .bool entry.auto),
    ("pipeline", entry.pipeline.toJson)]

def Metadata.toJson (metadata : Metadata) : Json :=
  .object [("uses_command_timestamps", .bool metadata.usesCommandTimestamps),
    ("uses_fast_frame_rotation", .bool metadata.usesFastFrameRotation)]

def Program.toJson (p : Program) : Json :=
  .object [("variables", .array (p.declarations.map (Declaration.toJson real))),
    ("body", .array (Statement.toJsonBlock real p.body)),
    ("result_analysis", .object [("entries", .array (p.results.entries.map SaveEntry.toJson))]),
    ("metadata", p.metadata.toJson)]

end Qua
