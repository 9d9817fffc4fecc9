import Qua.Action
import Qua.Text.Quoted

/-!
# Actions as script text

One line for each action. Streams are written as they are named, which lets a writer put a quoted tag
in the place of a name.
-/

namespace Qua

open Text (quote)

/-- Quoted strings with `separator` between them. -/
def quoteAll (separator : String) (strings : List String) : String :=
  String.intercalate separator (strings.map quote)

def integerText (n : Int64) : String := toString n.toInt

namespace MeasureProcess

/-- The method of a target, its text, and the numbers that go with it. -/
def targetParts : ProcessTarget → Except RenderError (String × String × List Int64)
  | .full target => do
    let target ← target.render
    return ("full", target, [])
  | .sliced array samples => .ok ("sliced", array, [samples])
  | .accumulated array samples => .ok ("accumulated", array, [samples])
  | .movingWindow array samples chunks => .ok ("moving_window", array, [samples, chunks])

def singleModule : AnalogKind → String
  | .demod => "demod"
  | .integration => "integration"

def dualModule : AnalogKind → String
  | .demod => "dual_demod"
  | .integration => "dual_integration"

/-- With one pair of weights and output, the target and its numbers stand between the two; with two
pairs, the target comes last. -/
def renderAnalog (process : AnalogProcess) : Except RenderError String := do
  let (method, target, chunks) ← targetParts process.target
  let chunks := chunks.map integerText
  match process.weights with
  | .single weights output =>
    return singleModule process.kind ++ "." ++ method ++ "("
      ++ String.intercalate ", " ([quote weights, target] ++ chunks ++ [quote output]) ++ ")"
  | .dual weights1 output1 weights2 output2 =>
    return dualModule process.kind ++ "." ++ method ++ "("
      ++ String.intercalate ", "
        ([weights1, output1, weights2, output2].map quote ++ chunks ++ [target]) ++ ")"

def renderTimeTagging (process : TimeTagging) : String :=
  "time_tagging." ++ process.kind.name ++ "(" ++ process.target ++ ", "
    ++ integerText process.maxTime ++ ", " ++ process.targetLength.getD "None" ++ ", "
    ++ quote process.output ++ ")"

/-- The outputs are a tuple, which with one item ends in a comma. -/
def renderCounting (process : Counting) : String :=
  "counting.digital(" ++ process.target ++ ", " ++ integerText process.maxTime ++ ", ("
    ++ quoteAll "," process.outputs ++ (if process.outputs.length = 1 then "," else "") ++ "))"

def render : MeasureProcess → Except RenderError String
  | .analog process => renderAnalog process
  | .timeTagging process => .ok (renderTimeTagging process)
  | .counting process => .ok (renderCounting process)

end MeasureProcess

namespace Pulse

def render : Pulse → Except RenderError String
  | .named name => .ok (quote name)
  | .ramp rate => do
    let rate ← rate.render
    return "ramp(" ++ rate ++ ")"

end Pulse

namespace Amp

def render : Amp → Except RenderError String
  | .scalar value => do
    let value ← value.render
    return "amp(" ++ value ++ ")"
  | .matrix values => do
    let values ← renderJoined ", " values.toList
    return "amp(" ++ values ++ ")"

/-- The scaling of a pulse, after its text. -/
def renderOptional : Option Amp → Except RenderError String
  | none => .ok ""
  | some amp => do
    let amp ← amp.render
    return "*" ++ amp

end Amp

/-- A keyword argument, if there is a value for it. -/
def renderKeyword (name : String) : Option Expression → Except RenderError String
  | none => .ok ""
  | some value => do
    let value ← value.render
    return ", " ++ name ++ "=" ++ value

def Chirp.render (chirp : Chirp) : Except RenderError String := do
  let rate ← chirp.rate.render
  let times :=
    if chirp.times.isEmpty then "None"
    else "[" ++ String.intercalate ", " (chirp.times.map integerText) ++ "]"
  return (if chirp.continues then ", continue_chirp=True" else "") ++ ", chirp=(" ++ rate ++ ","
    ++ times ++ "," ++ quote chirp.units.name ++ ")"

/-- The stream of the timestamps, if there is one. -/
def timestampKeyword : Option String → String
  | none => ""
  | some stream => ", timestamp_stream=" ++ stream

def Play.render (p : Play) : Except RenderError String := do
  let pulse ← p.pulse.render
  let amp ← Amp.renderOptional p.amp
  let duration ← renderKeyword "duration" p.duration
  let condition ← renderKeyword "condition" p.condition
  let target := match p.target with
    | none => ""
    | some target => ", target=" ++ quote target
  let chirp ← match p.chirp with
    | none => pure ""
    | some chirp => chirp.render
  let truncate ← renderKeyword "truncate" p.truncate
  return "play(" ++ pulse ++ amp ++ ", " ++ quote p.element ++ duration ++ condition ++ target
    ++ chirp ++ truncate ++ timestampKeyword p.timestampStream ++ ")"

def Measure.render (m : Measure) : Except RenderError String := do
  let amp ← Amp.renderOptional m.amp
  let processes ← m.processes.mapM MeasureProcess.render
  return "measure(" ++ String.intercalate ", "
      ([quote m.pulse ++ amp, quote m.element, m.stream.getD "None"] ++ processes)
    ++ timestampKeyword m.timestampStream ++ ")"

namespace WaitForTrigger

def renderTrigger (trigger : TriggerElement) : String :=
  match trigger.output with
  | some output => "(" ++ quote trigger.element ++ ", " ++ quote output ++ ")"
  | none => quote trigger.element

def render (w : WaitForTrigger) : String :=
  "wait_for_trigger(" ++ quoteAll ", " w.elements
    ++ (match w.pulse with
      | some pulse => ", pulse_to_play=" ++ quote pulse
      | none => "")
    ++ (match w.trigger with
      | some trigger => ", trigger_element=" ++ renderTrigger trigger
      | none => "")
    ++ (match w.timeTagTarget with
      | some target => ", time_tag_target=" ++ target
      | none => "")
    ++ ")"

end WaitForTrigger

namespace Action

def render : Action → Except RenderError String
  | .play p => p.render
  | .measure m => m.render
  | .wait duration elements => do
    let duration ← duration.render
    return "wait(" ++ String.intercalate ", " (duration :: elements.map quote) ++ ")"
  | .align elements => .ok ("align(" ++ quoteAll ", " elements ++ ")")
  | .assign target value => do
    let target ← target.render
    let value ← value.render
    return "assign(" ++ target ++ ", " ++ value ++ ")"
  | .save source stream => do
    let source ← source.render
    return "save(" ++ source ++ ", " ++ stream ++ ")"
  | .pause => .ok "pause()"
  | .updateFrequency element value units keepPhase => do
    let value ← value.render
    return "update_frequency(" ++ quote element ++ ", " ++ value ++ ", " ++ quote units.name ++ ", "
      ++ renderBool keepPhase ++ ")"
  | .updateCorrection element correction => do
    let values ← correction.toList.mapM Expression.render
    return "update_correction(" ++ String.intercalate "," (quote element :: values) ++ ")"
  | .setDcOffset element input offset => do
    let offset ← offset.render
    return "set_dc_offset(" ++ quote element ++ ", " ++ quote input ++ ", " ++ offset ++ ")"
  | .advanceInputStream stream => do
    let stream ← stream.render
    return "advance_input_stream(" ++ stream ++ ")"
  | .resetPhase element => .ok ("reset_phase(" ++ quote element ++ ")")
  | .resetFrame element => .ok ("reset_frame(" ++ quote element ++ ")")
  | .zRotation angle element => do
    let angle ← angle.render
    return "frame_rotation_2pi(" ++ angle ++ ", " ++ quote element ++ ")"
  | .rampToZero element duration =>
    .ok ("ramp_to_zero(" ++ quote element
      ++ (match duration with
        | some duration => ", " ++ integerText duration
        | none => "")
      ++ ")")
  | .fastFrameRotation cosine sine element => do
    let cosine ← cosine.render
    let sine ← sine.render
    return "fast_frame_rotation(" ++ cosine ++ ", " ++ sine ++ ", " ++ quote element ++ ")"
  | .waitForTrigger w => .ok w.render

end Action
end Qua
