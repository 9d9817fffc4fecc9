import Qua.Replay.Arguments

/-!
# Functions of a program

What a script calls inside the program block: each call takes its arguments and gives a step of the
build, whose result is the value of the call.
-/

namespace Qua.Replay

open Taking

/-- A step without a value. -/
def noValue (step : Build Unit) : Build Value := do
  step
  return .none

/-- An element, or a pair of an element and its output. -/
def triggerElement : Value → Faulty TriggerElement
  | .string element => .ok ⟨element, none⟩
  | other => do
    match ← other.toItems with
    | [element, output] =>
      let element ← element.toText
      let output ← output.toText
      return ⟨element, some output⟩
    | _ => .error (.typeMismatch "an element and its output" "a tuple of another length")

/-- An integer of 32 bits. -/
def chirpRateValue (value : Value) : Faulty Int32 := do
  let rate ← value.toInt
  let literal ← Faulty.ofExpression (Literal.ofInt rate.toInt)
  match literal with
  | .int rate => return rate
  | _ => value.mismatch "an int"

def chirpRate : Value → Faulty ChirpRate
  | .list rates => .values <$> rates.mapM chirpRateValue
  | other => .expression <$> other.toExpression

/-- A tuple of a rate, times and units. -/
def chirp (value : Value) : Faulty ChirpOptions := do
  match ← value.toItems with
  | [rate, times, units] =>
    let rate ← chirpRate rate
    let times ← if times.isNone then pure none else some <$> times.toInts
    let units ← units.toText
    return ⟨rate, times, units⟩
  | _ => .error (.typeMismatch "a (rate, times, units) tuple" "a tuple of another length")

def initialValue (position : Nat) : Taking (Option InitialValue) := do
  optionalAs Value.toInitialValue (← optional position "value")

def size (position : Nat) : Taking (Option Int64) := do
  optionalAs Value.toInt (← optional position "size")

def declare : Taking (Build Value) := do
  let t ← required 0 "t"
  let t ← t.toType
  let value ← initialValue 1
  let size ← size 2
  return Value.expression <$> Build.declare t value size

def declareInputStream : Taking (Build Value) := do
  let t ← required 0 "t"
  let t ← t.toType
  let name ← text 1 "name"
  let value ← initialValue 2
  let size ← size 3
  return Value.expression <$> Build.declareInputStream t name value size

def play : Taking (Build Value) := do
  let pulse ← required 0 "pulse"
  let (pulse, amp) ← pulse.toPulse
  let element ← text 1 "element"
  let duration ← optionalAs Value.toExpression (← optional 2 "duration")
  let condition ← optionalAs Value.toExpression (← optional 3 "condition")
  let chirp ← optionalAs chirp (← optional 4 "chirp")
  let truncate ← optionalAs Value.toExpression (← optional 5 "truncate")
  let timestampStream ← optionalAs Value.toStreamTarget (← optional 6 "timestamp_stream")
  let continueChirp ← flag 7 "continue_chirp"
  let target ← optionalAs Value.toText (← optional 8 "target")
  return noValue (Build.play pulse element
    { amp, duration, condition, chirp, truncate, timestampStream, continueChirp, target })

def measure : Taking (Build Value) := do
  let pulse ← required 0 "pulse"
  match ← pulse.toPulse with
  | (.ramp _, _) => throw (.typeMismatch "a pulse name" "a ramp")
  | (.named pulse, amp) =>
    let element ← text 1 "element"
    let stream ← optionalAs Value.toStreamTarget (← optional 2 "stream")
    let timestampStream ← optionalAs Value.toStreamTarget (← keyword "timestamp_stream")
    let processes ← rest 3
    let processes ← processes.mapM fun value => liftM value.toProcess
    return noValue (Build.measure pulse element { amp, stream, processes, timestampStream })

def amp : Taking (Build Value) := do
  let values ← rest 0
  let values ← values.mapM fun value => liftM value.toExpression
  return Value.amp <$> Build.amp values

def updateFrequency : Taking (Build Value) := do
  let element ← text 0 "element"
  let frequency ← expression 1 "new_frequency"
  let units ← choice FrequencyUnits.ofName? 2 "units"
  let keepPhase ← flag 3 "keep_phase"
  return noValue (Build.act (.updateFrequency element frequency (units.getD .hz) keepPhase))

def updateCorrection : Taking (Build Value) := do
  let element ← text 0 "element"
  let c00 ← expression 1 "c00"
  let c01 ← expression 2 "c01"
  let c10 ← expression 3 "c10"
  let c11 ← expression 4 "c11"
  return noValue (Build.act (.updateCorrection element ⟨c00, c01, c10, c11⟩))

def waitForTrigger : Taking (Build Value) := do
  let pulse ← optionalAs Value.toText (← keyword "pulse_to_play")
  let trigger ← optionalAs triggerElement (← keyword "trigger_element")
  let target ← optionalAs Value.toExpression (← keyword "time_tag_target")
  let elements ← texts 0
  return noValue (Build.waitForTrigger elements pulse trigger target)

def callLibraryFunction : Taking (Build Value) := do
  let library ← text 0 "lib_name"
  match Library.ofName? library with
  | none => throw (.invalidArgument "call_library_function" "lib_name" library)
  | some library =>
    let name ← text 1 "func_name"
    let arguments ← required 2 "args"
    let arguments ← arguments.toItems
    let arguments ← arguments.mapM fun value => liftM value.toLibraryArgument
    return Value.expression <$> Build.libraryCall library name arguments

/-- The function of a name. -/
def builtin (name : String) : Taking (Build Value) := do
  match name with
  | "declare" => declare
  | "declare_input_stream" => declareInputStream
  | "declare_stream" =>
    let isAdcTrace ← flag 0 "adc_trace"
    return Value.source <$> Build.declareStream isAdcTrace
  | "play" => play
  | "measure" => measure
  | "ramp" =>
    let rate ← expression 0 "v"
    return pure (.pulse (.ramp rate) none)
  | "amp" => amp
  | "wait" =>
    let duration ← expression 0 "duration"
    let elements ← texts 1
    return noValue (Build.act (.wait duration elements))
  | "align" =>
    let elements ← texts 0
    return noValue (Build.act (.align elements))
  | "pause" => return noValue (Build.act .pause)
  | "update_frequency" => updateFrequency
  | "update_correction" => updateCorrection
  | "set_dc_offset" =>
    let element ← text 0 "element"
    let input ← text 1 "element_input"
    let offset ← expression 2 "offset"
    return noValue (Build.act (.setDcOffset element input offset))
  | "reset_phase" =>
    let element ← text 0 "element"
    return noValue (Build.act (.resetPhase element))
  | "reset_frame" =>
    let elements ← texts 0
    return noValue (elements.forM Build.resetFrame)
  | "frame_rotation" =>
    let angle ← expression 0 "angle"
    let elements ← texts 1
    return noValue (elements.forM (Build.frameRotation2pi (Build.inTurns angle)))
  | "frame_rotation_2pi" =>
    let angle ← expression 0 "angle"
    let elements ← texts 1
    return noValue (elements.forM (Build.frameRotation2pi angle))
  | "fast_frame_rotation" =>
    let cosine ← expression 0 "cosine"
    let sine ← expression 1 "sine"
    let elements ← texts 2
    return noValue do
      Build.markFastFrameRotation
      elements.forM (Build.fastFrameRotation cosine sine)
  | "ramp_to_zero" =>
    let element ← text 0 "element"
    let duration ← optionalAs Value.toInt (← optional 1 "duration")
    return noValue (Build.act (.rampToZero element duration))
  | "wait_for_trigger" => waitForTrigger
  | "assign" =>
    let target ← expression 0 "var"
    let value ← expression 1 "_exp"
    return noValue (Build.assign target value)
  | "save" =>
    let source ← expression 0 "var"
    let stream ← required 1 "stream_or_tag"
    let stream ← stream.toStreamTarget
    return noValue (Build.save source stream)
  | "advance_input_stream" =>
    let stream ← expression 0 "input_stream"
    return noValue (Build.act (.advanceInputStream stream))
  | "call_library_function" => callLibraryFunction
  | "for_cond" =>
    let condition ← expression 0 "cond"
    return noValue (Build.setLoopCondition condition)
  | other => throw (.unknownFunction other)

/-- What a loop over arrays runs through, for one variable or for several. -/
def forEachArguments (targets values : Value) : Faulty (List Value × List ForEachValues) :=
  match targets with
  | .tuple items | .list items => do
    let values ← values.toItems
    let values ← values.mapM Value.toForEachValues
    return (items, values)
  | only => do
    let values ← values.toForEachValues
    return ([only], [values])

def forEach : Taking (Build Nat) := do
  let targets ← required 0 "var"
  let values ← required 1 "values"
  let (targets, values) ← forEachArguments targets values
  let targets ← targets.mapM fun value => liftM value.toExpression
  return Build.openForEach targets values

def countedLoop : Taking (Build Nat) := do
  if (← get).isEmpty then return Build.openLoop
  else
    let target ← expression 0 "var"
    let init ← expression 1 "init"
    let condition ← expression 2 "cond"
    let update ← expression 3 "update"
    return Build.openFor target init condition update

/-- The scope that a block of the script opens. -/
def scope (name : String) : Taking (Build Nat) := do
  match name with
  | "if_" =>
    let condition ← expression 0 "condition"
    let isUnsafe ← flag 1 "unsafe"
    return Build.openIf condition isUnsafe
  | "elif_" => Build.openElif <$> expression 0 "condition"
  | "else_" => return Build.openElse
  | "switch_" =>
    let value ← expression 0 "expression"
    let isUnsafe ← flag 1 "unsafe"
    return Build.openSwitch value isUnsafe
  | "case_" => Build.openCase <$> expression 0 "case_exp"
  | "default_" => return Build.openDefault
  | "for_" => countedLoop
  | "for_init_" => return Build.openLoopPart .init
  | "for_update_" => return Build.openLoopPart .update
  | "for_body_" => return Build.openLoopPart .body
  | "while_" =>
    match ← optional 0 "cond" with
    | some condition =>
      let condition ← condition.toExpression
      return Build.openWhile condition
    | none => return Build.openInfiniteLoop
  | "infinite_loop_" => return Build.openInfiniteLoop
  | "for_each_" => forEach
  | "strict_timing_" => return Build.openStrictTiming
  | "stream_processing" => return Build.openResults
  | other => throw (.unknownFunction other)

end Qua.Replay
