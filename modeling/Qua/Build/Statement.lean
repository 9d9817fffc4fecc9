import Qua.Build.Declare

/-!
# Building actions

One step for each kind of action. What an action needs besides its operands, such as arrays for lists
of literals and streams for tags, is declared on the way.
-/

namespace Qua

/-- The rate of a chirp: one, or a list of which an array is made. -/
inductive ChirpRate
  | expression (rate : Expression)
  | values (rates : List Int32)

structure ChirpOptions where
  rate : ChirpRate
  times : Option (List Int64)
  /-- The name of the units. -/
  units : String

structure PlayOptions where
  amp : Option Amp := none
  duration : Option Expression := none
  condition : Option Expression := none
  chirp : Option ChirpOptions := none
  truncate : Option Expression := none
  timestampStream : Option StreamTarget := none
  continueChirp : Bool := false
  target : Option String := none

structure MeasureOptions where
  amp : Option Amp := none
  stream : Option StreamTarget := none
  processes : List MeasureProcess := []
  timestampStream : Option StreamTarget := none

namespace Build

/-- One turn in radians, inverted. -/
def inverseTwoPi : Binary64 := .ofDecimal false 15915494309189535 (-17)

def chirp (options : ChirpOptions) (continues : Bool) : Build Chirp := do
  match ChirpUnits.ofName? options.units with
  | none => throw (.unknownUnits options.units)
  | some units =>
    let rate ← match options.rate with
      | .expression rate => pure rate
      | .values rates => declare .int (some (.array (rates.map .int))) none
    return ⟨rate, options.times.getD [], units, continues⟩

def play (pulse : Pulse) (element : String) (options : PlayOptions) : Build Unit := do
  let chirp ← options.chirp.mapM fun c => chirp c options.continueChirp
  let stream ← timestampStream options.timestampStream
  act (.play
    { pulse := pulse
      element := element
      amp := options.amp
      duration := options.duration
      condition := options.condition
      target := options.target.filter fun target => target != ""
      chirp := chirp
      truncate := options.truncate
      timestampStream := stream.map ResultSource.name })

/-- The stream that a measurement fills with what it acquires. -/
def measureStream : Option StreamTarget → Build (Option ResultSource)
  | none => return none
  | some (.tag tag) => some <$> taggedTrace tag
  | some (.source source) => return some source

def measure (pulse element : String) (options : MeasureOptions) : Build Unit := do
  let stream ← measureStream options.stream
  let timestamps ← timestampStream options.timestampStream
  act (.measure
    { pulse := pulse
      element := element
      amp := options.amp
      stream := stream.map ResultSource.name
      processes := options.processes
      timestampStream := timestamps.map ResultSource.name })

def resetFrame (element : String) : Build Unit := act (.resetFrame element)

def frameRotation2pi (angle : Expression) (element : String) : Build Unit :=
  act (.zRotation angle element)

/-- An angle in radians as one in turns. -/
def inTurns (angle : Expression) : Expression := .binary .mul angle (.fixed inverseTwoPi)

def markFastFrameRotation : Build Unit :=
  modifyMetadata fun m => { m with usesFastFrameRotation := true }

def fastFrameRotation (cosine sine : Expression) (element : String) : Build Unit :=
  act (.fastFrameRotation cosine sine element)

def waitForTrigger (elements : List String) (pulse : Option String)
    (trigger : Option TriggerElement) (timeTagTarget : Option Expression) : Build Unit := do
  let target ← timeTagTarget.mapM fun target =>
    match target.variableName? with
    | some name => pure name
    | none => throw (.invalidAssignTarget target.describe)
  act (.waitForTrigger ⟨elements, pulse, trigger, target⟩)

/-- Variables and cells of arrays can be assigned to. -/
def assignTarget (target : Expression) : Build Expression :=
  match target with
  | .var _ => return target
  | .cell _ _ => return target
  | other => throw (.invalidAssignTarget other.describe)

def assign (target value : Expression) : Build Unit := do
  let target ← assignTarget target
  act (.assign target value)

/-- Variables, cells of arrays and literals can be saved. -/
def saveSource (source : Expression) : Build Expression :=
  match source with
  | .array name => throw (.expression (.notAScalar name))
  | .call .. => throw (.librarySaveSource source.describe)
  | .var _ => return source
  | .cell _ _ => return source
  | .literal _ => return source
  | _ => throw (.invalidSaveSource source.describe)

def save (source : Expression) (stream : StreamTarget) : Build Unit := do
  let stream ← match stream with
    | .tag tag => taggedStream tag true
    | .source source => pure source
  if stream.isAdcTrace then throw .adcTraceSave
  let source ← saveSource source
  act (.save source stream.name)

/-- One value, or a matrix of four. -/
def amp : List Expression → Build Amp
  | [value] => return .scalar value
  | [c00, c01, c10, c11] => return .matrix ⟨c00, c01, c10, c11⟩
  | _ => throw .ampArity

end Build
end Qua
