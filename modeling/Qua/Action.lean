import Qua.MeasureProcess

/-!
# Actions

The statements of a program that hold no statements themselves: what is played, measured, computed
and saved.
-/

namespace Qua

/-- Four expressions, row by row. -/
structure Matrix where
  c00 : Expression
  c01 : Expression
  c10 : Expression
  c11 : Expression
  deriving BEq, Repr

def Matrix.toList (m : Matrix) : List Expression := [m.c00, m.c01, m.c10, m.c11]

inductive Pulse
  | named (name : String)
  /-- A ramp of a given rate. -/
  | ramp (rate : Expression)
  deriving BEq, Repr

/-- What scales the amplitude of a pulse. -/
inductive Amp
  | scalar (value : Expression)
  | matrix (values : Matrix)
  deriving BEq, Repr

inductive ChirpUnits
  | hzPerNanoSec
  | milliHzPerNanoSec
  | microHzPerNanoSec
  | nanoHzPerNanoSec
  | picoHzPerNanoSec
  deriving DecidableEq, Repr

namespace ChirpUnits

def all : List ChirpUnits :=
  [.hzPerNanoSec, .milliHzPerNanoSec, .microHzPerNanoSec, .nanoHzPerNanoSec, .picoHzPerNanoSec]

def name : ChirpUnits → String
  | .hzPerNanoSec => "Hz/nsec"
  | .milliHzPerNanoSec => "mHz/nsec"
  | .microHzPerNanoSec => "uHz/nsec"
  | .nanoHzPerNanoSec => "nHz/nsec"
  | .picoHzPerNanoSec => "pHz/nsec"

/-- Reads the units by their name or as the same rate over a second. -/
def ofName? : String → Option ChirpUnits
  | "Hz/nsec" => some .hzPerNanoSec
  | "GHz/sec" => some .hzPerNanoSec
  | "mHz/nsec" => some .milliHzPerNanoSec
  | "MHz/sec" => some .milliHzPerNanoSec
  | "uHz/nsec" => some .microHzPerNanoSec
  | "KHz/sec" => some .microHzPerNanoSec
  | "nHz/nsec" => some .nanoHzPerNanoSec
  | "Hz/sec" => some .nanoHzPerNanoSec
  | "pHz/nsec" => some .picoHzPerNanoSec
  | "mHz/sec" => some .picoHzPerNanoSec
  | _ => none

end ChirpUnits

/-- A change of the frequency while a pulse is played. -/
structure Chirp where
  rate : Expression
  /-- Where a piecewise rate changes. -/
  times : List Int64
  units : ChirpUnits
  continues : Bool
  deriving BEq, Repr

structure Play where
  pulse : Pulse
  element : String
  amp : Option Amp
  duration : Option Expression
  condition : Option Expression
  target : Option String
  chirp : Option Chirp
  truncate : Option Expression
  timestampStream : Option String
  deriving BEq, Repr

structure Measure where
  pulse : String
  element : String
  amp : Option Amp
  stream : Option String
  processes : List MeasureProcess
  timestampStream : Option String
  deriving BEq, Repr

inductive FrequencyUnits
  | hz
  | milliHz
  | microHz
  deriving DecidableEq, Repr

namespace FrequencyUnits

def all : List FrequencyUnits := [.hz, .milliHz, .microHz]

def name : FrequencyUnits → String
  | .hz => "Hz"
  | .milliHz => "mHz"
  | .microHz => "uHz"

def ofName? : String → Option FrequencyUnits
  | "Hz" => some .hz
  | "mHz" => some .milliHz
  | "uHz" => some .microHz
  | _ => none

end FrequencyUnits

/-- The element, and possibly its output, whose signal is the trigger. -/
structure TriggerElement where
  element : String
  output : Option String
  deriving DecidableEq, Repr

structure WaitForTrigger where
  elements : List String
  pulse : Option String
  trigger : Option TriggerElement
  timeTagTarget : Option String
  deriving DecidableEq, Repr

inductive Action
  | play (play : Play)
  | measure (measure : Measure)
  | wait (duration : Expression) (elements : List String)
  | align (elements : List String)
  | assign (target value : Expression)
  | save (source : Expression) (stream : String)
  | pause
  | updateFrequency (element : String) (value : Expression) (units : FrequencyUnits)
      (keepPhase : Bool)
  | updateCorrection (element : String) (correction : Matrix)
  | setDcOffset (element input : String) (offset : Expression)
  | advanceInputStream (stream : Expression)
  | resetPhase (element : String)
  | resetFrame (element : String)
  /-- A rotation of the frame, in turns. -/
  | zRotation (angle : Expression) (element : String)
  | rampToZero (element : String) (duration : Option Int64)
  | fastFrameRotation (cosine sine : Expression) (element : String)
  | waitForTrigger (wait : WaitForTrigger)
  deriving BEq, Repr

namespace Action

/-- The name of the kind of action in stored programs. -/
def kind : Action → String
  | .play _ => "Play"
  | .measure _ => "Measure"
  | .wait .. => "Wait"
  | .align _ => "Align"
  | .assign .. => "Assign"
  | .save .. => "Save"
  | .pause => "Pause"
  | .updateFrequency .. => "UpdateFrequency"
  | .updateCorrection .. => "UpdateCorrection"
  | .setDcOffset .. => "SetDcOffset"
  | .advanceInputStream _ => "AdvanceInputStream"
  | .resetPhase _ => "ResetPhase"
  | .resetFrame _ => "ResetFrame"
  | .zRotation .. => "ZRotation"
  | .rampToZero .. => "RampToZero"
  | .fastFrameRotation .. => "FastFrameRotation"
  | .waitForTrigger _ => "WaitForTrigger"

/-- The streams that the action writes to. -/
def streamNames : Action → List String
  | .play p => p.timestampStream.toList
  | .measure m => m.stream.toList ++ m.timestampStream.toList
  | .save _ stream => [stream]
  | _ => []

/-- Renames the streams that the action writes to. -/
def mapStreams (f : String → String) : Action → Action
  | .play p => .play { p with timestampStream := p.timestampStream.map f }
  | .measure m =>
    .measure { m with stream := m.stream.map f, timestampStream := m.timestampStream.map f }
  | .save source stream => .save source (f stream)
  | action => action

end Action
end Qua
