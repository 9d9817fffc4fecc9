import Qua.Storage.Expression

/-!
# The binary form of actions

The content of an action is stored without its index, since the index also tells actions from blocks.
-/

namespace Qua

open Stored

instance : Stored AnalogKind where
  write := writeChoice AnalogKind.all
  read := readChoice AnalogKind.all

instance : Stored IntegrationWeights where
  write
    | .single weights output => variant 0 ++ write weights ++ write output
    | .dual weights1 output1 weights2 output2 =>
      variant 1 ++ write weights1 ++ write output1 ++ write weights2 ++ write output2
  read := do
    match ← readVariant with
    | 0 => return .single (← read) (← read)
    | 1 => return .dual (← read) (← read) (← read) (← read)
    | _ => Reader.fail

instance : Stored ProcessTarget where
  write
    | .full target => variant 0 ++ write target
    | .sliced array samples => variant 1 ++ write array ++ write samples
    | .accumulated array samples => variant 2 ++ write array ++ write samples
    | .movingWindow array samples chunks => variant 3 ++ write array ++ write samples ++ write chunks
  read := do
    match ← readVariant with
    | 0 => return .full (← read)
    | 1 => return .sliced (← read) (← read)
    | 2 => return .accumulated (← read) (← read)
    | 3 => return .movingWindow (← read) (← read) (← read)
    | _ => Reader.fail

instance : Stored AnalogProcess where
  write p := write p.kind ++ write p.weights ++ write p.target
  read := return ⟨← read, ← read, ← read⟩

instance : Stored TimeTaggingKind where
  write := writeChoice TimeTaggingKind.all
  read := readChoice TimeTaggingKind.all

instance : Stored TimeTagging where
  write p :=
    write p.kind ++ write p.target ++ write p.targetLength ++ write p.maxTime ++ write p.output
  read := return ⟨← read, ← read, ← read, ← read, ← read⟩

instance : Stored Counting where
  write p := write p.outputs ++ write p.target ++ write p.maxTime
  read := return ⟨← read, ← read, ← read⟩

instance : Stored MeasureProcess where
  write
    | .analog p => variant 0 ++ write p
    | .timeTagging p => variant 1 ++ write p
    | .counting p => variant 2 ++ write p
  read := do
    match ← readVariant with
    | 0 => return .analog (← read)
    | 1 => return .timeTagging (← read)
    | 2 => return .counting (← read)
    | _ => Reader.fail

/-- The four expressions follow each other; their number is not stored. -/
instance : Stored Matrix where
  write m := write m.c00 ++ write m.c01 ++ write m.c10 ++ write m.c11
  read := return ⟨← read, ← read, ← read, ← read⟩

instance : Stored Pulse where
  write
    | .named name => variant 0 ++ write name
    | .ramp rate => variant 1 ++ write rate
  read := do
    match ← readVariant with
    | 0 => return .named (← read)
    | 1 => return .ramp (← read)
    | _ => Reader.fail

instance : Stored Amp where
  write
    | .scalar value => variant 0 ++ write value
    | .matrix values => variant 1 ++ write values
  read := do
    match ← readVariant with
    | 0 => return .scalar (← read)
    | 1 => return .matrix (← read)
    | _ => Reader.fail

instance : Stored ChirpUnits where
  write := writeChoice ChirpUnits.all
  read := readChoice ChirpUnits.all

instance : Stored Chirp where
  write c := write c.rate ++ write c.times ++ write c.units ++ write c.continues
  read := return ⟨← read, ← read, ← read, ← read⟩

instance : Stored Play where
  write p :=
    write p.pulse ++ write p.element ++ write p.amp ++ write p.duration ++ write p.condition
      ++ write p.target ++ write p.chirp ++ write p.truncate ++ write p.timestampStream
  read :=
    return ⟨← read, ← read, ← read, ← read, ← read, ← read, ← read, ← read, ← read⟩

instance : Stored Measure where
  write m :=
    write m.pulse ++ write m.element ++ write m.amp ++ write m.stream ++ write m.processes
      ++ write m.timestampStream
  read := return ⟨← read, ← read, ← read, ← read, ← read, ← read⟩

instance : Stored FrequencyUnits where
  write := writeChoice FrequencyUnits.all
  read := readChoice FrequencyUnits.all

instance : Stored TriggerElement where
  write t := write t.element ++ write t.output
  read := return ⟨← read, ← read⟩

instance : Stored WaitForTrigger where
  write w := write w.elements ++ write w.pulse ++ write w.trigger ++ write w.timeTagTarget
  read := return ⟨← read, ← read, ← read, ← read⟩

namespace Action

/-- The index of the kind of action among the statements. -/
def index : Action → Nat
  | .play _ => 0
  | .measure _ => 1
  | .wait .. => 2
  | .align _ => 3
  | .assign .. => 4
  | .save .. => 5
  | .pause => 6
  | .updateFrequency .. => 7
  | .updateCorrection .. => 8
  | .setDcOffset .. => 9
  | .advanceInputStream _ => 10
  | .resetPhase _ => 11
  | .resetFrame _ => 12
  | .zRotation .. => 13
  | .rampToZero .. => 14
  | .fastFrameRotation .. => 15
  | .waitForTrigger _ => 16

def content : Action → List UInt8
  | .play p => write p
  | .measure m => write m
  | .wait duration elements => write duration ++ write elements
  | .align elements => write elements
  | .assign target value => write target ++ write value
  | .save source stream => write source ++ write stream
  | .pause => []
  | .updateFrequency element value units keepPhase =>
    write element ++ write value ++ write units ++ write keepPhase
  | .updateCorrection element correction => write element ++ write correction
  | .setDcOffset element input offset => write element ++ write input ++ write offset
  | .advanceInputStream stream => write stream
  | .resetPhase element => write element
  | .resetFrame element => write element
  | .zRotation angle element => write angle ++ write element
  | .rampToZero element duration => write element ++ write duration
  | .fastFrameRotation cosine sine element => write cosine ++ write sine ++ write element
  | .waitForTrigger w => write w

/-- Reads the content of the action with an index. -/
def ofContent : Nat → Reader Action
  | 0 => return .play (← read)
  | 1 => return .measure (← read)
  | 2 => return .wait (← read) (← read)
  | 3 => return .align (← read)
  | 4 => return .assign (← read) (← read)
  | 5 => return .save (← read) (← read)
  | 6 => return .pause
  | 7 => return .updateFrequency (← read) (← read) (← read) (← read)
  | 8 => return .updateCorrection (← read) (← read)
  | 9 => return .setDcOffset (← read) (← read) (← read)
  | 10 => return .advanceInputStream (← read)
  | 11 => return .resetPhase (← read)
  | 12 => return .resetFrame (← read)
  | 13 => return .zRotation (← read) (← read)
  | 14 => return .rampToZero (← read) (← read)
  | 15 => return .fastFrameRotation (← read) (← read) (← read)
  | 16 => return .waitForTrigger (← read)
  | _ => Reader.fail

end Action
end Qua
