import Qua.Stream.Token
import Qua.Text.Affix

/-!
# Declared streams

A stream that statements write to, seen as the source of a pipeline: which of its values are read,
from which input, and in which shape.
-/

namespace Qua

/-- What is read from a stream. -/
inductive TimestampMode
  | values
  | timestamps
  | valuesAndTimestamps
  deriving DecidableEq, Repr

namespace TimestampMode

def code : TimestampMode → String
  | .values => "0"
  | .timestamps => "1"
  | .valuesAndTimestamps => "2"

def ofCode? : String → Option TimestampMode
  | "0" => some .values
  | "1" => some .timestamps
  | "2" => some .valuesAndTimestamps
  | _ => none

end TimestampMode

/-- The inputs of the analog-to-digital converter. -/
inductive AdcInput
  | first
  | second
  deriving DecidableEq, Repr

def AdcInput.code : AdcInput → String
  | .first => "1"
  | .second => "2"

structure ResultSource where
  name : String
  isAdcTrace : Bool
  mode : TimestampMode := .values
  input : Option AdcInput := none
  autoReshape : Bool := false
  deriving DecidableEq, Repr

namespace ResultSource

/-- What the names of traces of the analog-to-digital converter start with. -/
def tracePrefix : String := "atr_"

def isTraceName (name : String) : Bool := Text.startsWith tracePrefix name

def timestamps (source : ResultSource) : ResultSource := { source with mode := .timestamps }

def withTimestamps (source : ResultSource) : ResultSource :=
  { source with mode := .valuesAndTimestamps }

def input1 (source : ResultSource) : ResultSource := { source with input := some .first }

def input2 (source : ResultSource) : ResultSource := { source with input := some .second }

def reshaped (source : ResultSource) : ResultSource := { source with autoReshape := true }

/-- The pipeline that only reads the stream. -/
def token (source : ResultSource) : StreamToken :=
  let token : StreamToken :=
    .list [.atom StreamToken.sourceSymbol, .atom source.mode.code, .atom source.name]
  let token := match source.input with
    | some input => .list [.atom StreamToken.inputSymbol, .atom input.code, token]
    | none => token
  let token := if source.autoReshape then .list [.atom StreamToken.autoReshapeSymbol, token] else token
  if source.isAdcTrace then .list [.atom StreamToken.adcTraceSymbol, token] else token

end ResultSource
end Qua
