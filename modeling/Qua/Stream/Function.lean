import Qua.Stream.Number

/-!
# Stream functions

The functions that a pipeline can map over its values.
-/

namespace Qua

inductive ConvolutionMode
  | full
  | same
  | valid
  deriving DecidableEq, Repr

namespace ConvolutionMode

def name : ConvolutionMode → String
  | .full => "full"
  | .same => "same"
  | .valid => "valid"

def ofName? : String → Option ConvolutionMode
  | "full" => some .full
  | "same" => some .same
  | "valid" => some .valid
  | _ => none

end ConvolutionMode

inductive FftOutput
  | normal
  | abs
  | angle
  deriving DecidableEq, Repr

namespace FftOutput

def name : FftOutput → String
  | .normal => "normal"
  | .abs => "abs"
  | .angle => "angle"

def ofName? : String → Option FftOutput
  | "normal" => some .normal
  | "abs" => some .abs
  | "angle" => some .angle
  | _ => none

end FftOutput

/-- A factor of a demodulation. -/
inductive DemodWeight
  | scalar (value : StreamNumber)
  | vector (values : List StreamNumber)
  deriving DecidableEq, Repr

def DemodWeight.token : DemodWeight → StreamToken
  | .scalar value => .number value
  | .vector values => .vector values

inductive StreamFunction
  | average
  | averageAxis (axis : Int64)
  | averageAxes (axes : List Int64)
  | dotProduct (vector : List StreamNumber)
  | tupleDotProduct
  | multiplyBy (scalar : StreamNumber)
  | multiplyByVector (vector : List StreamNumber)
  | tupleMultiply
  | convolution (vector : List StreamNumber) (mode : Option ConvolutionMode)
  | tupleConvolution (mode : Option ConvolutionMode)
  | fft (output : Option FftOutput)
  | booleanToInt
  | demod (frequency : StreamNumber) (cosine sine : DemodWeight) (integrate : Option Bool)
  deriving DecidableEq, Repr

namespace StreamFunction

/-- A missing mode is an empty atom. -/
def modeToken (mode : Option ConvolutionMode) : StreamToken :=
  .atom (match mode with
    | some mode => mode.name
    | none => "")

/-- The function as an item of a `map`. -/
def token : StreamFunction → StreamToken
  | .average => .list [.atom "average"]
  | .averageAxis axis => .list [.atom "average", .integer axis]
  | .averageAxes axes => .list [.atom "average", .vector (axes.map .int)]
  | .dotProduct vector => .list [.atom "dot", .vector vector]
  | .tupleDotProduct => .list [.atom "dot"]
  | .multiplyBy scalar => .list [.atom "smult", .number scalar]
  | .multiplyByVector vector => .list [.atom "vmult", .vector vector]
  | .tupleMultiply => .list [.atom "tmult"]
  | .convolution vector mode => .list [.atom "conv", modeToken mode, .vector vector]
  | .tupleConvolution mode => .list [.atom "conv", modeToken mode]
  | .fft none => .list [.atom "fft"]
  | .fft (some output) => .list [.atom "fft", .atom output.name]
  | .booleanToInt => .list [.atom "booleancast"]
  | .demod frequency cosine sine integrate =>
    .list ([.atom "demod", .number frequency, cosine.token, sine.token]
      ++ match integrate with
        | some integrate => [.atom (if integrate then "1" else "0")]
        | none => [])

end StreamFunction
end Qua
