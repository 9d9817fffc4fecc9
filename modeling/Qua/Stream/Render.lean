import Qua.RenderError
import Qua.Stream.Token

/-!
# Pipelines as script text

A pipeline is written as the chain of method calls that composes it. Every item of a list is written
once, both as a pipeline and as a function of a `map`, and the list picks the form it needs.
-/

namespace Qua.StreamToken

/-- Tokens that are no part of a pipeline. -/
def malformed (tokens : List StreamToken) : RenderError :=
  .unsupportedStreamOperator ("[" ++ inspectItems tokens ++ "]")

/-- The text of an atom. -/
def atomText (token : StreamToken) : Except RenderError String :=
  match token with
  | .atom value => .ok value
  | .list _ => .error (malformed [token])

/-- A token with its two texts. -/
structure Rendering where
  token : StreamToken
  pipeline : Except RenderError String
  function : Except RenderError String

namespace Rendering

def atom (item : Rendering) : Except RenderError String := item.token.atomText

def atoms (items : List Rendering) : Except RenderError String :=
  (String.intercalate ", ") <$> items.mapM atom

/-- A vector, or any list of pipelines. -/
def vector (items : List Rendering) : Except RenderError String := do
  let items ← items.mapM pipeline
  return "[" ++ String.intercalate ", " items ++ "]"

/-- A method call without arguments. -/
def method (item : Rendering) (name : String) : Except RenderError String := do
  let parent ← item.pipeline
  return parent ++ "." ++ name ++ "()"

/-- A method call whose argument is a pipeline. -/
def methodOn (item : Rendering) (name : String) (argument : Rendering) :
    Except RenderError String := do
  let parent ← item.pipeline
  let argument ← argument.pipeline
  return parent ++ "." ++ name ++ "(" ++ argument ++ ")"

/-- A method call whose arguments are atoms. -/
def methodOnAtoms (item : Rendering) (name : String) (arguments : List Rendering) :
    Except RenderError String := do
  let parent ← item.pipeline
  let arguments ← atoms arguments
  return parent ++ "." ++ name ++ "(" ++ arguments ++ ")"

/-- What is called on a source for its mode. -/
def modeText (items : List Rendering) (mode : String) : Except RenderError String :=
  match mode with
  | "0" => .ok ""
  | "1" => .ok ".timestamps()"
  | "2" => .ok ".with_timestamps()"
  | _ => .error (malformed (items.map token))

/-- The method of arithmetic on a stream. -/
def arithmeticMethod (operator : String) : String :=
  match operator with
  | "+" => "add"
  | "-" => "subtract"
  | "*" => "multiply"
  | _ => "divide"

/-- Arithmetic is a method of its left operand if that is a stream. -/
def arithmetic (operator : String) (left right : Rendering) : Except RenderError String := do
  let l ← left.pipeline
  let r ← right.pipeline
  if left.token.isStream then
    return "(" ++ l ++ "." ++ arithmeticMethod operator ++ "(" ++ r ++ "))"
  else return "(" ++ l ++ operator ++ r ++ ")"

/-- The text of an operator applied to `arguments`; `items` are both. -/
def application (items : List Rendering) (operator : String) (arguments : List Rendering) :
    Except RenderError String :=
  match operator, arguments with
  | "@re", [mode, name] => do
    let name ← name.atom
    let mode ← mode.atom
    let mode ← modeText items mode
    return name ++ mode
  | "@macro_input", [input, parent] => do
    let parent ← parent.pipeline
    let input ← input.atom
    return parent ++ ".input" ++ input ++ "()"
  | "@macro_auto_reshape", [parent] => parent.method "auto_reshape"
  | "@macro_adc_trace", [parent] => parent.pipeline
  | "@array", values => vector values
  | "+", [left, right] => arithmetic operator left right
  | "-", [left, right] => arithmetic operator left right
  | "*", [left, right] => arithmetic operator left right
  | "/", [left, right] => arithmetic operator left right
  | "zip", [other, parent] => parent.methodOn "zip" other
  | "take", [length, parent] => parent.methodOnAtoms "take" [length]
  | "skip", [length, parent] => parent.methodOnAtoms "skip" [length]
  | "skipLast", [length, parent] => parent.methodOnAtoms "skip_last" [length]
  | "bufferAndSkip", [length, skip, parent] => parent.methodOnAtoms "buffer_and_skip" [length, skip]
  | "buffer", first :: second :: rest =>
    ((second :: rest).getLast (List.cons_ne_nil _ _)).methodOnAtoms "buffer"
      (first :: (second :: rest).dropLast)
  | "histogram", [bins, parent] => parent.methodOn "histogram" bins
  | "average", [parent] => parent.method "average"
  | "flatten", [parent] => parent.method "flatten"
  | "map", [function, parent] => do
    let parent ← parent.pipeline
    let function ← function.function
    return parent ++ ".map(FUNCTIONS." ++ function ++ ")"
  | _, _ => .error (.unsupportedStreamOperator operator)

/-- A call whose argument is a pipeline. -/
def call (name : String) (argument : Rendering) : Except RenderError String := do
  let argument ← argument.pipeline
  return name ++ "(" ++ argument ++ ")"

/-- The text of a function of a `map`. -/
def functionCall (name : String) (arguments : List Rendering) : Except RenderError String :=
  match name, arguments with
  | "average", [] => .ok "average()"
  | "average", [axis] => call "average" axis
  | "dot", [] => .ok "tuple_dot_product()"
  | "dot", [vector] => call "dot_product" vector
  | "smult", [value] => call "multiply_by" value
  | "vmult", [value] => call "multiply_by" value
  | "tmult", [] => .ok "tuple_multiply()"
  | "conv", [mode] => do
    let mode ← mode.atom
    if mode = "" then return "tuple_convolution()"
    else return "tuple_convolution(\"" ++ mode ++ "\")"
  | "conv", [mode, vector] => do
    let vector ← vector.pipeline
    let mode ← mode.atom
    if mode = "" then return "convolution(" ++ vector ++ ")"
    else return "convolution(" ++ vector ++ ",\"" ++ mode ++ "\")"
  | "fft", [] => .ok "fft()"
  | "fft", [output] => do
    let output ← output.atom
    return "fft(\"" ++ output ++ "\")"
  | "booleancast", [] => .ok "boolean_to_int()"
  | "demod", [frequency, cosine, sine] => do
    let frequency ← frequency.pipeline
    let cosine ← cosine.pipeline
    let sine ← sine.pipeline
    return "demod(" ++ frequency ++ "," ++ cosine ++ "," ++ sine ++ ")"
  | "demod", [frequency, cosine, sine, integrate] => do
    let frequency ← frequency.pipeline
    let cosine ← cosine.pipeline
    let sine ← sine.pipeline
    let integrate ← integrate.atom
    return "demod(" ++ frequency ++ "," ++ cosine ++ "," ++ sine ++ ",integrate="
      ++ (if integrate = "1" then "True" else "False") ++ ")"
  | _, _ => .error (.unsupportedStreamOperator ("map " ++ name))

/-- Reads the items as an operator and its arguments. -/
def withOperator (items : List Rendering)
    (render : String → List Rendering → Except RenderError String) : Except RenderError String :=
  match items with
  | [] => .error (malformed [])
  | head :: arguments => do
    let operator ← head.atom
    render operator arguments

end Rendering

mutual

/-- The texts of a token. -/
def rendering : StreamToken → Rendering
  | .atom value => ⟨.atom value, .ok value, .error (malformed [.atom value])⟩
  | .list items =>
    let renderings := renderingsOf items
    ⟨.list items, Rendering.withOperator renderings (Rendering.application renderings),
      Rendering.withOperator renderings Rendering.functionCall⟩

def renderingsOf : List StreamToken → List Rendering
  | [] => []
  | token :: rest => token.rendering :: renderingsOf rest

end

/-- The text of a pipeline. -/
def render (token : StreamToken) : Except RenderError String := token.rendering.pipeline

end Qua.StreamToken
