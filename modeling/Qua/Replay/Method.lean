import Qua.Replay.Builtin
import Qua.Replay.Process

/-!
# Methods

What a script calls on arrays, declared streams and pipelines, and in modules. Saving a pipeline is
the only method that changes the program.
-/

namespace Qua.Replay

open Taking

/-- The stream functions that are methods too. -/
def mappedMethods : List String :=
  ["dot_product", "tuple_dot_product", "multiply_by", "tuple_multiply", "convolution",
    "tuple_convolution", "fft", "boolean_to_int"]

def streamArithmetic (operator : ArithmeticOperator) (stream : StreamToken) : Taking StreamToken := do
  let other ← required 0 "other"
  let other ← other.toOperand
  return .arithmetic operator (.stream stream) other

/-- The pipeline that a method makes of a stream. -/
def streamMethod (name : String) (stream : StreamToken) : Taking StreamToken := do
  match name with
  | "average" => return stream.average
  | "buffer" =>
    let dimensions ← rest 0
    let dimensions ← dimensions.mapM fun value => liftM value.toInt
    return stream.buffer dimensions
  | "buffer_and_skip" =>
    let length ← int 0 "length"
    let skip ← int 1 "skip"
    return stream.bufferAndSkip length skip
  | "map" =>
    match ← required 0 "function" with
    | .function function => return stream.map function
    | other => other.mismatch "a stream function"
  | "flatten" => return stream.flatten
  | "skip" =>
    let length ← int 0 "length"
    return stream.skip length
  | "skip_last" =>
    let length ← int 0 "length"
    return stream.skipLast length
  | "take" =>
    let length ← int 0 "length"
    return stream.take length
  | "histogram" =>
    let bins ← required 0 "bins"
    let bins ← bins.toItems
    let bins ← bins.mapM fun value => liftM value.toNumbers
    return stream.histogram bins
  | "zip" =>
    match ← required 0 "other" with
    | .source other => return StreamToken.zip other.token stream
    | .stream other => return StreamToken.zip other stream
    | other => other.mismatch "a stream"
  | "add" => streamArithmetic .add stream
  | "subtract" => streamArithmetic .subtract stream
  | "multiply" => streamArithmetic .multiply stream
  | "divide" => streamArithmetic .divide stream
  | _ =>
    if mappedMethods.contains name then
      let function ← streamFunction name
      return stream.map function
    else throw (.unknownFunction ("stream." ++ name))

/-- The kind of save that a method makes. -/
def saveMethod? : String → Option SaveKind
  | "save" => some .save
  | "save_all" => some .saveAll
  | _ => none

/-- A method of a stream, inside the program block or not. -/
def callStream (inProgram : Bool) (name : String) (stream : StreamToken) : Taking (Build Value) := do
  match saveMethod? name with
  | some kind =>
    let tag ← text 0 "tag"
    if inProgram then return noValue (Build.registerSave kind tag stream)
    else throw (.outsideProgram name)
  | none =>
    let stream ← streamMethod name stream
    return pure (.stream stream)

/-- What a method of a declared stream selects of it. -/
def sourceMethod? (source : ResultSource) : String → Option ResultSource
  | "timestamps" => some source.timestamps
  | "with_timestamps" => some source.withTimestamps
  | "input1" => some source.input1
  | "input2" => some source.input2
  | "auto_reshape" => some source.reshaped
  | _ => none

/-- A method of a value. -/
def method (inProgram : Bool) (receiver : Value) (name : String) : Taking (Build Value) := do
  match receiver with
  | .expression array =>
    if name = "length" then
      let length ← ofExpression array.lengthOf
      return pure (.expression length)
    else receiver.mismatch "a variable or a stream"
  | .source source =>
    match sourceMethod? source name with
    | some source => return pure (.source source)
    | none => callStream inProgram name source.token
  | .stream stream => callStream inProgram name stream
  | other => other.mismatch "a variable or a stream"

/-- A function of a library, of the stream functions or of the measure processes. -/
def moduleFunction (inProgram : Bool) (module name : String) : Taking (Build Value) := do
  match Library.ofNamespace? module with
  | some library =>
    if inProgram then
      let arguments ← rest 0
      let arguments ← arguments.mapM fun value => liftM value.toLibraryArgument
      return Value.expression <$> Build.libraryCall library name arguments
    else throw (.outsideProgram (← function))
  | none =>
    if module = functionsModule then
      let function ← streamFunction name
      return pure (.function function)
    else
      let process ← measureProcess module name
      return pure (.process process)

end Qua.Replay
