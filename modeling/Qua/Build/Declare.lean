import Qua.Build.Draft

/-!
# Declaring variables and streams

Scalars are named `v1`, `v2`, …, arrays `a1`, `a2`, …, and input streams by the script. Streams are
numbered too, traces apart from others by their prefix; a stream can also be declared by a tag, and is
then saved under that tag.
-/

namespace Qua

/-- The value with which a variable is declared. -/
inductive InitialValue
  | scalar (value : Literal)
  | array (values : List Literal)

/-- A stream, or the tag that stands for one. -/
inductive StreamTarget
  | tag (tag : String)
  | source (source : ResultSource)

namespace Build

/-- The dimension, size and cells of a variable. A size is given to an array without values. -/
def shape (value : Option InitialValue) (size : Option Int64) :
    Except BuildError (UInt8 × UInt64 × List Literal) :=
  match size, value with
  | some size, value =>
    if size.toInt ≤ 0 then .error .invalidSize
    else if value.isSome then .error .sizeWithValue
    else .ok (1, UInt64.ofNat size.toInt.toNat, [])
  | none, none => .ok (0, 1, [])
  | none, some (.scalar value) => .ok (0, 1, [value])
  | none, some (.array values) => .ok (1, UInt64.ofNat values.length, values)

/-- The name of a new variable that is no input stream. -/
def freshName (isArray : Bool) : Build String := do
  let draft ← get
  if isArray then
    set { draft with arrays := draft.arrays + 1 }
    return "a" ++ toString (draft.arrays + 1)
  else
    set { draft with scalars := draft.scalars + 1 }
    return "v" ++ toString (draft.scalars + 1)

/-- The variable of a new input stream. -/
def inputStreamName (stream : String) : Build String := do
  if stream = "" then throw .unnamedInputStream
  let draft ← get
  let name := inputStreamPrefix ++ stream
  if draft.inputStreams.contains name then throw (.duplicateInputStream stream)
  set { draft with inputStreams := name :: draft.inputStreams }
  return name

def declareNamed (scalarType : ScalarType) (value : Option InitialValue) (size : Option Int64)
    (inputStream : Option String) : Build Expression := do
  let (dimension, size, value) ← match shape value size with
    | .ok shape => pure shape
    | .error e => throw e
  let name ← match inputStream with
    | some stream => inputStreamName stream
    | none => freshName (dimension != 0)
  let declaration : Declaration :=
    ⟨name, scalarType, size, dimension, inputStream.isSome, value⟩
  modify fun draft =>
    { draft with
      program := { draft.program with declarations := draft.program.declarations ++ [declaration] } }
  return if declaration.isArray then .array name else .named name

/-- Declares a variable or an array. -/
def declare (scalarType : ScalarType) (value : Option InitialValue) (size : Option Int64) :
    Build Expression :=
  declareNamed scalarType value size none

def declareInputStream (scalarType : ScalarType) (name : String) (value : Option InitialValue)
    (size : Option Int64) : Build Expression :=
  declareNamed scalarType value size (some name)

/-- Declares an array that holds the given literals. -/
def declareLiterals (literals : List Literal) : Build Expression := do
  let (scalarType, values) ← lift (Literal.arrayOf literals)
  declare scalarType (some (.array values)) none

def declareStream (isAdcTrace : Bool) : Build ResultSource := do
  let draft ← get
  set { draft with streams := draft.streams + 1 }
  let name := "r" ++ toString (draft.streams + 1)
  return ⟨if isAdcTrace then ResultSource.tracePrefix ++ name else name, isAdcTrace, .values, none, false⟩

/-- Saves a pipeline under a tag that is not used yet. -/
def addSave (entry : SaveEntry) : Build Unit := do
  let draft ← get
  match draft.program.results.add? entry with
  | some results => set { draft with program := { draft.program with results := results } }
  | none => throw (.duplicateTag entry.tag)

/-- Saves what a pipeline of a script gives. -/
def registerSave (kind : SaveKind) (tag : String) (pipeline : StreamToken) : Build Unit :=
  addSave ⟨kind, tag, false, pipeline⟩

def autoSaveAll (tag : String) (source : ResultSource) : Build Unit :=
  addSave ⟨.saveAll, tag, true, source.token⟩

/-- What a tag ends in under which timestamps are saved. -/
def timestampsSuffix : String := "_timestamps"

/-- The tags of the two inputs of a trace, and what is read for each. -/
def traceInputs (tag : String) (source : ResultSource) : List (String × ResultSource) :=
  [(tag ++ "_input1", source.input1), (tag ++ "_input2", source.input2)]

/-- The stream of a tag: the first use declares it and adds its saves. -/
def shorthand (tag : String) (isAdcTrace : Bool) (saves : ResultSource → Build Unit) :
    Build ResultSource := do
  match (← get).shorthands.lookup tag with
  | some source => return source
  | none =>
    let source ← declareStream isAdcTrace
    modify fun draft => { draft with shorthands := (tag, source) :: draft.shorthands }
    saves source
    return source

/-- The stream that values are saved to under a tag. -/
def taggedStream (tag : String) (addTimestamps : Bool) : Build ResultSource :=
  shorthand tag false fun source => do
    autoSaveAll tag source
    if addTimestamps then autoSaveAll (tag ++ timestampsSuffix) source.timestamps

/-- The trace that a measurement fills under a tag. -/
def taggedTrace (tag : String) : Build ResultSource :=
  shorthand tag true fun source =>
    (traceInputs tag source).forM fun (tag, input) => do
      autoSaveAll tag input
      autoSaveAll (tag ++ timestampsSuffix) input.timestamps

/-- The stream that receives the timestamps of a command. -/
def timestampStream : Option StreamTarget → Build (Option ResultSource)
  | none => return none
  | some target => do
    modifyMetadata fun m => { m with usesCommandTimestamps := true }
    match target with
    | .tag tag => some <$> taggedStream tag false
    | .source source => return some source

end Build
end Qua
