import Qua.Program.Shorthand
import Qua.Statement.Render

/-!
# The listing of a program

The script that builds a program: its declarations, its body with one line for each action and one
block for each block, and the saved results. A stream is declared on the line before its first use,
in whatever block that is. Main definition: `Program.text`.
-/

namespace Qua

/-- A line of a script and the number of blocks around it. -/
structure Line where
  depth : Nat
  text : String
  deriving DecidableEq, Repr

namespace Line

def indentation : Nat → String
  | 0 => ""
  | depth + 1 => "    " ++ indentation depth

def render (line : Line) : String := indentation line.depth ++ line.text ++ "\n"

def renderAll (lines : List Line) : String := String.join (lines.map render)

end Line

/-- Writes a part of a script, keeping the names of the streams that have been declared. -/
abbrev Listing (α : Type) := StateT (List String) (Except RenderError) α

namespace Listing

def streamDeclaration (name : String) : String :=
  name ++ " = "
    ++ (if ResultSource.isTraceName name then "declare_stream(adc_trace=True)"
      else "declare_stream()")

/-- Declares a stream that has not been declared. -/
def declareStream (depth : Nat) (name : String) : Listing (List Line) := do
  if (← get).contains name then return []
  else
    modify (name :: ·)
    return [⟨depth, streamDeclaration name⟩]

/-- Declares the streams that have no shorthand. -/
def declareStreams (shorthand? : String → Option String) (depth : Nat) :
    List String → Listing (List Line)
  | [] => return []
  | name :: rest => do
    let first ← if (shorthand? name).isSome then pure [] else declareStream depth name
    let lines ← declareStreams shorthand? depth rest
    return first ++ lines

/-- A stream as it is written: the tag that stands for it, or its name. -/
def writtenStream (shorthand? : String → Option String) (name : String) : String :=
  match shorthand? name with
  | some tag => Text.quote tag
  | none => name

variable (shorthand? : String → Option String)

def action (depth : Nat) (a : Action) : Listing (List Line) := do
  let declarations ← declareStreams shorthand? depth a.streamNames
  let text ← (a.mapStreams (writtenStream shorthand?)).render
  return declarations ++ [⟨depth, text⟩]

/-- A block without lines has to have a statement nevertheless. -/
def orPass (depth : Nat) (lines : List Line) : List Line :=
  if lines.isEmpty then [⟨depth, "pass"⟩] else lines

mutual

def statement (depth : Nat) : Statement → Listing (List Line)
  | .action a _ => action shorthand? depth a
  | .conditional condition isUnsafe body elifs otherwise _ => do
    let header ← ifHeader condition isUnsafe
    let body ← block (depth + 1) body
    let elifs ← branches depth elifs
    let otherwise ← alternative depth otherwise
    return ⟨depth, header⟩ :: orPass (depth + 1) body ++ elifs ++ otherwise
  | .loop init condition update body _ => do
    let shape := loopShape init condition update
    let header ← shape.header
    if shape.isGeneral then
      let init ← block (depth + 2) init
      let condition ← match condition with
        | none => pure []
        | some condition => do
          let condition ← condition.render
          pure [⟨depth + 1, "for_cond(" ++ condition ++ ")"⟩]
      let update ← block (depth + 2) update
      let body ← block (depth + 2) body
      return ⟨depth, header⟩
        :: ⟨depth + 1, "with for_init_():"⟩ :: orPass (depth + 2) init
        ++ condition
        ++ ⟨depth + 1, "with for_update_():"⟩ :: orPass (depth + 2) update
        ++ ⟨depth + 1, "with for_body_():"⟩ :: orPass (depth + 2) body
    else
      let body ← block (depth + 1) body
      return ⟨depth, header⟩ :: orPass (depth + 1) body
  | .forEach iterators body _ => do
    let body ← block (depth + 1) body
    return ⟨depth, forEachHeader iterators⟩ :: orPass (depth + 1) body
  | .strictTiming body _ => do
    let body ← block (depth + 1) body
    return ⟨depth, "with strict_timing_():"⟩ :: orPass (depth + 1) body

def block (depth : Nat) : List Statement → Listing (List Line)
  | [] => return []
  | s :: rest => do
    let first ← statement depth s
    let lines ← block depth rest
    return first ++ lines

def branches (depth : Nat) : List (Branch Statement) → Listing (List Line)
  | [] => return []
  | ⟨condition, body, _⟩ :: rest => do
    let header ← elifHeader condition
    let body ← block (depth + 1) body
    let lines ← branches depth rest
    return ⟨depth, header⟩ :: orPass (depth + 1) body ++ lines

def alternative (depth : Nat) : Option (List Statement) → Listing (List Line)
  | none => return []
  | some body => do
    let body ← block (depth + 1) body
    return ⟨depth, "with else_():"⟩ :: orPass (depth + 1) body

end

/-- The results that are saved by name; those made for a tag follow from the body. -/
def results (depth : Nat) (saves : List SaveEntry) : Listing (List Line) := do
  let entries := saves.filter fun entry => !entry.auto
  if entries.isEmpty then return []
  else
    let declarations ←
      declareStreams shorthand? depth (entries.flatMap fun entry => entry.pipeline.sourceNames)
    let lines ← entries.mapM fun entry => do
      let text ← entry.render
      return (⟨depth + 1, text⟩ : Line)
    return declarations ++ ⟨depth, "with stream_processing():"⟩ :: lines

/-- The lines of the block that builds a program. -/
def program (p : Program) : Listing (List Line) := do
  let declarations ← p.declarations.mapM fun d => do
    let text ← d.render
    return (⟨1, text⟩ : Line)
  let body ← block p.shorthand? 1 p.body
  let results ← results p.shorthand? 1 p.results.entries
  return orPass 1 (declarations ++ body ++ results)

end Listing

namespace Program

/-- The lines of the script that builds the program. -/
def lines (p : Program) : Except RenderError (List Line) := do
  let lines ← (Listing.program p).run' []
  return ⟨0, "from qm.qua import *"⟩ :: ⟨0, ""⟩ :: ⟨0, "with program() as prog:"⟩ :: lines

/-- The script that builds the program. -/
def text (p : Program) : Except RenderError String := Line.renderAll <$> p.lines

end Program
end Qua
