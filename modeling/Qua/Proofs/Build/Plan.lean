import Qua.Proofs.Build.Local

/-!
# Plans

A plan is a tree of what a script builds. It is performed by the calls of a session, which open a
scope, build what is in it and close it, and know of no tree (`Plan.perform`). It also has statements,
which can be told from its structure alone and need no scopes (`Plan.statements`).
-/

namespace Qua

-- ---------------------------------------------------------------------------
-- Calls
-- ---------------------------------------------------------------------------

/-- Calls of a session; after one that fails no other is made. -/
abbrev Calls (α : Type) := ExceptT BuildError (StateM Session) α

namespace Calls

def call (step : Build α) : Calls α := fun session => session.apply step

def callEach (steps : List (Build Unit)) : Calls Unit := fun session => session.applyEach steps

/-- Opens a scope, makes the calls inside and closes it. -/
def inScope (enter : Build Nat) (calls : Calls Unit) : Calls Unit := do
  let scope ← call enter
  calls
  call (Build.closeScope scope)

end Calls

/-- A step that is made at a location of the script. -/
def Build.located (location : String) (step : Build α) : Build α := do
  modify fun draft => { draft with location := location }
  step

-- ---------------------------------------------------------------------------
-- Leaves
-- ---------------------------------------------------------------------------

namespace Build

/-- What `play` appends. -/
def playAction (pulse : Pulse) (element : String) (options : PlayOptions) : Build Action := do
  let chirp ← options.chirp.mapM fun c => chirp c options.continueChirp
  let stream ← timestampStream options.timestampStream
  return .play
    { pulse := pulse
      element := element
      amp := options.amp
      duration := options.duration
      condition := options.condition
      target := options.target.filter fun target => target != ""
      chirp := chirp
      truncate := options.truncate
      timestampStream := stream.map ResultSource.name }

/-- What `measure` appends. -/
def measureAction (pulse element : String) (options : MeasureOptions) : Build Action := do
  let stream ← measureStream options.stream
  let timestamps ← timestampStream options.timestampStream
  return .measure
    { pulse := pulse
      element := element
      amp := options.amp
      stream := stream.map ResultSource.name
      processes := options.processes
      timestampStream := timestamps.map ResultSource.name }

/-- The name of the variable that receives the time of a trigger. -/
def triggerTarget (target : Expression) : Build String :=
  match target.variableName? with
  | some name => pure name
  | none => throw (.invalidAssignTarget target.describe)

/-- What `waitForTrigger` appends. -/
def triggerAction (elements : List String) (pulse : Option String)
    (trigger : Option TriggerElement) (timeTagTarget : Option Expression) : Build Action := do
  let target ← timeTagTarget.mapM triggerTarget
  return .waitForTrigger ⟨elements, pulse, trigger, target⟩

/-- What `assign` appends. -/
def assignAction (target value : Expression) : Build Action := do
  let target ← assignTarget target
  return .assign target value

/-- The stream that values are saved to. -/
def saveStream : StreamTarget → Build ResultSource
  | .tag tag => taggedStream tag true
  | .source source => pure source

/-- What `save` appends. -/
def saveAction (source : Expression) (stream : StreamTarget) : Build Action := do
  let stream ← saveStream stream
  if stream.isAdcTrace then throw .adcTraceSave
  let source ← saveSource source
  return .save source stream.name

theorem play_eq (pulse : Pulse) (element : String) (options : PlayOptions) :
    play pulse element options = playAction pulse element options >>= act := by
  simp [play, playAction]

theorem measure_eq (pulse element : String) (options : MeasureOptions) :
    measure pulse element options = measureAction pulse element options >>= act := by
  simp [measure, measureAction]

theorem waitForTrigger_eq (elements : List String) (pulse : Option String)
    (trigger : Option TriggerElement) (target : Option Expression) :
    waitForTrigger elements pulse trigger target =
      triggerAction elements pulse trigger target >>= act := by
  simp [waitForTrigger, triggerAction]
  rfl

theorem assign_eq (target value : Expression) :
    assign target value = assignAction target value >>= act := by
  simp [assign, assignAction]

theorem save_eq (source : Expression) (stream : StreamTarget) :
    save source stream = saveAction source stream >>= act := by
  cases stream with
  | tag tag =>
    simp only [save, saveAction, saveStream, bind_assoc]
    congr 1
    funext stream
    cases stream.isAdcTrace <;> simp
  | source stream =>
    simp only [save, saveAction, saveStream, pure_bind]
    cases stream.isAdcTrace <;> simp

end Build

/-- A call that builds actions. -/
inductive Leaf
  | play (pulse : Pulse) (element : String) (options : PlayOptions)
  | measure (pulse element : String) (options : MeasureOptions)
  | resetFrame (elements : List String)
  /-- A rotation by an angle in radians. -/
  | frameRotation (angle : Expression) (elements : List String)
  | frameRotation2pi (angle : Expression) (elements : List String)
  | fastFrameRotation (cosine sine : Expression) (elements : List String)
  | waitForTrigger (elements : List String) (pulse : Option String)
      (trigger : Option TriggerElement) (timeTagTarget : Option Expression)
  | assign (target value : Expression)
  | save (source : Expression) (stream : StreamTarget)
  /-- An action that needs nothing besides its operands. -/
  | plain (action : Action)

namespace Leaf

/-- The steps of the call. -/
def steps : Leaf → List (Build Unit)
  | .play pulse element options => [Build.play pulse element options]
  | .measure pulse element options => [Build.measure pulse element options]
  | .resetFrame elements => elements.map Build.resetFrame
  | .frameRotation angle elements =>
    elements.map (Build.frameRotation2pi (Build.inTurns angle))
  | .frameRotation2pi angle elements => elements.map (Build.frameRotation2pi angle)
  | .fastFrameRotation cosine sine elements =>
    Build.markFastFrameRotation :: elements.map (Build.fastFrameRotation cosine sine)
  | .waitForTrigger elements pulse trigger target =>
    [Build.waitForTrigger elements pulse trigger target]
  | .assign target value => [Build.assign target value]
  | .save source stream => [Build.save source stream]
  | .plain action => [Build.act action]

/-- The actions that the call builds, with the arrays, streams and saves declared for them. -/
def actions : Leaf → Build (List Action)
  | .play pulse element options => return [← Build.playAction pulse element options]
  | .measure pulse element options => return [← Build.measureAction pulse element options]
  | .resetFrame elements => return elements.map .resetFrame
  | .frameRotation angle elements => return elements.map (.zRotation (Build.inTurns angle))
  | .frameRotation2pi angle elements => return elements.map (.zRotation angle)
  | .fastFrameRotation cosine sine elements => do
    Build.markFastFrameRotation
    return elements.map (.fastFrameRotation cosine sine)
  | .waitForTrigger elements pulse trigger target =>
    return [← Build.triggerAction elements pulse trigger target]
  | .assign target value => return [← Build.assignAction target value]
  | .save source stream => return [← Build.saveAction source stream]
  | .plain action => return [action]

end Leaf

-- ---------------------------------------------------------------------------
-- Blocks
-- ---------------------------------------------------------------------------

namespace Build

/-- What a loop over arrays runs through, with an array declared for each list of literals. -/
def iterators (targets : List Expression) (values : List ForEachValues) :
    Build (List Iterator) := do
  let names ← forEachVariables 0 targets
  if values.isEmpty then throw .emptyForEachValues
  let arrays ← values.mapM forEachArray
  if names.length ≠ arrays.length then throw .forEachArity
  return names.zipWith Iterator.mk arrays

theorem openForEach_eq (targets : List Expression) (values : List ForEachValues) :
    openForEach targets values =
      iterators targets values >>= fun iterators => openBlock (.forEach iterators []) .body := by
  simp only [openForEach, iterators, bind_assoc]
  congr 1
  funext names
  cases values.isEmpty with
  | true => rfl
  | false =>
    simp only [Bool.false_eq_true, if_false, bind_assoc]
    congr 1
    funext arrays
    split <;> rfl

end Build

/-- A call that opens a statement with one block. -/
inductive Opening
  | whileLoop (condition : Expression)
  | infiniteLoop
  /-- A loop with one assignment before it and one after each round. -/
  | counted (target init condition update : Expression)
  | forEach (targets : List Expression) (values : List ForEachValues)
  | strictTiming

namespace Opening

/-- Opens the scope. -/
def enter : Opening → Build Nat
  | .whileLoop condition => Build.openWhile condition
  | .infiniteLoop => Build.openInfiniteLoop
  | .counted target init condition update => Build.openFor target init condition update
  | .forEach targets values => Build.openForEach targets values
  | .strictTiming => Build.openStrictTiming

/-- The statement around the block, with the arrays declared that it runs through. -/
def hole (location : String) : Opening → Build Hole
  | .whileLoop condition => return .loop [] (some condition) [] location
  | .infiniteLoop => return .loop [] (some (.bool true)) [] location
  | .counted target init condition update => do
    let target ← Build.assignTarget target
    return .loop [.action (.assign target init) location] (some condition)
      [.action (.assign target update) location] location
  | .forEach targets values => return .forEach (← Build.iterators targets values) location
  | .strictTiming => return .strictTiming location

end Opening

/-- A block of a loop whose parts are opened one by one. -/
inductive LoopBlock
  | init
  | update
  | body
  deriving DecidableEq

def LoopBlock.selector : LoopBlock → Selector
  | .init => .init
  | .update => .update
  | .body => .body

/-- What the parts opened so far make of a loop. -/
structure LoopParts where
  init : List Statement := []
  condition : Option Expression := none
  update : List Statement := []
  body : List Statement := []

namespace LoopParts

def statement (parts : LoopParts) (location : String) : Statement :=
  .loop parts.init parts.condition parts.update parts.body location

def block (parts : LoopParts) : LoopBlock → List Statement
  | .init => parts.init
  | .update => parts.update
  | .body => parts.body

/-- The loop around one of its blocks. -/
def hole (parts : LoopParts) (location : String) : LoopBlock → Hole
  | .init => .init parts.condition parts.update parts.body location
  | .update => .update parts.init parts.condition parts.body location
  | .body => .loop parts.init parts.condition parts.update location

/-- More statements at the end of a block. -/
def extend (parts : LoopParts) (ss : List Statement) : LoopBlock → LoopParts
  | .init => { parts with init := parts.init ++ ss }
  | .update => { parts with update := parts.update ++ ss }
  | .body => { parts with body := parts.body ++ ss }

end LoopParts

mutual

inductive Plan
  | leaf (leaf : Leaf) (location : String)
  | conditional (condition : Expression) (isUnsafe : Bool) (body : List Plan) (rest : Alternatives)
      (location : String)
  | block (opening : Opening) (body : List Plan) (location : String)
  | loop (parts : List LoopPart) (location : String)

/-- What follows the first block of a conditional. -/
inductive Alternatives
  | done
  | otherwise (body : List Plan)
  | elif (condition : Expression) (body : List Plan) (rest : Alternatives)

/-- A part of a loop, which can be given more than once. -/
inductive LoopPart
  | block (which : LoopBlock) (body : List Plan)
  | condition (condition : Expression)

end

-- ---------------------------------------------------------------------------
-- Performing a plan
-- ---------------------------------------------------------------------------

section

open Calls Build

mutual

/-- Makes the calls of a plan. -/
def Plan.perform : Plan → Calls Unit
  | .leaf leaf location => callEach (leaf.steps.map (located location))
  | .conditional condition isUnsafe body rest location => do
    inScope (located location (openIf condition isUnsafe)) (performAll body)
    rest.perform
  | .block opening body location => inScope (located location opening.enter) (performAll body)
  | .loop parts location => inScope (located location openLoop) (performParts parts)

def Alternatives.perform : Alternatives → Calls Unit
  | .done => return ()
  | .otherwise body => inScope openElse (performAll body)
  | .elif condition body rest => do
    inScope (openElif condition) (performAll body)
    rest.perform

def LoopPart.perform : LoopPart → Calls Unit
  | .block which body => inScope (openLoopPart which.selector) (performAll body)
  | .condition condition => call (setLoopCondition condition)

def performParts : List LoopPart → Calls Unit
  | [] => return ()
  | part :: rest => do
    part.perform
    performParts rest

def performAll : List Plan → Calls Unit
  | [] => return ()
  | plan :: rest => do
    plan.perform
    performAll rest

end

end

-- ---------------------------------------------------------------------------
-- The statements of a plan
-- ---------------------------------------------------------------------------

mutual

/-- The statements of a plan. -/
def Plan.statements : Plan → Build (List Statement)
  | .leaf leaf location => do
    let actions ← leaf.actions
    return actions.map fun action => .action action location
  | .conditional condition isUnsafe body rest location => do
    let body ← statementsOf body
    let (elifs, otherwise) ← rest.branches location
    return [.conditional condition isUnsafe body elifs otherwise location]
  | .block opening body location => do
    let hole ← opening.hole location
    let body ← statementsOf body
    return [hole.fill body]
  | .loop parts location => do
    let parts ← loopOf parts {}
    return [parts.statement location]

/-- The branches of a conditional, which have its location. -/
def Alternatives.branches (location : String) :
    Alternatives → Build (List (Branch Statement) × Option (List Statement))
  | .done => return ([], none)
  | .otherwise body => do
    let body ← statementsOf body
    return ([], some body)
  | .elif condition body rest => do
    let body ← statementsOf body
    let (elifs, otherwise) ← rest.branches location
    return (⟨condition, body, location⟩ :: elifs, otherwise)

/-- A loop with one more part: a block grows at its end, a condition replaces the one before. -/
def LoopPart.addTo : LoopPart → LoopParts → Build LoopParts
  | .block which body, parts => do
    let ss ← statementsOf body
    return parts.extend ss which
  | .condition condition, parts => return { parts with condition := some condition }

def loopOf : List LoopPart → LoopParts → Build LoopParts
  | [], parts => return parts
  | part :: rest, parts => do
    let parts ← part.addTo parts
    loopOf rest parts

/-- The statements of plans that follow each other in a block. -/
def statementsOf : List Plan → Build (List Statement)
  | [] => return []
  | plan :: rest => do
    let first ← plan.statements
    let others ← statementsOf rest
    return first ++ others

end

end Qua
