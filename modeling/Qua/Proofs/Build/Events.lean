import Qua.Proofs.Build.Refinement

/-!
# What happens in a session

A session is used by calls; those that open a scope give its number, and by that number the scope is
closed or let go of. Any sequence of these is a history of the session, also one that releases scopes
twice, in the wrong order, or never.
-/

namespace Qua

/-- A call that leaves the body and the scopes alone. -/
inductive Request
  | declare (scalarType : ScalarType) (value : Option InitialValue) (size : Option Int64)
  | declareInputStream (scalarType : ScalarType) (name : String) (value : Option InitialValue)
      (size : Option Int64)
  | declareStream (isAdcTrace : Bool)
  | registerSave (kind : SaveKind) (tag : String) (pipeline : StreamToken)
  | libraryCall (library : Library) (function : String) (arguments : List LibraryArgument)
  /-- Declares the state of a random generator. -/
  | random (seed : Int32)
  | amp (values : List Expression)

/-- A call that opens a scope. -/
inductive Entry
  | conditional (condition : Expression) (isUnsafe : Bool)
  | elif (condition : Expression)
  | otherwise
  | switch (value : Expression) (isUnsafe : Bool)
  | case (value : Expression)
  | default
  /-- A block statement that is not a conditional. -/
  | block (opening : Opening)
  /-- A loop whose parts are opened one by one. -/
  | loop
  | loopPart (which : LoopBlock)
  | results

/-- A call of a session. -/
inductive Call
  | request (request : Request)
  | leaf (leaf : Leaf)
  | loopCondition (condition : Expression)
  | enter (entry : Entry)

/-- What a call gives. -/
inductive Outcome
  | done
  | expression (value : Expression)
  | stream (source : ResultSource)
  | amp (value : Amp)
  /-- A scope has been opened that is released by this number. -/
  | scope (number : Nat)

/-- The step of a request. -/
def Request.step : Request → Build Outcome
  | .declare t value size => .expression <$> Build.declare t value size
  | .declareInputStream t name value size =>
    .expression <$> Build.declareInputStream t name value size
  | .declareStream isAdcTrace => .stream <$> Build.declareStream isAdcTrace
  | .registerSave kind tag pipeline => do
    Build.registerSave kind tag pipeline
    return .done
  | .libraryCall library function arguments =>
    .expression <$> Build.libraryCall library function arguments
  | .random seed => .expression <$> Build.random seed
  | .amp values => .amp <$> Build.amp values

/-- The step that opens the scope and gives its number. -/
def Entry.step : Entry → Build Nat
  | .conditional condition isUnsafe => Build.openIf condition isUnsafe
  | .elif condition => Build.openElif condition
  | .otherwise => Build.openElse
  | .switch value isUnsafe => Build.openSwitch value isUnsafe
  | .case value => Build.openCase value
  | .default => Build.openDefault
  | .block opening => opening.enter
  | .loop => Build.openLoop
  | .loopPart which => Build.openLoopPart which.selector
  | .results => Build.openResults

/-- Makes a call from a location of the script. -/
def Call.perform (location : String) : Call → Calls Outcome
  | .request asked => Calls.call (Build.located location asked.step)
  | .leaf made => do
    Calls.callEach (made.steps.map (Build.located location))
    return .done
  | .loopCondition condition => do
    Calls.call (Build.located location (Build.setLoopCondition condition))
    return .done
  | .enter opened => .scope <$> Calls.call (Build.located location opened.step)

inductive Event
  | call (call : Call) (location : String)
  | close (scope : Nat)
  /-- A scope is let go of. -/
  | drop (scope : Nat)

/-- What an event answers: an outcome or an error. -/
abbrev Answer := Except BuildError Outcome

namespace Event

/-- Letting go of a scope never answers an error. -/
def perform : Event → Calls Outcome
  | .call made location => made.perform location
  | .close scope => do
    (fun session => session.close scope : Calls Unit)
    return .done
  | .drop scope => fun session => (.ok .done, session.release scope)

end Event

namespace Session

/-- The answers to events, and the session after them. -/
def run : List Event → Session → List Answer × Session
  | [], session => ([], session)
  | event :: rest, session =>
    let (answer, session) := event.perform session
    let (answers, session) := run rest session
    (answer :: answers, session)

@[simp] theorem run_nil (s : Session) : run [] s = ([], s) := rfl

theorem run_cons (event : Event) (rest : List Event) (s : Session) :
    run (event :: rest) s = ((event.perform s).1 :: (run rest (event.perform s).2).1,
      (run rest (event.perform s).2).2) := rfl

theorem run_append (before after : List Event) (s : Session) :
    run (before ++ after) s =
      ((run before s).1 ++ (run after (run before s).2).1, (run after (run before s).2).2) := by
  induction before generalizing s with
  | nil => rfl
  | cons event rest ih =>
    rw [List.cons_append, run_cons, ih, run_cons]
    rfl

theorem length_run (events : List Event) (s : Session) : (run events s).1.length = events.length := by
  induction events generalizing s with
  | nil => rfl
  | cons event rest ih =>
    rw [run_cons, List.length_cons, ih]
    rfl

end Session
end Qua
