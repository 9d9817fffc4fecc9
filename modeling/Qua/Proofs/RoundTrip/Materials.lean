import Qua.Proofs.Build.Flags
import Qua.Proofs.Build.Operands
import Qua.Proofs.Build.Poison
import Qua.Proofs.Stream.Pipeline

/-!
# What calls are made of

A script composes what it gives to a session of what the session has answered before: its variables,
arrays, library calls and streams, besides literals and the two registers. Main definitions:
`Session.ComposedOf`, where tags may be used in any roles, and `Session.MadeOf`, where every tag is used in one.
-/

namespace Qua

-- ---------------------------------------------------------------------------
-- Operands
-- ---------------------------------------------------------------------------

section

variable (given : List Outcome)

/-- The expression is composed of handles that have been given, of finite literals and of registers. -/
inductive Expression.MadeOf : Expression → Prop
  | handle (h : .expression e ∈ given) : MadeOf e
  | literal (h : l.Finite) : MadeOf (.literal l)
  | register (r : Register) : MadeOf (.var (.io r))
  | binary (op : BinaryOperator) (hl : MadeOf left) (hr : MadeOf right) : MadeOf (.binary op left right)
  | index {of i e : Expression} (ho : MadeOf of) (hi : MadeOf i) (h : of.index i = .ok e) : MadeOf e
  | length {of e : Expression} (ho : MadeOf of) (h : of.lengthOf = .ok e) : MadeOf e

/-- The stream has been given, and can be read in other ways. -/
inductive ResultSource.MadeOf : ResultSource → Prop
  | handle (h : .stream source ∈ given) : MadeOf source
  | timestamps (h : MadeOf source) : MadeOf source.timestamps
  | withTimestamps (h : MadeOf source) : MadeOf source.withTimestamps
  | input1 (h : MadeOf source) : MadeOf source.input1
  | input2 (h : MadeOf source) : MadeOf source.input2
  | reshaped (h : MadeOf source) : MadeOf source.reshaped

/-- The pipeline is composed by the operators of streams, with numbers that can be written. A buffer can be
asked for without dimensions, though it has no text then. -/
inductive StreamToken.MadeOf : StreamToken → Prop
  | source {read : ResultSource} (h : read.MadeOf given) : MadeOf read.token
  | average (h : MadeOf parent) : MadeOf parent.average
  | buffer (h : MadeOf parent) (hd : ∀ n ∈ dimensions, n ≠ Int64.minValue) : MadeOf (parent.buffer dimensions)
  | bufferAndSkip (h : MadeOf parent) (hl : length ≠ Int64.minValue) (hs : skipped ≠ Int64.minValue) :
    MadeOf (parent.bufferAndSkip length skipped)
  | map (h : MadeOf parent) (hf : function.Writable) : MadeOf (parent.map function)
  | flatten (h : MadeOf parent) : MadeOf parent.flatten
  | skip (h : MadeOf parent) (hl : length ≠ Int64.minValue) : MadeOf (parent.skip length)
  | skipLast (h : MadeOf parent) (hl : length ≠ Int64.minValue) : MadeOf (parent.skipLast length)
  | take (h : MadeOf parent) (hl : length ≠ Int64.minValue) : MadeOf (parent.take length)
  | histogram {bins : List (List StreamNumber)} (h : MadeOf parent)
    (hb : ∀ bin ∈ bins, ∀ value ∈ bin, value.Writable) : MadeOf (parent.histogram bins)
  | zip (ho : MadeOf other) (h : MadeOf parent) : MadeOf (StreamToken.zip other parent)
  | arithmetic (op : ArithmeticOperator) (hl : MadeOf left) (hr : MadeOf right) :
    MadeOf (.arithmetic op (.stream left) (.stream right))
  | arithmeticLeft (op : ArithmeticOperator) (hl : MadeOf left) (hr : StreamConstant.Writable right) :
    MadeOf (.arithmetic op (.stream left) right.operand)
  | arithmeticRight (op : ArithmeticOperator) (hl : StreamConstant.Writable left) (hr : MadeOf right) :
    MadeOf (.arithmetic op left.operand (.stream right))

/-- The target is made by one of the functions that make targets. -/
inductive ProcessTarget.MadeOf : ProcessTarget → Prop
  | full (he : Expression.MadeOf given e) (h : fullOf e = .ok target) : MadeOf target
  | sliced (he : Expression.MadeOf given e) (hn : samples ≠ Int64.minValue)
    (h : slicedOf e samples = .ok target) : MadeOf target
  | accumulated (he : Expression.MadeOf given e) (hn : samples ≠ Int64.minValue)
    (h : accumulatedOf e samples = .ok target) : MadeOf target
  | movingWindow (he : Expression.MadeOf given e) (hn : samples ≠ Int64.minValue)
    (hc : chunks ≠ Int64.minValue) (h : movingWindowOf e samples chunks = .ok target) : MadeOf target

/-- The process is made by one of the functions that make processes. -/
inductive MeasureProcess.MadeOf : MeasureProcess → Prop
  | analog (kind : AnalogKind) (weights : IntegrationWeights) (ht : ProcessTarget.MadeOf given target) :
    MadeOf (.analog ⟨kind, weights, target⟩)
  | timeTagging (he : Expression.MadeOf given e) (hl : ∀ l ∈ length, Expression.MadeOf given l)
    (hn : maxTime ≠ Int64.minValue) (h : timeTaggingOf kind e maxTime length output = .ok process) :
    MadeOf process
  | counting (he : Expression.MadeOf given e) (hn : maxTime ≠ Int64.minValue)
    (h : countingOf e maxTime outputs = .ok process) : MadeOf process

end

-- ---------------------------------------------------------------------------
-- What is in a call
-- ---------------------------------------------------------------------------

def StreamTarget.sources : StreamTarget → List ResultSource
  | .tag _ => []
  | .source declared => [declared]

def ChirpOptions.expressions (options : ChirpOptions) : List Expression :=
  match options.rate with
  | .expression rate => [rate]
  | .values _ => []

def ForEachValues.expressions : ForEachValues → List Expression
  | .array declared => [declared]
  | .literals _ => []

def LibraryArgument.expressions : LibraryArgument → List Expression
  | .expression value => [value]
  | .literals _ => []

namespace Leaf

def expressions : Leaf → List Expression
  | .play pulse _ options =>
    pulse.expressions ++ options.amp.toList.flatMap Amp.expressions ++ options.duration.toList
      ++ options.condition.toList ++ options.chirp.toList.flatMap ChirpOptions.expressions
      ++ options.truncate.toList
  | .measure _ _ options => options.amp.toList.flatMap Amp.expressions
  | .frameRotation angle _ => [angle]
  | .frameRotation2pi angle _ => [angle]
  | .fastFrameRotation cosine sine _ => [cosine, sine]
  | .waitForTrigger _ _ _ target => target.toList
  | .assign target value => [target, value]
  | .save source _ => [source]
  | .plain action => action.expressions
  | .resetFrame _ => []

def sources : Leaf → List ResultSource
  | .play _ _ options => options.timestampStream.toList.flatMap StreamTarget.sources
  | .measure _ _ options =>
    options.stream.toList.flatMap StreamTarget.sources ++
      options.timestampStream.toList.flatMap StreamTarget.sources
  | .save _ stream => stream.sources
  | _ => []

def processes : Leaf → List MeasureProcess
  | .measure _ _ options => options.processes
  | _ => []

def integers : Leaf → List Int64
  | .play _ _ options => options.chirp.toList.flatMap fun c => c.times.getD []
  | .plain action => action.integers
  | _ => []

/-- The call has an element, if it is one that needs any. -/
def HasElement : Leaf → Prop
  | .fastFrameRotation _ _ elements => elements ≠ []
  | .waitForTrigger elements _ _ _ => elements ≠ []
  | _ => True

/-- The leaf is made of what has been given, and uses tags in their roles. -/
structure MadeOf (role : String → TagRole) (given : List Outcome) (leaf : Leaf) : Prop where
  expressions : ∀ e ∈ leaf.expressions, e.MadeOf given
  sources : ∀ source ∈ leaf.sources, source.MadeOf given
  processes : ∀ process ∈ leaf.processes, process.MadeOf given
  /-- A script has no text for the least integer. -/
  integers : ∀ n ∈ leaf.integers, n ≠ Int64.minValue
  tags : ∀ use ∈ leaf.uses, use.1 = role use.2
  hasElement : leaf.HasElement
  genuine : leaf.isGenuine = true

/-- The call has an element, if it is a wait for a trigger. -/
def Triggered : Leaf → Prop
  | .waitForTrigger elements _ _ _ => elements ≠ []
  | _ => True

/-- The leaf is made of what has been given, and uses tags in any roles. -/
structure ComposedOf (given : List Outcome) (leaf : Leaf) : Prop where
  expressions : ∀ e ∈ leaf.expressions, e.MadeOf given
  sources : ∀ source ∈ leaf.sources, source.MadeOf given
  processes : ∀ process ∈ leaf.processes, process.MadeOf given
  integers : ∀ n ∈ leaf.integers, n ≠ Int64.minValue
  triggered : leaf.Triggered
  genuine : leaf.isGenuine = true

theorem MadeOf.composedOf {role : String → TagRole} {given : List Outcome} {leaf : Leaf}
    (h : leaf.MadeOf role given) : leaf.ComposedOf given where
  expressions := h.expressions
  sources := h.sources
  processes := h.processes
  integers := h.integers
  triggered := by
    have helement := h.hasElement
    cases leaf <;> first | exact helement | trivial
  genuine := h.genuine

theorem MadeOf.allowed {role : String → TagRole} {given : List Outcome} {leaf : Leaf}
    (h : leaf.MadeOf role given) : leaf.Allowed False := by
  refine ⟨h.genuine, fun he => ?_⟩
  cases leaf with
  | fastFrameRotation cosine sine elements =>
    cases elements with
    | nil => exact h.hasElement rfl
    | cons => cases he
  | _ => cases he

end Leaf

def Opening.expressions : Opening → List Expression
  | .whileLoop condition => [condition]
  | .infiniteLoop => []
  | .counted target init condition update => [target, init, condition, update]
  | .forEach targets values => targets ++ values.flatMap ForEachValues.expressions
  | .strictTiming => []

def Entry.expressions : Entry → List Expression
  | .conditional condition _ => [condition]
  | .elif condition => [condition]
  | .switch value _ => [value]
  | .case value => [value]
  | .block opening => opening.expressions
  | _ => []

namespace Request

def expressions : Request → List Expression
  | .libraryCall _ _ arguments => arguments.flatMap LibraryArgument.expressions
  | .amp values => values
  | _ => []

def pipelines : Request → List StreamToken
  | .registerSave _ _ pipeline => [pipeline]
  | _ => []

end Request

-- ---------------------------------------------------------------------------
-- Sessions
-- ---------------------------------------------------------------------------

/-- What is given to the session has been made of what it has answered before. -/
def Event.MadeOf (role : String → TagRole) (given : List Outcome) : Event → Prop
  | .call (.request asked) _ =>
    (∀ e ∈ asked.expressions, e.MadeOf given) ∧ ∀ pipeline ∈ asked.pipelines, pipeline.MadeOf given
  | .call (.leaf leaf) _ => leaf.MadeOf role given
  | .call (.loopCondition condition) _ => condition.MadeOf given
  | .call (.enter entry) _ => ∀ e ∈ entry.expressions, e.MadeOf given
  | .close _ => True
  | .drop _ => True

/-- What is given to the session has been made of what it has answered before, whatever its tags are used for. -/
def Event.ComposedOf (given : List Outcome) : Event → Prop
  | .call (.request asked) _ =>
    (∀ e ∈ asked.expressions, e.MadeOf given) ∧ ∀ pipeline ∈ asked.pipelines, pipeline.MadeOf given
  | .call (.leaf leaf) _ => leaf.ComposedOf given
  | .call (.loopCondition condition) _ => condition.MadeOf given
  | .call (.enter entry) _ => ∀ e ∈ entry.expressions, e.MadeOf given
  | .close _ => True
  | .drop _ => True

def Answer.outcomes : Answer → List Outcome
  | .ok outcome => [outcome]
  | .error _ => []

/-- Every event of the transcript is made of what has been answered before it, and each tag is used in the one
role that it has. -/
inductive Session.MadeOf (role : String → TagRole) : List Outcome → List (Event × Answer) → Prop
  | nil : MadeOf role given []
  | cons (h : event.MadeOf role given) (hrest : MadeOf role (Answer.outcomes answer ++ given) rest) :
    MadeOf role given ((event, answer) :: rest)

/-- Every event of the transcript is made of what has been answered before it. -/
inductive Session.ComposedOf : List Outcome → List (Event × Answer) → Prop
  | nil : ComposedOf given []
  | cons (h : event.ComposedOf given) (hrest : ComposedOf (Answer.outcomes answer ++ given) rest) :
    ComposedOf given ((event, answer) :: rest)

section

variable {role : String → TagRole} {given : List Outcome}

namespace Event

variable {event : Event} (h : event.MadeOf role given)
include h

theorem MadeOf.composedOf : event.ComposedOf given := by
  cases event with
  | call made l =>
    cases made with
    | leaf leaf => exact Leaf.MadeOf.composedOf h
    | _ => exact h
  | _ => trivial

theorem MadeOf.tags : ∀ use ∈ event.uses, use.1 = role use.2 := by
  cases event with
  | call made l =>
    cases made with
    | leaf leaf => exact Leaf.MadeOf.tags h
    | _ => exact List.forall_mem_nil _
  | _ => exact List.forall_mem_nil _

theorem MadeOf.allowed : event.Allowed False := by
  have hother (hg : event.isGenuine = true) (he : event.isEmptyRotation = false) : event.Allowed False :=
    ⟨hg, fun hr => by rw [he] at hr; cases hr⟩
  cases event with
  | call made l =>
    cases made with
    | leaf leaf => exact Leaf.MadeOf.allowed h
    | _ => exact hother rfl rfl
  | _ => exact hother rfl rfl

end Event

theorem Session.MadeOf.composedOf {transcript : List (Event × Answer)} (h : MadeOf role given transcript) :
    ComposedOf given transcript := by
  induction h with
  | nil => exact .nil
  | cons h _ ih => exact .cons h.composedOf ih

/-- What is known of every event that is made of what has been given is known of those of the transcript. -/
theorem Session.MadeOf.forall_events {P : Event → Prop} {transcript : List (Event × Answer)}
    (h : MadeOf role given transcript) (hp : ∀ given event, event.MadeOf role given → P event) :
    ∀ event ∈ transcript.map Prod.fst, P event := by
  induction h with
  | nil => exact List.forall_mem_nil _
  | cons h _ ih => exact List.forall_mem_cons.mpr ⟨hp _ _ h, ih⟩

end

end Qua
