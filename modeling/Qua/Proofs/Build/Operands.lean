import Qua.Proofs.Build.Validity
import Qua.Proofs.Replay.Evaluation

/-!
# Operands of actions

The expressions and integers that an action is made of, and what is asked of them: that they are over
the variables and arrays of a session, and that their texts can be read back.
-/

namespace Qua

open Build (IsPlace IsSavable)

/-- The expression has a text, and its names are among the given ones. -/
structure Expression.Over (handles : List (String × Expression)) (e : Expression) : Prop where
  writable : e.Writable
  handles : e.handles ⊆ handles

namespace Expression

variable {hs hs' : List (String × Expression)} {e left right : Expression}

theorem Over.mono (h : e.Over hs) (hsub : hs ⊆ hs') : e.Over hs' :=
  ⟨h.writable, fun _ hx => hsub (h.handles hx)⟩

theorem over_binary {op : BinaryOperator} :
    (Expression.binary op left right).Over hs ↔ left.Over hs ∧ right.Over hs := by
  constructor
  · intro h
    obtain ⟨hl, hr⟩ := h.writable
    have hsub := h.handles
    rw [Expression.handles, List.append_subset] at hsub
    exact ⟨⟨hl, hsub.1⟩, hr, hsub.2⟩
  · rintro ⟨hl, hr⟩
    refine ⟨⟨hl.writable, hr.writable⟩, ?_⟩
    rw [Expression.handles, List.append_subset]
    exact ⟨hl.handles, hr.handles⟩

theorem over_literal {l : Literal} (h : l.Finite) : (Expression.literal l).Over hs :=
  ⟨h, fun _ hx => by simp [Expression.handles] at hx⟩

theorem Over.named (h : (Expression.named name).Over hs) :
    Text.IsIdentifier name ∧ (name, Expression.named name) ∈ hs :=
  ⟨h.writable, h.handles (by simp [Expression.named, Expression.handles])⟩

theorem Over.array (h : (Expression.array name).Over hs) :
    Text.IsIdentifier name ∧ (name, Expression.array name) ∈ hs :=
  ⟨h.writable, h.handles (by simp [Expression.handles])⟩

end Expression

/-- The literals of an initial value. -/
def InitialValue.literals : InitialValue → List Literal
  | .scalar value => [value]
  | .array values => values

-- ---------------------------------------------------------------------------
-- What is in an action
-- ---------------------------------------------------------------------------

namespace ProcessTarget

/-- The variable or array that receives the results. -/
def expression : ProcessTarget → Expression
  | .full target => target
  | .sliced array _ => .array array
  | .accumulated array _ => .array array
  | .movingWindow array _ _ => .array array

def integers : ProcessTarget → List Int64
  | .full _ => []
  | .sliced _ samples => [samples]
  | .accumulated _ samples => [samples]
  | .movingWindow _ samples chunks => [samples, chunks]

/-- One value goes to a variable or to the cell of an array. -/
def Placed : ProcessTarget → Prop
  | .full target => IsPlace target
  | _ => True

end ProcessTarget

namespace MeasureProcess

def expressions : MeasureProcess → List Expression
  | .analog process => [process.target.expression]
  | .timeTagging process => .array process.target :: process.targetLength.toList.map .named
  | .counting process => [.named process.target]

def integers : MeasureProcess → List Int64
  | .analog process => process.target.integers
  | .timeTagging process => [process.maxTime]
  | .counting process => [process.maxTime]

def Placed : MeasureProcess → Prop
  | .analog process => process.target.Placed
  | _ => True

end MeasureProcess

def Pulse.expressions : Pulse → List Expression
  | .named _ => []
  | .ramp rate => [rate]

def Amp.expressions : Amp → List Expression
  | .scalar value => [value]
  | .matrix values => values.toList

namespace Action

/-- The expressions of an action; a variable or an array that is only named is one too. -/
def expressions : Action → List Expression
  | .play p =>
    p.pulse.expressions ++ p.amp.toList.flatMap Amp.expressions ++ p.duration.toList
      ++ p.condition.toList ++ p.chirp.toList.map Chirp.rate ++ p.truncate.toList
  | .measure m => m.amp.toList.flatMap Amp.expressions ++ m.processes.flatMap MeasureProcess.expressions
  | .wait duration _ => [duration]
  | .assign target value => [target, value]
  | .save source _ => [source]
  | .updateFrequency _ value _ _ => [value]
  | .updateCorrection _ correction => correction.toList
  | .setDcOffset _ _ offset => [offset]
  | .advanceInputStream stream => [stream]
  | .zRotation angle _ => [angle]
  | .fastFrameRotation cosine sine _ => [cosine, sine]
  | .waitForTrigger w => w.timeTagTarget.toList.map .named
  | _ => []

def integers : Action → List Int64
  | .play p => p.chirp.toList.flatMap Chirp.times
  | .measure m => m.processes.flatMap MeasureProcess.integers
  | .rampToZero _ duration => duration.toList
  | _ => []

/-- What steps check of an action, and that a wait for a trigger has an element. -/
def Formed : Action → Prop
  | .play p => p.target ≠ some ""
  | .measure m => ∀ process ∈ m.processes, process.Placed
  | .assign target _ => IsPlace target
  | .save source _ => IsSavable source
  | .waitForTrigger w => w.elements ≠ []
  | _ => True

/-- The action can be written over the variables and arrays, and read back. -/
structure Over (handles : List (String × Expression)) (a : Action) : Prop where
  expressions : ∀ e ∈ a.expressions, e.Over handles
  /-- A script has no text for the least integer. -/
  integers : ∀ n ∈ a.integers, n ≠ Int64.minValue
  formed : a.Formed

theorem Over.mono {a : Action} (h : a.Over hs) (hsub : hs ⊆ hs') : a.Over hs' :=
  ⟨fun e he => (h.expressions e he).mono hsub, h.integers, h.formed⟩

theorem expressions_mapStreams (f : String → String) (a : Action) :
    (a.mapStreams f).expressions = a.expressions := by
  cases a <;> rfl

@[simp] theorem integers_mapStreams (f : String → String) (a : Action) :
    (a.mapStreams f).integers = a.integers := by
  cases a <;> rfl

theorem over_mapStreams (f : String → String) {a : Action} (h : a.Over hs) : (a.mapStreams f).Over hs where
  expressions := a.expressions_mapStreams f ▸ h.expressions
  integers := a.integers_mapStreams f ▸ h.integers
  formed := by
    have hf := h.formed
    cases a <;> exact hf

end Action
end Qua
