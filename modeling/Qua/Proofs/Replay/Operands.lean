import Qua.Proofs.Build.Names
import Qua.Proofs.Build.Operands
import Qua.Proofs.Replay.Meaning

/-!
# Operands of written calls

Inside the program block, after its declarations, expressions and streams mean themselves. This holds
as long as only names of the build are assigned to.
-/

namespace Qua.Replay

open Script (IsTerm IsKeyword IsSeparator)
open Text (IsIdentifier)

/-- Inside the program block, the names stand for their variables and arrays, and nothing is bound that
a session does not hand out. -/
structure Ready (hs : List (String × Expression)) (s : State) : Prop where
  inProgram : s.inProgram = true
  bound : ∀ h ∈ hs, s.environment.lookup h.1 = some (.expression h.2)
  free : ∀ name, isAllocated name = false → s.environment.lookup name = none

section

variable {s : State} {hs : List (String × Expression)}

theorem Ready.resolves (h : Ready hs s) : Resolves s hs := by
  refine ⟨h.inProgram, h.bound, fun name hn => h.free name ?_⟩
  have hall : ∀ name ∈ Expression.reservedNames, isAllocated name = false := by decide
  exact hall name hn

theorem Ready.moved (h : Ready hs s) (d : Draft) : Ready hs { s with draft := d } :=
  ⟨h.inProgram, h.bound, h.free⟩

theorem Ready.expression (h : Ready hs s) {e : Expression} (he : e.Over hs) :
    ∃ text, e.render = .ok text ∧ OperandMeans s text e.replayed :=
  means_expression e he.writable (h.resolves.mono he.handles)

theorem Ready.named (h : Ready hs s) (hn : (Expression.named name).Over hs) :
    PrimaryMeans s name (.expression (.named name)) :=
  means_bound hn.named.1 (h.bound _ hn.named.2)

theorem Ready.array (h : Ready hs s) (hn : (Expression.array name).Over hs) :
    PrimaryMeans s name (.expression (.array name)) :=
  means_bound hn.array.1 (h.bound _ hn.array.2)

theorem Ready.expressions (h : Ready hs s) {es : List Expression} (he : ∀ e ∈ es, e.Over hs) :
    ∃ texts, es.mapM Expression.render = .ok texts ∧
      List.Forall₂ (Means s) texts (es.map Expression.replayed) := by
  induction es with
  | nil => exact ⟨[], rfl, .nil⟩
  | cons e es ih =>
    obtain ⟨text, hr, ht⟩ := h.expression (he e List.mem_cons_self)
    obtain ⟨texts, hrs, hts⟩ := ih fun e h => he e (List.mem_cons_of_mem _ h)
    refine ⟨text :: texts, ?_, .cons ht.term hts⟩
    rw [List.mapM_cons, hr, hrs]
    rfl

theorem means_quoted (texts : List String) :
    List.Forall₂ (Means s) (texts.map Text.quote) (texts.map Value.string) := by
  induction texts with
  | nil => exact .nil
  | cons text texts ih => exact .cons (means_string text).means ih

theorem means_integers {ns : List Int64} (h : ∀ n ∈ ns, n ≠ Int64.minValue) :
    List.Forall₂ (Means s) (ns.map integerText) (ns.map Value.int) := by
  induction ns with
  | nil => exact .nil
  | cons n ns ih =>
    exact .cons (means_integer (h n List.mem_cons_self)).term
      (ih fun n hn => h n (List.mem_cons_of_mem _ hn))

end

-- ---------------------------------------------------------------------------
-- What values are taken as
-- ---------------------------------------------------------------------------

theorem isNone_replayed (e : Expression) : e.replayed.isNone = false := by
  cases e with
  | literal value => cases value <;> rfl
  | _ => rfl

/-- The value of the text of a stream: its tag, or the stream that its name stands for. -/
def Value.ofTarget : StreamTarget → Value
  | .tag tag => .string tag
  | .source given => .source given

end Qua.Replay
