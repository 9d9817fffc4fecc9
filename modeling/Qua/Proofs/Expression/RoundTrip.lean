import Qua.Proofs.Replay.Evaluation
import Qua.Proofs.Script.OneLine

/-!
# Expressions read back

An expression that has a text is read back from it: the text is a script of one term, and where the
names in the expression stand for themselves the value of that term is the expression again. Nothing
is folded, and nothing is built on the way.
-/

namespace Qua.Expression

open Replay (Resolves)

/-- The text of an expression reads back as the expression and leaves the state as it is. -/
theorem script_readsBack (e : Expression) (s : Replay.State) (h : e.Writable)
    (hs : Resolves s e.handles) :
    ∃ text term value, e.render = .ok text ∧ Script.parse text = .ok [.term 1 term] ∧
      Replay.evaluate term s = .ok (value, s) ∧ value.toExpression = .ok e := by
  obtain ⟨text, hr, ht⟩ := e.render_reads h
  exact ⟨text, e.term, e.replayed, hr, ht.term.parse, Replay.evaluate_term e h hs,
    Replay.toExpression_replayed e⟩

/-- Negative literals next to operators, a cell, the length of an array and calls of two libraries. -/
theorem script_readsBack_nested :
    let e : Expression := .binary .lt
      (.binary .sub (.int (-5)) (.cell "a1" (.call .random "rand_int" [.named "v1", .length "a1"])))
      (.call .math "log" [.int (-2147483648), .fixed (.neg .zero)])
    let s : Replay.State :=
      { inProgram := true
        environment := [("v1", .expression (.named "v1")), ("a1", .expression (.array "a1"))] }
    ∃ text term value, e.render = .ok text ∧ Script.parse text = .ok [.term 1 term] ∧
      Replay.evaluate term s = .ok (value, s) ∧ value.toExpression = .ok e := by
  intro e s
  have hv : Text.IsIdentifier "v1" := by decide
  have ha : Text.IsIdentifier "a1" := by decide
  have hwritable : e.Writable := by
    refine ⟨⟨trivial, ha, rfl, rfl, ?_⟩, rfl, ?_⟩
    · exact ⟨hv, ha, trivial⟩
    · exact ⟨trivial, rfl, trivial⟩
  refine script_readsBack e s hwritable ⟨rfl, ?_, ?_⟩
  · intro h hm
    have hcases : h = ("a1", .array "a1") ∨ h = ("v1", .named "v1") := by
      simpa [e, handles, handlesOfAll, Expression.int, Expression.fixed, Expression.named, or_comm]
        using hm
    obtain rfl | rfl := hcases <;> rfl
  · decide

end Qua.Expression
