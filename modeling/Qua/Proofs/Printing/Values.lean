import Qua.Proofs.Printing.Steps
import Qua.Proofs.Run
import Qua.Replay.Evaluate

/-!
# Values that can be printed

What a script computes from values that can be printed can be printed.
-/

namespace Qua

theorem Binary64.isFinite_neg (x : Binary64) : (-x).isFinite = x.isFinite := by
  have hmagnitude : (-x).magnitude = x.magnitude := by
    have hbits : (-x).bits.toNat = x.bits.toNat ^^^ 2 ^ 63 := UInt64.toNat_xor _ _
    rw [magnitude, magnitude, hbits, show signBit = 2 ^ 63 by decide, Nat.xor_mod_two_pow, Nat.mod_self,
      Nat.xor_zero]
  rw [isFinite, isFinite, hmagnitude]

namespace Replay

section
variable {H : Hazard → Prop}

mutual

/-- What a program makes of the value can be printed, as far as hazards allow. -/
def Value.Prints (H : Hazard → Prop) : Value → Prop
  | .float x => x.isFinite = false → H .real
  | .list items => Value.AllPrint H items
  | .tuple items => Value.AllPrint H items
  | .expression e => e.Prints H
  | .stream token => token.Prints H
  | .pulse shape scale =>
    (∀ e ∈ shape.expressions, e.Prints H) ∧ ∀ e ∈ scale.toList.flatMap Amp.expressions, e.Prints H
  | .amp scale => ∀ e ∈ scale.expressions, e.Prints H
  | .process given => ∀ e ∈ given.expressions, e.Prints H
  | .none | .bool _ | .int _ | .string _ | .dict | .type _ | .source _ | .function _ => True

def Value.AllPrint (H : Hazard → Prop) : List Value → Prop
  | [] => True
  | v :: rest => v.Prints H ∧ Value.AllPrint H rest

end

namespace Value

variable {v left right : Value}

theorem allPrint_iff {values : List Value} : AllPrint H values ↔ ∀ v ∈ values, v.Prints H := by
  induction values with
  | nil => simp [AllPrint]
  | cons v rest ih => simp [AllPrint, ih]

-- ---------------------------------------------------------------------------
-- Literals and expressions
-- ---------------------------------------------------------------------------

theorem ofExpression_eq_ok {result : Except ExpressionError α} {a : α}
    (h : Faulty.ofExpression result = .ok a) : result = .ok a := by
  cases result with
  | ok b => exact congrArg Except.ok (Except.ok.inj h)
  | error e => cases h

theorem Prints.toLiteral {l : Literal} (hv : v.Prints H) (h : v.toLiteral = .ok l) : l.Prints H := by
  unfold Value.toLiteral at h
  split at h
  · obtain rfl := Except.ok.inj h
    exact Literal.renders_bool _
  · exact Literal.renders_ofInt (ofExpression_eq_ok h)
  · obtain rfl := Except.ok.inj h
    exact renders_real hv
  · obtain rfl := Except.ok.inj h
    exact hv
  · cases h

theorem prints_toLiterals {values : List Value} {ls : List Literal} (hv : AllPrint H values)
    (h : toLiterals values = .ok ls) : ∀ l ∈ ls, l.Prints H :=
  except_mapM_forall h fun v hm _ hl => (allPrint_iff.mp hv v hm).toLiteral hl

theorem Prints.toExpression {e : Expression} (hv : v.Prints H) (h : v.toExpression = .ok e) : e.Prints H := by
  unfold Value.toExpression at h
  split at h
  · obtain rfl := Except.ok.inj h
    exact hv
  · obtain ⟨l, hl, rfl⟩ := except_map_eq_ok.mp h
    exact hv.toLiteral hl

theorem Prints.toItems {items : List Value} (hv : v.Prints H) (h : v.toItems = .ok items) :
    ∀ item ∈ items, item.Prints H := by
  unfold Value.toItems at h
  split at h
  · obtain rfl := Except.ok.inj h
    exact allPrint_iff.mp hv
  · obtain rfl := Except.ok.inj h
    exact allPrint_iff.mp hv
  · cases h

theorem Prints.toInitialValue {x : InitialValue} (hv : v.Prints H) (h : v.toInitialValue = .ok x) :
    ∀ l ∈ x.literals, l.Prints H := by
  unfold Value.toInitialValue at h
  split at h <;> obtain ⟨ls, hls, rfl⟩ := except_map_eq_ok.mp h
  · exact prints_toLiterals hv hls
  · exact prints_toLiterals hv hls
  · exact List.forall_mem_singleton.mpr (hv.toLiteral hls)

theorem Prints.toLibraryArgument {a : LibraryArgument} (hv : v.Prints H) (h : v.toLibraryArgument = .ok a) :
    a.Prints H := by
  unfold Value.toLibraryArgument at h
  split at h <;> obtain ⟨ls, hls, rfl⟩ := except_map_eq_ok.mp h
  · exact prints_toLiterals hv hls
  · exact prints_toLiterals hv hls
  · exact hv.toExpression hls

theorem Prints.toForEachValues {values : ForEachValues} (hv : v.Prints H) (h : v.toForEachValues = .ok values) :
    values.Prints H := by
  unfold Value.toForEachValues at h
  split at h <;> obtain ⟨ls, hls, rfl⟩ := except_map_eq_ok.mp h
  · exact prints_toLiterals hv hls
  · exact prints_toLiterals hv hls
  · trivial

-- ---------------------------------------------------------------------------
-- Pulses, processes and streams
-- ---------------------------------------------------------------------------

theorem Prints.toPulse {pulse : Pulse} {amp : Option Amp} (hv : v.Prints H) (h : v.toPulse = .ok (pulse, amp)) :
    (∀ e ∈ pulse.expressions, e.Prints H) ∧ ∀ e ∈ amp.toList.flatMap Amp.expressions, e.Prints H := by
  unfold Value.toPulse at h
  split at h
  · obtain ⟨rfl, rfl⟩ := Prod.mk.inj (Except.ok.inj h)
    exact ⟨List.forall_mem_nil _, List.forall_mem_nil _⟩
  · obtain ⟨rfl, rfl⟩ := Prod.mk.inj (Except.ok.inj h)
    exact hv
  · cases h

theorem Prints.toProcess {process : MeasureProcess} (hv : v.Prints H) (h : v.toProcess = .ok process) :
    ∀ e ∈ process.expressions, e.Prints H := by
  unfold Value.toProcess at h
  split at h
  · obtain rfl := Except.ok.inj h
    exact hv
  · cases h

theorem Prints.toOperand {operand : StreamOperand} (hv : v.Prints H) (h : v.toOperand = .ok operand) :
    operand.token.Prints H := by
  unfold Value.toOperand at h
  split at h
  · obtain rfl := Except.ok.inj h
    exact StreamToken.prints_source _
  · obtain rfl := Except.ok.inj h
    exact hv
  all_goals obtain ⟨_, -, rfl⟩ := except_map_eq_ok.mp h
  · exact StreamToken.prints_vector _
  · exact StreamToken.prints_vector _
  · exact StreamToken.prints_number _

end Value

-- ---------------------------------------------------------------------------
-- Operators
-- ---------------------------------------------------------------------------

theorem prints_streamBinary {operator : Script.Operator} {left right v : Value} (hl : left.Prints H)
    (hr : right.Prints H) (h : streamBinary operator left right = .ok v) : v.Prints H := by
  unfold streamBinary at h
  split at h
  · cases h
  · obtain ⟨l, hleft, h⟩ := except_bind_eq_ok.mp h
    obtain ⟨r, hright, h⟩ := except_bind_eq_ok.mp h
    obtain rfl := Except.ok.inj h
    exact StreamToken.prints_arithmetic _ (hl.toOperand hleft) (hr.toOperand hright)

theorem prints_expressionBinary {operator : Script.Operator} {left right v : Value} (hl : left.Prints H)
    (hr : right.Prints H) (h : expressionBinary operator left right = .ok v) : v.Prints H := by
  unfold expressionBinary at h
  split at h
  · cases h
  · obtain ⟨l, hleft, h⟩ := except_bind_eq_ok.mp h
    obtain ⟨r, hright, h⟩ := except_bind_eq_ok.mp h
    obtain rfl := Except.ok.inj h
    exact Expression.renders_binary _ (hl.toExpression hleft) (hr.toExpression hright)

theorem prints_repeated {items : List Value} (h : Value.AllPrint H items) (count : Int64) :
    (repeated items count).Prints H := by
  refine Value.allPrint_iff.mpr fun v hv => ?_
  obtain ⟨copy, hcopy, hv⟩ := List.mem_flatten.mp hv
  rw [List.eq_of_mem_replicate hcopy] at hv
  exact Value.allPrint_iff.mp h v hv

theorem prints_scale {scale : Amp} (h : (Value.amp scale).Prints H) :
    ∀ e ∈ (some scale).toList.flatMap Amp.expressions, e.Prints H := by
  have h : ∀ e ∈ scale.expressions, e.Prints H := h
  simpa using h

theorem prints_binary {operator : Script.Operator} {left right v : Value} (hl : left.Prints H)
    (hr : right.Prints H) (h : binary operator left right = .ok v) : v.Prints H := by
  unfold binary at h
  split at h
  · exact prints_streamBinary hl hr h
  · split at h
    · obtain rfl := Except.ok.inj h
      exact ⟨List.forall_mem_nil _, prints_scale hr⟩
    · obtain rfl := Except.ok.inj h
      exact ⟨hl.1, prints_scale hr⟩
    · obtain rfl := Except.ok.inj h
      exact Value.allPrint_iff.mpr (List.forall_mem_append.mpr ⟨Value.allPrint_iff.mp hl, Value.allPrint_iff.mp hr⟩)
    · obtain rfl := Except.ok.inj h
      exact prints_repeated hl _
    · obtain rfl := Except.ok.inj h
      exact prints_repeated hr _
    · exact prints_expressionBinary hl hr h

theorem prints_expressionUnary {operator : Script.UnaryOperator} {operand v : Value} (ho : operand.Prints H)
    (h : expressionUnary operator operand = .ok v) : v.Prints H := by
  unfold expressionUnary at h
  split at h
  · cases h
  · cases operator
    case plus => cases h
    case minus =>
      obtain ⟨e, he, h⟩ := except_bind_eq_ok.mp h
      obtain rfl := Except.ok.inj h
      exact Expression.renders_binary .sub (Literal.renders_int 0) (ho.toExpression he)
    all_goals
      obtain ⟨e, he, h⟩ := except_bind_eq_ok.mp h
      obtain rfl := Except.ok.inj h
      exact Expression.renders_binary .xor (ho.toExpression he) (Literal.renders_bool true)

theorem prints_unary {operator : Script.UnaryOperator} {operand v : Value} (ho : operand.Prints H)
    (h : unary operator operand = .ok v) : v.Prints H := by
  unfold unary at h
  split at h
  case h_2 x =>
    obtain rfl := Except.ok.inj h
    intro hx
    rw [Binary64.isFinite_neg] at hx
    exact ho hx
  case h_8 => exact prints_expressionUnary ho h
  all_goals
    obtain rfl := Except.ok.inj h
    exact ho

theorem mem_of_indexed {items : List Value} {index v : Value} (h : indexed (.list items) index = .ok v) :
    v ∈ items := by
  obtain ⟨position, -, h⟩ := except_bind_eq_ok.mp h
  split at h
  · cases h
  · split at h
    · next hget =>
      obtain rfl := Except.ok.inj h
      exact List.mem_of_getElem? hget
    · cases h

theorem prints_indexed {value index v : Value} (hv : value.Prints H) (hi : index.Prints H)
    (h : indexed value index = .ok v) : v.Prints H := by
  cases value
  case list items => exact Value.allPrint_iff.mp hv v (mem_of_indexed h)
  case tuple items => exact Value.allPrint_iff.mp hv v (mem_of_indexed h)
  all_goals
    obtain ⟨array, -, h⟩ := except_bind_eq_ok.mp h
    obtain ⟨i, hindex, h⟩ := except_bind_eq_ok.mp h
    obtain ⟨cell, hcell, rfl⟩ := except_map_eq_ok.mp h
    exact Expression.renders_index (hi.toExpression hindex) (Value.ofExpression_eq_ok hcell)

end
end Replay
end Qua
