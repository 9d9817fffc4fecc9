import Qua.Expression.HashInput
import Qua.Proofs.Sameness
import Qua.Proofs.Storage.Forms

/-!
# Equal expressions hash alike

Expressions are compared and hashed by their representatives, in which the two zeros are one number and so
are all NaNs. Hence equality is an equivalence and equal expressions have the same hash input; and a hash
input tells a literal's type and representative. Main statement: `Expression.equality_hashable`.
-/

namespace Qua

open HashInput (ofText)

namespace Binary64

/-- Representatives represent themselves. -/
theorem representative_representative (x : Binary64) : x.representative.representative = x.representative := by
  by_cases hz : x.isZero
  · simp only [representative, if_pos hz, if_pos isZero_zero]
  · by_cases hn : x.isNaN
    · simp [representative, hz, hn, isZero_nan, isNaN_nan]
    · simp [representative, hz, hn]

end Binary64

namespace Literal

@[simp] theorem hashInput_represented (a : Literal) : a.represented.hashInput = a.hashInput := by
  cases a with
  | int _ => rfl
  | bool _ => rfl
  | fixed x => rw [represented, hashInput, hashInput, Binary64.representative_representative]

/-- The names of the three types begin with different bytes. -/
theorem represented_of_hashInput {a b : Literal} (h : a.hashInput = b.hashInput) : a.represented = b.represented := by
  have hint : ofText "Int" = [73, 110, 116, 255] := by decide
  have hbool : ofText "Bool" = [66, 111, 111, 108, 255] := by decide
  have hfixed : ofText "Fixed" = [70, 105, 120, 101, 100, 255] := by decide
  cases a with
  | int m =>
    cases b with
    | int n =>
      have hword := List.append_cancel_left h
      have hbits := (wordBytes_inj m.toUInt32.toNat_lt n.toUInt32.toNat_lt).mp hword
      have hsame : m = n := congrArg Int32.ofUInt32 (UInt32.toNat_inj.mp hbits)
      rw [hsame]
    | bool _ => simp [hashInput, hint, hbool] at h
    | fixed _ => simp [hashInput, hint, hfixed] at h
  | bool p =>
    cases b with
    | bool q =>
      have hbyte := List.append_cancel_left h
      cases p <;> cases q <;> first | rfl | cases hbyte
    | int _ => simp [hashInput, hint, hbool] at h
    | fixed _ => simp [hashInput, hbool, hfixed] at h
  | fixed x =>
    cases b with
    | fixed y =>
      have hword := List.append_cancel_left h
      have hbits := (wordBytes_inj x.representative.bits.toNat_lt y.representative.bits.toNat_lt).mp hword
      have hsame : x.representative = y.representative := congrArg Binary64.mk (UInt64.toNat_inj.mp hbits)
      rw [represented, represented, hsame]
    | int _ => simp [hashInput, hint, hfixed] at h
    | bool _ => simp [hashInput, hbool, hfixed] at h

end Literal

namespace Expression

mutual

theorem hashInput_represented : (e : Expression) → e.represented.hashInput = e.hashInput
  | .var _ | .array _ | .length _ => rfl
  | .cell _ i => by rw [represented, hashInput, hashInput, hashInput_represented i]
  | .literal value => by rw [represented, hashInput, hashInput, Literal.hashInput_represented]
  | .binary _ l r => by
    rw [represented, hashInput, hashInput, hashInput_represented l, hashInput_represented r]
  | .call _ _ as => by
    rw [represented, hashInput, hashInput, hashInputOfAll_represented as, representedAll_eq_map, List.length_map]

theorem hashInputOfAll_represented : (es : List Expression) →
    hashInputOfAll (representedAll es) = hashInputOfAll es
  | [] => rfl
  | e :: rest => by
    rw [representedAll, hashInputOfAll, hashInputOfAll, hashInput_represented e, hashInputOfAll_represented rest]

end

/-- Equality of expressions is an equivalence, equal expressions have the same hash input, and literals are
equal exactly if they have. -/
theorem equality_hashable :
    Equivalence (fun a b : Expression => (a == b) = true) ∧
    (∀ a b : Expression, (a == b) = true → a.hashInput = b.hashInput) ∧
    ∀ a b : Literal, (a == b) = true ↔ a.hashInput = b.hashInput := by
  refine ⟨⟨fun _ => beq_iff.mpr rfl, fun h => beq_iff.mpr (beq_iff.mp h).symm,
    fun h h' => beq_iff.mpr ((beq_iff.mp h).trans (beq_iff.mp h'))⟩, fun a b h => ?_,
    fun a b => ⟨fun h => ?_, fun h => ?_⟩⟩
  · rw [← hashInput_represented a, beq_iff.mp h, hashInput_represented b]
  · rw [← Literal.hashInput_represented a, (Literal.same_iff a b).mp h, Literal.hashInput_represented b]
  · exact (Literal.same_iff a b).mpr (Literal.represented_of_hashInput h)

/-- A call on zeros and NaNs of different signs. -/
theorem equality_hashable_signed :
    let signed (zero nan : Binary64) : Expression :=
      .call .math "pow" [.binary .sub (fixed zero) (named "v1"), .cell "a1" (fixed nan)]
    (signed .zero .nan == signed (-.zero) (-.nan)) = true ∧
    (signed .zero .nan).hashInput = (signed (-.zero) (-.nan)).hashInput := by
  intro signed
  have hequal : (signed .zero .nan == signed (-.zero) (-.nan)) = true := by decide
  exact ⟨hequal, equality_hashable.2.1 _ _ hequal⟩

end Expression
end Qua
