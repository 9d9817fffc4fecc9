import Std.Data.String.ToNat
import Qua.Program.Canonical

/-!
# Numbering names

A name without its counter has no digit at its end, so that a counter put behind it can be told from
it: numbering a list of different names gives different names, and changes no name before its counter.
-/

namespace Qua

namespace Text

theorem dropWhile_append_of_all {p : α → Bool} {l : List α} (h : ∀ a ∈ l, p a = true)
    (m : List α) : (l ++ m).dropWhile p = m.dropWhile p := by
  induction l with
  | nil => rfl
  | cons a l ih =>
    simp only [List.cons_append, List.dropWhile_cons, h a (by simp), if_true]
    exact ih fun b hb => h b (by simp [hb])

theorem dropWhile_dropWhile (p : α → Bool) (l : List α) :
    (l.dropWhile p).dropWhile p = l.dropWhile p := by
  induction l with
  | nil => rfl
  | cons a l ih =>
    by_cases ha : p a
    · simp [ha, ih]
    · simp [ha]

theorem toList_toString_digits (n : Nat) : ∀ c ∈ (toString n).toList, c.isDigit = true := by
  intro c hc
  have h : (toString n).toList = Nat.toDigits 10 n := by
    change (Nat.repr n).toList = _
    simp [Nat.repr]
  rw [h] at hc
  exact Nat.isDigit_of_mem_toDigits (by decide) (by decide) hc

theorem withoutTrailingDigits_append (s : String) (n : Nat) :
    withoutTrailingDigits (withoutTrailingDigits s ++ toString n) = withoutTrailingDigits s := by
  have h : ∀ c ∈ (toString n).toList.reverse, c.isDigit = true := by
    intro c hc
    exact toList_toString_digits n c (List.mem_reverse.mp hc)
  simp only [withoutTrailingDigits, String.toList_append, String.toList_ofList,
    List.reverse_append, List.reverse_reverse]
  rw [dropWhile_append_of_all h, dropWhile_dropWhile]

end Text

namespace Program

open Text (withoutTrailingDigits)

theorem nodup_eraseDups [BEq α] [LawfulBEq α] (l : List α) : l.eraseDups.Nodup := by
  match l with
  | [] => simp
  | a :: l =>
    rw [List.eraseDups_cons, List.nodup_cons]
    have hlen : (l.filter fun b => !b == a).length < (a :: l).length :=
      Nat.lt_succ_of_le (List.length_filter_le _ _)
    exact ⟨by simp, nodup_eraseDups _⟩
termination_by l.length
decreasing_by exact hlen

theorem lookup_getElem [BEq α] [LawfulBEq α] {l : List (α × β)} (hn : (l.map Prod.fst).Nodup)
    (h : i < l.length) : l.lookup l[i].1 = some l[i].2 := by
  induction l generalizing i with
  | nil => simp at h
  | cons a l ih =>
    obtain ⟨key, value⟩ := a
    rw [List.map_cons, List.nodup_cons] at hn
    cases i with
    | zero => simp
    | succ i =>
      have hi : i < l.length := by simpa using h
      have hne : (l[i].1 == key) = false := by
        rw [beq_eq_false_iff_ne]
        intro e
        exact hn.1 (List.mem_map.mpr ⟨l[i], List.getElem_mem hi, e⟩)
      rw [List.getElem_cons_succ, List.lookup_cons, hne]
      exact ih hn.2 hi

/-- Where a name is in a list, its new name is made of that place. -/
theorem renameBy_numbered (names : List String) (hn : names.Nodup) (h : i < names.length) :
    renameBy (numbered names) names[i] = withoutTrailingDigits names[i] ++ toString i := by
  have hkeys : ((numbered names).map Prod.fst).Nodup := by
    have : (numbered names).map Prod.fst = names := by
      simp [numbered, Function.comp_def, List.zipIdx_map_fst]
    rwa [this]
  have hi : i < (numbered names).length := by simpa [numbered] using h
  have hget : (numbered names)[i] =
      (names[i], withoutTrailingDigits names[i] ++ toString i) := by
    simp [numbered]
  have hlookup := lookup_getElem hkeys hi
  rw [hget] at hlookup
  simp [renameBy, hlookup]

theorem withoutTrailingDigits_renameBy (names : List String) (hn : names.Nodup)
    (h : name ∈ names) :
    withoutTrailingDigits (renameBy (numbered names) name) = withoutTrailingDigits name := by
  obtain ⟨i, hi, rfl⟩ := List.mem_iff_getElem.mp h
  rw [renameBy_numbered names hn hi, Text.withoutTrailingDigits_append]

theorem renameBy_injective (names : List String) (hn : names.Nodup) (ha : a ∈ names)
    (hb : b ∈ names) (h : renameBy (numbered names) a = renameBy (numbered names) b) : a = b := by
  have hbase : withoutTrailingDigits a = withoutTrailingDigits b := by
    rw [← withoutTrailingDigits_renameBy names hn ha, h, withoutTrailingDigits_renameBy names hn hb]
  obtain ⟨i, hi, rfl⟩ := List.mem_iff_getElem.mp ha
  obtain ⟨j, hj, rfl⟩ := List.mem_iff_getElem.mp hb
  rw [renameBy_numbered names hn hi, renameBy_numbered names hn hj, hbase] at h
  have hrepr : Nat.repr i = Nat.repr j := by
    rw [← String.toList_inj] at h ⊢
    rw [String.toList_append, String.toList_append, List.append_cancel_left_eq] at h
    exact h
  simp [Nat.repr_injective hrepr]

/-- Numbering follows a renaming that keeps different names apart. -/
theorem eraseDups_map [BEq α] [LawfulBEq α] [BEq β] [LawfulBEq β] {f : α → β} (l : List α)
    (h : ∀ a ∈ l, ∀ b ∈ l, f a = f b → a = b) : (l.map f).eraseDups = l.eraseDups.map f := by
  match l with
  | [] => rfl
  | a :: l =>
    have hlen : (l.filter fun b => !b == a).length < (a :: l).length :=
      Nat.lt_succ_of_le (List.length_filter_le _ _)
    have hf : (l.map f).filter (fun b => !b == f a) = (l.filter fun b => !b == a).map f := by
      rw [List.filter_map]
      congr 1
      apply List.filter_congr
      intro b hb
      by_cases hba : b = a
      · simp [hba]
      · have hne : f b ≠ f a := fun e => hba (h b (by simp [hb]) a (by simp) e)
        simp only [Function.comp_apply, beq_eq_false_iff_ne.mpr hne, beq_eq_false_iff_ne.mpr hba]
    rw [List.map_cons, List.eraseDups_cons, List.eraseDups_cons, List.map_cons, hf]
    rw [eraseDups_map]
    intro b hb c hc
    exact h b (by simp [(List.mem_filter.mp hb).1]) c (by simp [(List.mem_filter.mp hc).1])
termination_by l.length
decreasing_by exact hlen

theorem renameBy_map (names : List String) (hn : names.Nodup) {f : String → String}
    (hf : ∀ a ∈ names, ∀ b ∈ names, f a = f b → a = b)
    (hbase : withoutTrailingDigits (f name) = withoutTrailingDigits name) (h : name ∈ names) :
    renameBy (numbered (names.map f)) (f name) = renameBy (numbered names) name := by
  have hm : (names.map f).Nodup := by
    rw [List.Nodup, List.pairwise_map]
    exact hn.imp_of_mem fun ha hb hne e => hne (hf _ ha _ hb e)
  obtain ⟨i, hi, rfl⟩ := List.mem_iff_getElem.mp h
  rw [renameBy_numbered names hn hi, ← hbase]
  have hi' : i < (names.map f).length := by simpa using hi
  have := renameBy_numbered (names.map f) hm hi'
  simpa using this

end Program
end Qua
