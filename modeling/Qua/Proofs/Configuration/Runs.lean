import Qua.Configuration
import Qua.Proofs.Configuration.Equality

/-!
# Runs of a list

A list is cut into runs in one pass that remembers of the run that is going on only whether its last two
items are equal. That is enough: a run of items that differ never ends in an item that is repeated,
since the item would have begun a run of its own (`Run.GoesOn`).
-/

namespace Qua.Configuration.Run

/-- A uniform run stands for its first item, which all others equal. -/
def Faithful (run : Run) : Prop :=
  run.uniform = true → ∃ first rest, run.items = first :: rest ∧ ∀ item ∈ rest, first.same item = true

/-- The run goes on after `previous` with the first items of `rest`. -/
structure GoesOn (run : Run) (previous : Json) (rest : List Json) : Prop where
  last : ∃ before, run.items = before ++ [previous]
  faithful : run.Faithful
  /-- Where two different items stand last, the second is not repeated. -/
  varied : run.uniform = false → run.items = [previous] ∨ rest.head?.any previous.same = false

theorem GoesOn.single (item : Json) (rest : List Json) : GoesOn ⟨[item], false⟩ item rest :=
  ⟨⟨[], rfl⟩, by simp [Faithful], fun _ => .inl rfl⟩

/-- An item that equals the last one makes the run uniform. -/
theorem GoesOn.repeated (h : GoesOn run previous (item :: rest)) (hs : previous.same item = true) :
    GoesOn ⟨run.items ++ [item], true⟩ item rest := by
  refine ⟨⟨run.items, rfl⟩, fun _ => ?_, by simp⟩
  obtain ⟨before, hlast⟩ := h.last
  cases hu : run.uniform with
  | false =>
    obtain hitems | hnone := h.varied hu
    · refine ⟨previous, [item], by simp [hitems], ?_⟩
      rintro x hx
      obtain rfl := List.mem_singleton.mp hx
      exact hs
    · simp [hs] at hnone
  | true =>
    obtain ⟨first, others, hitems, hall⟩ := h.faithful hu
    have hfirst : first.same item = true := by
      cases before with
      | nil =>
        rw [hitems, List.nil_append] at hlast
        obtain ⟨rfl, -⟩ := List.cons.inj hlast
        exact hs
      | cons b before =>
        rw [hitems, List.cons_append] at hlast
        obtain ⟨rfl, hothers⟩ := List.cons.inj hlast
        have hmem : previous ∈ others := by simp [hothers]
        exact Json.same_trans _ _ _ (hall previous hmem) hs
    refine ⟨first, others ++ [item], by simp [hitems], fun x hx => ?_⟩
    obtain hx | hx := List.mem_append.mp hx
    · exact hall x hx
    · obtain rfl := List.mem_singleton.mp hx
      exact hfirst

/-- An item that the next does not equal is added to items that differ. -/
theorem GoesOn.added (run : Run) (hn : rest.head?.any item.same = false) :
    GoesOn ⟨run.items ++ [item], false⟩ item rest :=
  ⟨⟨run.items, rfl⟩, by simp [Faithful], fun _ => .inr hn⟩

/-- Every run of a list stands for its items. -/
theorem split_faithful (rest : List Json) (h : GoesOn run previous rest) :
    ∀ found ∈ split run previous rest, found.Faithful := by
  induction rest generalizing run previous with
  | nil =>
    intro found hfound
    obtain rfl := List.mem_singleton.mp hfound
    exact h.faithful
  | cons item rest ih =>
    rw [split]
    split
    · intro found hfound
      obtain rfl | hfound := List.mem_cons.mp hfound
      · exact h.faithful
      · exact ih (.single item rest) found hfound
    · next hstay =>
      cases hs : previous.same item with
      | true => exact ih (h.repeated hs)
      | false =>
        simp only [hs, Bool.not_false, Bool.true_and, Bool.not_eq_true, Bool.or_eq_false_iff] at hstay
        exact ih (.added run hstay.1)

/-- The runs hold the items of the list in their order. -/
theorem split_items (run : Run) (previous : Json) (rest : List Json) :
    (split run previous rest).flatMap Run.items = run.items ++ rest := by
  induction rest generalizing run previous with
  | nil => simp [split]
  | cons item rest ih =>
    rw [split]
    split
    · rw [List.flatMap_cons, ih]
      rfl
    · rw [ih, List.append_assoc]
      rfl

theorem split_ne_nil (run : Run) (previous : Json) (rest : List Json) :
    split run previous rest ≠ [] := by
  induction rest generalizing run previous with
  | nil => simp [split]
  | cons item rest ih =>
    rw [split]
    split
    · simp
    · exact ih _ _

theorem ofList_faithful (items : List Json) : ∀ run ∈ ofList items, run.Faithful := by
  cases items with
  | nil => simp [ofList]
  | cons first rest => exact split_faithful rest (.single first rest)

theorem ofList_items (items : List Json) : (ofList items).flatMap Run.items = items := by
  cases items with
  | nil => rfl
  | cons first rest => exact split_items _ first rest

theorem ofList_ne_nil {items : List Json} (h : items ≠ []) : ofList items ≠ [] := by
  obtain ⟨first, rest, rfl⟩ := List.exists_cons_of_ne_nil h
  exact split_ne_nil _ first rest

/-- An item that is repeated ends the run of those before it. -/
example : ofList [.integer 1, .integer 2, .integer 2, .integer 3] =
    [⟨[.integer 1], false⟩, ⟨[.integer 2, .integer 2], true⟩, ⟨[.integer 3], false⟩] := rfl

end Qua.Configuration.Run
