import Qua.Proofs.Build.Context

/-!
# Paths into a growing program

A path leads to a block (`blockAt?`). Steps of a build only add to a program: statements at the ends of
blocks, branches at the ends of conditionals, blocks where there were none. What a path leads to is
then still there, and a statement that an index finds has kept its form (`Grows`).
-/

namespace Qua

/-- The constructor of a statement. -/
inductive Form
  | action
  | conditional
  | loop
  | forEach
  | strictTiming
  deriving DecidableEq

namespace Statement

def form : Statement → Form
  | .action .. => .action
  | .conditional .. => .conditional
  | .loop .. => .loop
  | .forEach .. => .forEach
  | .strictTiming .. => .strictTiming

/-- The block of a statement that a selector names. -/
def block? (selector : Selector) : Statement → Option (List Statement)
  | .action .. => none
  | .conditional _ _ body elifs otherwise _ =>
    match selector with
    | .body => some body
    | .elif index => elifs[index]?.map Branch.body
    | .otherwise => otherwise
    | _ => none
  | .loop init _ update body _ =>
    match selector with
    | .body => some body
    | .init => some init
    | .update => some update
    | _ => none
  | .forEach _ body _ => if selector = .body then some body else none
  | .strictTiming body _ => if selector = .body then some body else none

/-- The block that a path leads to. -/
def blockAt? : Path → List Statement → Option (List Statement)
  | [], block => some block
  | (index, selector) :: path, block =>
    (block[index]?.bind (block? selector)).bind (blockAt? path)

end Statement

open Statement (blockAt?)

-- ---------------------------------------------------------------------------
-- Paths and contexts
-- ---------------------------------------------------------------------------

theorem Hole.block?_fill (hole : Hole) (block : List Statement) :
    (hole.fill block).block? hole.selector = some block := by
  cases hole with
  | branch c u body before taken m after otherwise l =>
    simp [Hole.fill, Hole.selector, Statement.block?]
  | _ => rfl

/-- Every block of a statement is the filling of a hole. -/
theorem exists_hole {s : Statement} (h : s.block? selector = some block) :
    ∃ hole : Hole, hole.selector = selector ∧ hole.fill block = s := by
  cases s with
  | action a l => simp [Statement.block?] at h
  | conditional c u body elifs otherwise l =>
    cases selector with
    | body => exact ⟨.conditional c u elifs otherwise l, rfl, by simp_all [Statement.block?, Hole.fill]⟩
    | elif index =>
      obtain ⟨branch, hb, rfl⟩ : ∃ branch, elifs[index]? = some branch ∧ branch.body = block := by
        simpa [Statement.block?] using h
      obtain ⟨hi, rfl⟩ := List.getElem?_eq_some_iff.mp hb
      refine ⟨.branch c u body (elifs.take index) elifs[index].condition elifs[index].location
        (elifs.drop (index + 1)) otherwise l, ?_, ?_⟩
      · simp [Hole.selector, Nat.min_eq_left (Nat.le_of_lt hi)]
      · simp only [Hole.fill]
        rw [List.getElem_cons_drop hi, List.take_append_drop]
    | otherwise => exact ⟨.alternative c u body elifs l, rfl, by simp_all [Statement.block?, Hole.fill]⟩
    | init => simp [Statement.block?] at h
    | update => simp [Statement.block?] at h
  | loop init c update body l =>
    cases selector with
    | body => exact ⟨.loop init c update l, rfl, by simp_all [Statement.block?, Hole.fill]⟩
    | init => exact ⟨.init c update body l, rfl, by simp_all [Statement.block?, Hole.fill]⟩
    | update => exact ⟨.update init c body l, rfl, by simp_all [Statement.block?, Hole.fill]⟩
    | elif index => simp [Statement.block?] at h
    | otherwise => simp [Statement.block?] at h
  | forEach iterators body l =>
    obtain ⟨rfl, rfl⟩ : selector = .body ∧ body = block := by simpa [Statement.block?] using h
    exact ⟨.forEach iterators l, rfl, rfl⟩
  | strictTiming body l =>
    obtain ⟨rfl, rfl⟩ : selector = .body ∧ body = block := by simpa [Statement.block?] using h
    exact ⟨.strictTiming l, rfl, rfl⟩

/-- A path leads to a block exactly if the block fills the hole of a context with that path. -/
theorem blockAt?_eq_some_iff {path : Path} {body block : List Statement} :
    blockAt? path body = some block ↔ ∃ C : Context, C.path = path ∧ C.plug block = body := by
  constructor
  · intro h
    induction path generalizing body with
    | nil =>
      obtain rfl : body = block := by simpa [blockAt?] using h
      exact ⟨[], rfl, rfl⟩
    | cons step path ih =>
      obtain ⟨index, selector⟩ := step
      simp only [blockAt?, Option.bind_eq_some_iff] at h
      obtain ⟨inner, ⟨s, hs, hb⟩, hr⟩ := h
      obtain ⟨C, rfl, rfl⟩ := ih hr
      obtain ⟨hole, rfl, rfl⟩ := exists_hole hb
      obtain ⟨hi, hs⟩ := List.getElem?_eq_some_iff.mp hs
      refine ⟨⟨body.take index, hole, body.drop (index + 1)⟩ :: C, ?_, ?_⟩
      · simp [Context.path, Nat.min_eq_left (Nat.le_of_lt hi)]
      · simp only [Context.plug]
        rw [← hs, List.getElem_cons_drop hi, List.take_append_drop]
  · rintro ⟨C, rfl, rfl⟩
    induction C with
    | nil => rfl
    | cons level inner ih =>
      simp only [Context.path, List.map_cons, blockAt?, Context.plug]
      rw [List.getElem?_append_right (Nat.le_refl _), Nat.sub_self, List.getElem?_cons_zero,
        Option.bind_some, Hole.block?_fill]
      exact ih

theorem blockAt?_plug (C : Context) (block : List Statement) :
    blockAt? C.path (C.plug block) = some block :=
  blockAt?_eq_some_iff.mpr ⟨C, rfl, rfl⟩

-- ---------------------------------------------------------------------------
-- Growth
-- ---------------------------------------------------------------------------

/-- Every path leads on, and every index finds a statement of the form it found before. -/
def Grows (body body' : List Statement) : Prop :=
  ∀ path block, blockAt? path body = some block → ∃ block', blockAt? path body' = some block' ∧
    ∀ (index : Nat) (s : Statement), block[index]? = some s →
      ∃ s' : Statement, block'[index]? = some s' ∧ s'.form = s.form

/-- The statement keeps its form, and its blocks grow. -/
structure Statement.Grows (s s' : Statement) : Prop where
  form : s'.form = s.form
  blocks : ∀ selector block, s.block? selector = some block →
    ∃ block', s'.block? selector = some block' ∧ Qua.Grows block block'

theorem Grows.refl (body : List Statement) : Grows body body :=
  fun _ block h => ⟨block, h, fun _ s hs => ⟨s, hs, rfl⟩⟩

theorem Grows.trans (h : Grows body body') (h' : Grows body' body'') : Grows body body'' := by
  intro path block hb
  obtain ⟨block', hb', hs⟩ := h path block hb
  obtain ⟨block'', hb'', hs'⟩ := h' path block' hb'
  refine ⟨block'', hb'', fun index s hi => ?_⟩
  obtain ⟨s', hi', hf⟩ := hs index s hi
  obtain ⟨s'', hi'', hf'⟩ := hs' index s' hi'
  exact ⟨s'', hi'', hf'.trans hf⟩

theorem Statement.Grows.refl (s : Statement) : Statement.Grows s s :=
  ⟨rfl, fun _ block h => ⟨block, h, .refl block⟩⟩

/-- A block grows if each of its statements does and others come after them. -/
theorem Grows.of_items {block block' : List Statement}
    (h : ∀ (index : Nat) (s : Statement), block[index]? = some s →
      ∃ s', block'[index]? = some s' ∧ s.Grows s') :
    Grows block block' := by
  intro path inner hp
  cases path with
  | nil =>
    obtain rfl : block = inner := by simpa [blockAt?] using hp
    refine ⟨block', rfl, fun index s hs => ?_⟩
    obtain ⟨s', hs', hg⟩ := h index s hs
    exact ⟨s', hs', hg.form⟩
  | cons step path =>
    obtain ⟨index, selector⟩ := step
    simp only [blockAt?, Option.bind_eq_some_iff] at hp
    obtain ⟨entered, ⟨s, hs, hb⟩, hr⟩ := hp
    obtain ⟨s', hs', hg⟩ := h index s hs
    obtain ⟨entered', hb', he⟩ := hg.blocks selector entered hb
    obtain ⟨inner', hi', hf⟩ := he path inner hr
    refine ⟨inner', ?_, hf⟩
    simp only [blockAt?, hs', Option.bind_some, hb', hi']

theorem Grows.append (block more : List Statement) : Grows block (block ++ more) := by
  refine .of_items fun index s hs => ⟨s, ?_, .refl s⟩
  rw [List.getElem?_append_left (List.getElem?_eq_some_iff.mp hs).1]
  exact hs

theorem Grows.item (before : List Statement) (h : Statement.Grows s s') (after : List Statement) :
    Grows (before ++ s :: after) (before ++ s' :: after) := by
  refine .of_items fun index t ht => ?_
  by_cases hi : index = before.length
  · subst hi
    obtain rfl : s = t := by simpa using ht
    exact ⟨s', by simp, h⟩
  · refine ⟨t, ?_, .refl t⟩
    rw [← ht]
    by_cases hl : index < before.length
    · rw [List.getElem?_append_left hl, List.getElem?_append_left hl]
    · obtain ⟨k, hk⟩ : ∃ k, index - before.length = k + 1 := ⟨index - before.length - 1, by omega⟩
      rw [List.getElem?_append_right (by omega), List.getElem?_append_right (by omega), hk]
      rfl

/-- A block grows with one of its statements. -/
theorem Grows.set {block : List Statement} (hs : block[index]? = some s) (h : Statement.Grows s s') :
    Grows block (block.set index s') := by
  obtain ⟨hi, rfl⟩ := List.getElem?_eq_some_iff.mp hs
  have hg := Grows.item (block.take index) h (block.drop (index + 1))
  rw [List.getElem_cons_drop hi, List.take_append_drop] at hg
  rwa [List.set_eq_take_append_cons_drop, if_pos hi]

/-- A statement grows with one of its blocks. -/
theorem Hole.grows_fill (hole : Hole) (h : Grows block block') :
    Statement.Grows (hole.fill block) (hole.fill block') := by
  refine ⟨by cases hole <;> rfl, fun selector inner hi => ?_⟩
  by_cases hs : selector = hole.selector
  · subst hs
    rw [hole.block?_fill] at hi ⊢
    obtain rfl := Option.some.inj hi
    exact ⟨block', rfl, h⟩
  · refine ⟨inner, ?_, .refl inner⟩
    rw [← hi]
    cases hole with
    | branch c u body before taken m after otherwise l =>
      cases selector with
      | elif index =>
        have hne : index ≠ before.length := fun he => hs (by rw [he]; rfl)
        simp only [Hole.fill, Statement.block?]
        by_cases hl : index < before.length
        · rw [List.getElem?_append_left hl, List.getElem?_append_left hl]
        · obtain ⟨k, hk⟩ : ∃ k, index - before.length = k + 1 :=
            ⟨index - before.length - 1, by omega⟩
          rw [List.getElem?_append_right (by omega), List.getElem?_append_right (by omega), hk]
          rfl
      | _ => rfl
    | _ => cases selector <;> first | rfl | exact absurd rfl hs

/-- The program grows with the block that fills a hole of it. -/
theorem Grows.plug (C : Context) (h : Grows block block') : Grows (C.plug block) (C.plug block') := by
  induction C with
  | nil => exact h
  | cons level inner ih => exact .item level.before (level.hole.grows_fill ih) level.after

-- ---------------------------------------------------------------------------
-- Edits
-- ---------------------------------------------------------------------------

namespace Edit

theorem grows_addElif {s s' : Statement} (h : addElif condition s = .ok (index, s')) : s.Grows s' := by
  cases s with
  | conditional c u body elifs otherwise l =>
    obtain ⟨-, rfl⟩ := Prod.mk.inj (Except.ok.inj h)
    refine ⟨rfl, fun selector block hb => ⟨block, ?_, .refl block⟩⟩
    cases selector with
    | elif i =>
      obtain ⟨branch, hi, rfl⟩ : ∃ branch, elifs[i]? = some branch ∧ branch.body = block := by
        simpa [Statement.block?] using hb
      simp [Statement.block?, List.getElem?_append_left (List.getElem?_eq_some_iff.mp hi).1, hi]
    | _ => exact hb
  | _ => simp [addElif] at h

theorem grows_addOtherwise {s s' : Statement} (h : addOtherwise duplicate s = .ok (u, s')) :
    s.Grows s' := by
  cases s with
  | conditional c u body elifs otherwise l =>
    cases otherwise with
    | none =>
      obtain ⟨-, rfl⟩ := Prod.mk.inj (Except.ok.inj h)
      refine ⟨rfl, fun selector block hb => ⟨block, ?_, .refl block⟩⟩
      cases selector with
      | otherwise => simp [Statement.block?] at hb
      | _ => exact hb
    | some block => simp [addOtherwise] at h
  | _ => simp [addOtherwise] at h

theorem grows_setCondition {s s' : Statement} (h : setCondition condition s = .ok (u, s')) :
    s.Grows s' := by
  cases s with
  | loop init c update body l =>
    obtain ⟨-, rfl⟩ := Prod.mk.inj (Except.ok.inj h)
    refine ⟨rfl, fun selector block hb => ⟨block, ?_, .refl block⟩⟩
    cases selector <;> exact hb
  | _ => simp [setCondition] at h

/-- An edit of a statement of a block. -/
theorem atIndex_run {block : List Statement} (hs : block[index]? = some s) (edit : Edit Statement α) :
    atIndex index edit block = match edit s with
      | .ok (a, s') => .ok (a, block.set index s')
      | .error e => .error e := by
  simp only [atIndex, hs]
  cases edit s with
  | error e => rfl
  | ok result => rfl

end Edit
end Qua
