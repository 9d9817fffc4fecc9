import Qua.Proofs.Build.Quiet
import Qua.Proofs.Build.Resolution

/-!
# The stack of scopes

The open scopes lie on the program, their numbers grow inwards, and each finds the block or the
statement that it stands for (`Site.Scoped`). Under this condition it can be told of each step whether it
succeeds, and what it does with the scopes: it keeps them, or opens one more (`Build.Settles`).
-/

namespace Qua

open Statement (blockAt?)

/-- The statement at an index of the block that a path leads to. -/
def Statement.statementAt? (path : Path) (index : Nat) (body : List Statement) : Option Statement :=
  (blockAt? path body).bind fun block => block[index]?

open Statement (statementAt?)

theorem Statement.blockAt?_append (path inner : Path) (body : List Statement) :
    blockAt? (path ++ inner) body = (blockAt? path body).bind (blockAt? inner) := by
  induction path generalizing body with
  | nil => rfl
  | cons step path ih =>
    simp only [List.cons_append, blockAt?, Option.bind_assoc]
    congr 1
    funext s
    congr 1
    funext block
    exact ih block

/-- What the scope stands for is there. -/
def Scope.Resolves (body : List Statement) : Scope → Prop
  | .program => True
  | .body path => (blockAt? path body).isSome
  | .loop path index => (statementAt? path index body).map Statement.form = some .loop
  | .switch path _ _ none => (blockAt? path body).isSome
  | .switch path _ _ (some index) =>
    (statementAt? path index body).map Statement.form = some .conditional
  | .results => True

theorem Grows.blockAt? (h : Grows body body') (hb : (blockAt? path body).isSome) :
    (Statement.blockAt? path body').isSome := by
  obtain ⟨block, hb⟩ := Option.isSome_iff_exists.mp hb
  obtain ⟨block', hb', -⟩ := h path block hb
  exact Option.isSome_iff_exists.mpr ⟨block', hb'⟩

theorem Grows.form {form : Form} (h : Grows body body')
    (hs : (statementAt? path index body).map Statement.form = some form) :
    (statementAt? path index body').map Statement.form = some form := by
  obtain ⟨s, hf, rfl⟩ := Option.map_eq_some_iff.mp hs
  obtain ⟨block, hb, hs⟩ := Option.bind_eq_some_iff.mp hf
  obtain ⟨block', hb', hi⟩ := h path block hb
  obtain ⟨s', hs', hf⟩ := hi index s hs
  simp [statementAt?, hb', hs', hf]

theorem Scope.Resolves.grows {scope : Scope} {body body' : List Statement} (hs : scope.Resolves body)
    (h : Grows body body') :
    scope.Resolves body' := by
  cases scope with
  | program => trivial
  | body path => exact h.blockAt? hs
  | loop path index => exact h.form hs
  | switch path value isUnsafe index =>
    cases index with
    | none => exact h.blockAt? hs
    | some index => exact h.form hs
  | results => trivial

/-- A block that fills a hole. -/
theorem Scope.resolves_plug (C : Context) (block : List Statement) :
    Scope.Resolves (C.plug block) (.body C.path) :=
  Option.isSome_of_eq_some (blockAt?_plug C block)

/-- A block of a statement. -/
theorem Scope.resolves_block {path : Path} {index : Nat} {body : List Statement}
    (hs : statementAt? path index body = some s) (hb : (s.block? selector).isSome) :
    Scope.Resolves body (.body (path ++ [(index, selector)])) := by
  obtain ⟨block, hp, hi⟩ := Option.bind_eq_some_iff.mp hs
  obtain ⟨inner, hb⟩ := Option.isSome_iff_exists.mp hb
  have hr : blockAt? (path ++ [(index, selector)]) body = some inner := by
    rw [Statement.blockAt?_append, hp, Option.bind_some, Statement.blockAt?, hi, Option.bind_some, hb]
    rfl
  exact Option.isSome_of_eq_some hr

theorem Statement.statementAt?_plug (C : Context) (block : List Statement) (index : Nat) :
    statementAt? C.path index (C.plug block) = block[index]? := by
  rw [statementAt?, blockAt?_plug, Option.bind_some]

namespace Site

/-- The innermost scope. -/
def innermost? (s : Site) : Option Scope := s.scopes.head?.map Frame.scope

/-- The path of the innermost block, if the innermost scope is one. -/
def blockPath? (s : Site) : Option Path := s.scopes.head?.bind (·.scope.blockPath?)

/-- The scopes lie on the program, their numbers grow inwards, and all of them resolve. -/
structure Scoped (s : Site) : Prop where
  bottom : ∃ inner, s.scopes = inner ++ [⟨0, .program⟩] ∧ ∀ frame ∈ inner, frame.scope.isProgram = false
  ordered : (s.scopes.map Frame.id).Pairwise (· > ·)
  fresh : ∀ frame ∈ s.scopes, frame.id < s.nextScope
  resolved : ∀ frame ∈ s.scopes, frame.scope.Resolves s.body

/-- What tells a frame from the others. -/
def key (frame : Frame) : Nat × Bool := (frame.id, frame.scope.isProgram)

/-- The same scopes are open, and they resolve if they did before. -/
structure Keeps (s t : Site) : Prop where
  keys : t.scopes.map key = s.scopes.map key
  nextScope : t.nextScope = s.nextScope
  resolved : s.Scoped → ∀ frame ∈ t.scopes, frame.scope.Resolves t.body

/-- One more scope is open, with the next number. -/
def Opens (number : Nat) (s t : Site) : Prop :=
  ∃ between scope, s.Keeps between ∧ number = s.nextScope ∧ scope.isProgram = false ∧
    scope.Resolves between.body ∧ t = between.opened scope

/-- A scope has been closed, which was the innermost one. -/
structure Closes (number : Nat) (s t : Site) : Prop where
  scopes : ∃ scope, scope.isProgram = false ∧ s.scopes = ⟨number, scope⟩ :: t.scopes
  nextScope : t.nextScope = s.nextScope
  body : t.body = s.body

theorem Keeps.of_grows {s t : Site} (hs : t.scopes = s.scopes) (hn : t.nextScope = s.nextScope)
    (h : Grows s.body t.body) : s.Keeps t where
  keys := by rw [hs]
  nextScope := hn
  resolved hw frame hf := (hw.resolved frame (hs ▸ hf)).grows h

theorem Keeps.scoped {s t : Site} (h : s.Keeps t) (hs : s.Scoped) : t.Scoped where
  bottom := by
    obtain ⟨inner, hi, hp⟩ := hs.bottom
    have hk := h.keys
    rw [hi, List.map_append, List.map_singleton] at hk
    obtain ⟨inner', last, ht, hi', hl⟩ := List.map_eq_append_iff.mp hk
    obtain ⟨⟨id, scope⟩, rfl, he⟩ := List.map_eq_singleton_iff.mp hl
    obtain ⟨rfl, he⟩ := Prod.mk.inj (he : (id, scope.isProgram) = (0, true))
    obtain rfl : scope = .program := by cases scope <;> first | rfl | nomatch he
    refine ⟨inner', ht, fun frame hf => ?_⟩
    obtain ⟨frame', hf', he⟩ := List.mem_map.mp (hi' ▸ List.mem_map_of_mem hf : key frame ∈ inner.map key)
    exact (Prod.mk.inj he).2 ▸ hp frame' hf'
  ordered := by
    have hk : t.scopes.map Frame.id = s.scopes.map Frame.id := by
      have hk := congrArg (List.map Prod.fst) h.keys
      rwa [List.map_map, List.map_map] at hk
    exact hk ▸ hs.ordered
  fresh frame hf := by
    obtain ⟨frame', hf', he⟩ := List.mem_map.mp (h.keys ▸ List.mem_map_of_mem hf : key frame ∈ s.scopes.map key)
    rw [h.nextScope, ← (Prod.mk.inj he).1]
    exact hs.fresh frame' hf'
  resolved := h.resolved hs

theorem Opens.scoped {s t : Site} (h : Opens number s t) (hs : s.Scoped) : t.Scoped := by
  obtain ⟨between, scope, hk, -, hp, hr, rfl⟩ := h
  have hw := hk.scoped hs
  obtain ⟨inner, hi, hq⟩ := hw.bottom
  refine ⟨⟨⟨between.nextScope, scope⟩ :: inner, ?_, ?_⟩, ?_, ?_, ?_⟩
  · rw [opened, hi, List.cons_append]
  · exact List.forall_mem_cons.mpr ⟨hp, hq⟩
  · rw [opened, List.map_cons, List.pairwise_cons]
    refine ⟨fun id hid => ?_, hw.ordered⟩
    obtain ⟨frame, hf, rfl⟩ := List.mem_map.mp hid
    exact hw.fresh frame hf
  · refine List.forall_mem_cons.mpr ⟨Nat.lt_succ_self _, fun frame hf => ?_⟩
    exact Nat.lt_succ_of_lt (hw.fresh frame hf)
  · exact List.forall_mem_cons.mpr ⟨hr, hw.resolved⟩

theorem Closes.scoped {s t : Site} (h : Closes number s t) (hs : s.Scoped) : t.Scoped := by
  obtain ⟨⟨scope, hp, hc⟩, hn, hb⟩ := h
  have hmem : ∀ frame ∈ t.scopes, frame ∈ s.scopes := fun frame hf =>
    hc ▸ List.mem_cons_of_mem _ hf
  refine ⟨?_, ?_, fun frame hf => hn ▸ hs.fresh frame (hmem frame hf),
    fun frame hf => hb ▸ hs.resolved frame (hmem frame hf)⟩
  · obtain ⟨inner, hi, hq⟩ := hs.bottom
    rw [hc] at hi
    cases inner with
    | nil =>
      obtain ⟨⟨rfl, rfl⟩, -⟩ : (number = 0 ∧ scope = .program) ∧ t.scopes = [] := by simpa using hi
      nomatch hp
    | cons frame inner =>
      rw [List.cons_append, List.cons.injEq] at hi
      exact ⟨inner, hi.2, (List.forall_mem_cons.mp hq).2⟩
  · have ho := hs.ordered
    rw [hc, List.map_cons, List.pairwise_cons] at ho
    exact ho.2

end Site
end Qua
