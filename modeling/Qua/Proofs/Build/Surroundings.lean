import Qua.Proofs.Build.Discipline
import Qua.Proofs.Build.Inventory

/-!
# Blocks in any surroundings

What a step does to a block does not depend on what is around it. In some surroundings it does what it
does in a block of an empty program: the paths that are handed on begin with that of the block, the
scopes have other numbers, and the statements are the same. It fails in both or in none.
-/

namespace Qua

/-- The scope, if the program that it belongs to is the block at a path. -/
def Scope.under (outer : Path) : Scope → Scope
  | .body path => .body (outer ++ path)
  | .loop block index => .loop (outer ++ block) index
  | .switch block value isUnsafe index => .switch (outer ++ block) value isUnsafe index
  | scope => scope

theorem Scope.isProgram_under (outer : Path) (scope : Scope) :
    (scope.under outer).isProgram = scope.isProgram := by
  cases scope <;> rfl

theorem Edit.atPath_append (outer path : Path) (change : Edit (List Statement) α) :
    atPath (outer ++ path) change = atPath outer (atPath path change) := by
  induction outer with
  | nil => rfl
  | cons step outer ih => rw [List.cons_append, atPath, atPath, ih]

/-- Where a block is built: the hole that it fills, the number of its scope, and the scopes around it. -/
structure Surroundings where
  context : Context
  number : Nat
  outer : List Frame

namespace Surroundings

/-- The number of a scope that has another one in an empty program, where the block has number one. -/
def renumber (F : Surroundings) (id : Nat) : Nat := F.number + (id - 1)

def frame (F : Surroundings) (frame : Frame) : Frame :=
  ⟨F.renumber frame.id, frame.scope.under F.context.path⟩

/-- The second draft is in the surroundings what the first one is in an empty program. Inside the block
the scopes with the given numbers are open. -/
structure Within (F : Surroundings) (opened : List Nat) (x y : Draft) : Prop where
  inventory : x.inventory = y.inventory
  body : y.program.body = F.context.plug x.program.body
  scopes : ∃ frames : List Frame, frames.map Frame.id = opened ++ [1] ∧
    (∀ frame ∈ frames, frame.scope.isProgram = false) ∧
    x.scopes = frames ++ [⟨0, .program⟩] ∧ y.scopes = frames.map F.frame ++ F.outer
  started : 0 < x.nextScope
  nextScope : y.nextScope = F.renumber x.nextScope

namespace Within

variable {F : Surroundings} {opened : List Nat} {x y x' y' : Draft}

theorem located (h : F.Within opened x y) (l : String) :
    F.Within opened { x with location := l } { y with location := l } :=
  ⟨h.inventory, h.body, h.scopes, h.started, h.nextScope⟩

theorem of_site (h : F.Within opened x y) (hx : x'.site = x.site) (hy : y'.site = y.site)
    (hi : x'.inventory = y'.inventory) : F.Within opened x' y' := by
  simp only [Draft.site, Site.mk.injEq] at hx hy
  obtain ⟨hxb, hxs, hxn, -⟩ := hx
  obtain ⟨hyb, hys, hyn, -⟩ := hy
  refine ⟨hi, ?_, ?_, ?_, ?_⟩
  · rw [hxb, hyb, h.body]
  · rw [hxs, hys]
    exact h.scopes
  · rw [hxn]
    exact h.started
  · rw [hxn, hyn, h.nextScope]

/-- Some scope is open inside, if only that of the block. -/
theorem innermost (h : F.Within opened x y) : ∃ scope, scope.isProgram = false ∧
    x.site.innermost? = some scope ∧ y.site.innermost? = some (scope.under F.context.path) := by
  obtain ⟨frames, hids, hprogram, hx, hy⟩ := h.scopes
  cases frames with
  | nil => simp at hids
  | cons frame frames =>
    refine ⟨frame.scope, hprogram frame List.mem_cons_self, ?_, ?_⟩
    · simp [Site.innermost?, Draft.site, hx]
    · simp [Site.innermost?, Draft.site, hy, Surroundings.frame]

/-- The scope that was opened last is closed. -/
theorem closeScope {number : Nat} (h : F.Within (number :: opened) x y) :
    ∃ x' y', Build.closeScope number x = .ok ((), x') ∧
      Build.closeScope (F.renumber number) y = .ok ((), y') ∧ F.Within opened x' y' := by
  obtain ⟨frames, hids, hprogram, hx, hy⟩ := h.scopes
  cases frames with
  | nil => simp at hids
  | cons frame frames =>
    obtain ⟨rfl, hrest⟩ := List.cons.inj hids
    obtain ⟨hframe, hprogram⟩ := List.forall_mem_cons.mp hprogram
    have hunder := (frame.scope.isProgram_under F.context.path).trans hframe
    refine ⟨_, _, Build.closeScope_run x (s := x.site) hx hframe,
      Build.closeScope_run y (s := y.site) hy hunder, h.inventory, h.body, ?_, h.started, h.nextScope⟩
    exact ⟨frames, hrest, hprogram, rfl, rfl⟩

end Within

-- ---------------------------------------------------------------------------
-- Steps
-- ---------------------------------------------------------------------------

/-- The second step does in the surroundings what the first one does in an empty program: it fails if
that does, and otherwise the results are related. `after` tells which scopes are open then. -/
def Follows (F : Surroundings) (after : α → List Nat → List Nat) (S : α → β → Prop) (m : Build α)
    (m' : Build β) : Prop :=
  ∀ ⦃opened : List Nat⦄ ⦃x y : Draft⦄, F.Within opened x y → x.location = y.location →
    (∃ a x' b y', m x = .ok (a, x') ∧ m' y = .ok (b, y') ∧ S a b ∧ F.Within (after a opened) x' y' ∧
      x'.location = y'.location) ∨
    (∃ e, m x = .error e) ∧ ∃ e, m' y = .error e

/-- The step opens no scope, and related results come of it. -/
abbrev Keeps (F : Surroundings) (S : α → β → Prop) : Build α → Build β → Prop :=
  F.Follows (fun _ opened => opened) S

/-- The step opens a scope, and gives its number. -/
abbrev Enters (F : Surroundings) : Build Nat → Build Nat → Prop :=
  F.Follows List.cons fun a b => b = F.renumber a

section

variable {F : Surroundings} {α β γ δ : Type} {after : γ → List Nat → List Nat} {S : α → β → Prop}
  {T : γ → δ → Prop}

theorem Follows.pure {a : α} {b : β} (h : S a b) : F.Keeps S (Pure.pure a) (Pure.pure b) :=
  fun _ x y hw hl => .inl ⟨a, x, b, y, rfl, rfl, h, hw, hl⟩

theorem Follows.throw (e e' : BuildError) :
    F.Follows after T (MonadExcept.throw e) (MonadExcept.throw e') :=
  fun _ _ _ _ _ => .inr ⟨⟨e, rfl⟩, e', rfl⟩

theorem Follows.bind {m : Build α} {m' : Build β} {f : α → Build γ} {f' : β → Build δ}
    (h : F.Keeps S m m') (hf : ∀ a b, S a b → F.Follows after T (f a) (f' b)) :
    F.Follows after T (m >>= f) (m' >>= f') := by
  intro opened x y hw hl
  obtain ⟨a, x₁, b, y₁, hm, hm', hs, hw₁, hl₁⟩ | ⟨⟨e, hm⟩, e', hm'⟩ := h hw hl
  · rw [bind_run, bind_run, hm, hm']
    exact hf a b hs hw₁ hl₁
  · exact .inr ⟨⟨e, by rw [bind_run, hm]⟩, e', by rw [bind_run, hm']⟩

/-- What does not depend on the site is the same in all surroundings. -/
theorem follows_of_local {m : Build α} (hl : Build.Local m) (hs : Build.Steady m) : F.Keeps Eq m m := by
  intro opened x y hw hloc
  cases hm : m x with
  | ok result =>
    obtain ⟨a, x'⟩ := result
    obtain ⟨y', hm', hi⟩ := hs hw.inventory hm
    have hx := hl.site_eq hm
    have hy := hl.site_eq hm'
    refine .inl ⟨a, x', a, y', rfl, hm', rfl, hw.of_site hx hy hi, ?_⟩
    exact (congrArg Site.location hx).trans (hloc.trans (congrArg Site.location hy).symm)
  | error e =>
    refine .inr ⟨⟨e, rfl⟩, ?_⟩
    cases hm' : m y with
    | error e' => exact ⟨e', rfl⟩
    | ok result =>
      obtain ⟨x', hx, -⟩ := hs hw.inventory.symm hm'
      rw [hm] at hx
      nomatch hx

theorem follows_location {f : String → Build γ} {f' : String → Build δ}
    (h : ∀ l, F.Follows after T (f l) (f' l)) :
    F.Follows after T (do f (← get).location) (do f' (← get).location) := by
  intro opened x y hw hl
  have hrun := h x.location hw hl
  rwa [show f' x.location = f' y.location by rw [hl]] at hrun

theorem follows_innermost {f : Option Scope → Build γ} {f' : Option Scope → Build δ}
    (h : ∀ scope : Scope, scope.isProgram = false →
      F.Follows after T (f (some scope)) (f' (some (scope.under F.context.path)))) :
    F.Follows after T (Build.innermost >>= f) (Build.innermost >>= f') := by
  intro opened x y hw hl
  obtain ⟨scope, hscope, hx, hy⟩ := hw.innermost
  rw [Build.innermost_bind, Build.innermost_bind, hx, hy]
  exact h scope hscope hw hl

theorem follows_bodyPath :
    F.Keeps (fun path path' => path' = F.context.path ++ path) Build.bodyPath Build.bodyPath := by
  refine follows_innermost fun scope hscope => ?_
  cases scope with
  | program => nomatch hscope
  | body path => exact .pure rfl
  | _ => exact .throw _ _

theorem follows_edit (path : Path) (change : Edit (List Statement) α) :
    F.Keeps Eq (Build.edit path change) (Build.edit (F.context.path ++ path) change) := by
  intro opened x y hw hl
  simp only [Build.edit, bind_run, get_run, hw.body, Edit.atPath_append, Context.atPath_plug,
    Edit.within]
  cases Edit.atPath path change x.program.body with
  | error e => exact .inr ⟨⟨e, rfl⟩, e, rfl⟩
  | ok result =>
    obtain ⟨a, body⟩ := result
    exact .inl ⟨a, _, a, _, rfl, rfl, rfl,
      ⟨hw.inventory, rfl, hw.scopes, hw.started, hw.nextScope⟩, hl⟩

theorem follows_openScope {scope : Scope} (hscope : scope.isProgram = false) :
    F.Enters (Build.openScope scope) (Build.openScope (scope.under F.context.path)) := by
  intro opened x y hw hl
  refine .inl ⟨_, _, _, _, rfl, rfl, hw.nextScope, ⟨hw.inventory, hw.body, ?_, Nat.succ_pos _, ?_⟩, hl⟩
  · obtain ⟨frames, hids, hprogram, hx, hy⟩ := hw.scopes
    refine ⟨⟨x.nextScope, scope⟩ :: frames, ?_, List.forall_mem_cons.mpr ⟨hscope, hprogram⟩, ?_, ?_⟩
    · rw [List.map_cons, hids, List.cons_append]
    · simp only [hx, List.cons_append]
    · simp only [hy, List.map_cons, List.cons_append, frame, hw.nextScope]
  · have hn := hw.nextScope
    have hs := hw.started
    simp only [renumber] at hn ⊢
    omega

/-- A block inside the block. -/
theorem follows_openBody (path : Path) (step : Nat × Selector) :
    F.Enters (Build.openScope (.body (path ++ [step])))
      (Build.openScope (.body (F.context.path ++ path ++ [step]))) := by
  rw [List.append_assoc]
  exact follows_openScope rfl

theorem follows_setSwitchIndex (index : Nat) :
    F.Keeps Eq (Build.setSwitchIndex index) (Build.setSwitchIndex index) := by
  intro opened x y hw hl
  refine .inl ⟨(), _, (), _, rfl, rfl, rfl, ?_⟩
  obtain ⟨frames, hids, hprogram, hx, hy⟩ := id hw.scopes
  rcases frames with _ | ⟨⟨id, scope⟩, frames⟩
  · simp at hids
  · simp only [hx, hy, List.cons_append, List.map_cons, frame]
    obtain ⟨hscope, hprogram'⟩ := List.forall_mem_cons.mp hprogram
    cases scope with
    | program => nomatch hscope
    | switch path value isUnsafe old =>
      refine ⟨⟨hw.inventory, hw.body, ?_, hw.started, hw.nextScope⟩, hl⟩
      exact ⟨⟨id, .switch path value isUnsafe (some index)⟩ :: frames, hids,
        List.forall_mem_cons.mpr ⟨rfl, hprogram'⟩, rfl, rfl⟩
    | _ => exact ⟨hw, hl⟩

-- ---------------------------------------------------------------------------
-- Statements
-- ---------------------------------------------------------------------------

theorem follows_append (statement : String → Statement) :
    F.Keeps Eq (Build.append statement) (Build.append statement) :=
  follows_bodyPath.bind fun path _ hpath => by
    subst hpath
    exact follows_location fun l => (follows_edit path (.push (statement l))).bind fun _ _ _ => .pure rfl

theorem follows_openBlock (statement : String → Statement) (selector : Selector) :
    F.Enters (Build.openBlock statement selector) (Build.openBlock statement selector) :=
  follows_bodyPath.bind fun path _ hpath => by
    subst hpath
    refine follows_location fun l => (follows_edit path (.push (statement l))).bind fun index _ h => ?_
    subst h
    exact follows_openBody path (index, selector)

theorem follows_openElif (condition : Expression) :
    F.Enters (Build.openElif condition) (Build.openElif condition) := by
  refine follows_bodyPath.bind fun path _ hpath => ?_
  subst hpath
  refine (follows_edit path (Edit.lastConditional .elifWithoutIf)).bind fun index _ hindex => ?_
  subst hindex
  refine (follows_edit path (.atIndex index (.refuseOtherwise .elifAfterElse))).bind fun _ _ _ => ?_
  refine (follows_edit path (.atIndex index (.addElif condition))).bind fun branch _ hbranch => ?_
  subst hbranch
  exact follows_openBody path (index, .elif branch)

theorem follows_openElse : F.Enters Build.openElse Build.openElse := by
  refine follows_bodyPath.bind fun path _ hpath => ?_
  subst hpath
  refine (follows_edit path (Edit.lastConditional .elseWithoutIf)).bind fun index _ hindex => ?_
  subst hindex
  refine (follows_edit path (Edit.atIndex index (Edit.addOtherwise .duplicateElse))).bind fun _ _ _ => ?_
  exact follows_openBody path (index, .otherwise)

theorem follows_openSwitch (value : Expression) (isUnsafe : Bool) :
    F.Enters (Build.openSwitch value isUnsafe) (Build.openSwitch value isUnsafe) := by
  refine follows_bodyPath.bind fun path _ hpath => ?_
  subst hpath
  exact follows_openScope rfl

theorem follows_openCase (value : Expression) :
    F.Enters (Build.openCase value) (Build.openCase value) := by
  refine follows_innermost fun scope _ => ?_
  cases scope with
  | switch path switched isUnsafe index =>
    cases index with
    | none =>
      dsimp only [Scope.under]
      refine follows_location fun l => (follows_edit path (Edit.push _)).bind fun index _ hindex => ?_
      subst hindex
      exact (follows_setSwitchIndex index).bind fun _ _ _ => follows_openBody path (index, .body)
    | some index =>
      refine (follows_edit path (Edit.atIndex index (Edit.addElif _))).bind fun branch _ hbranch => ?_
      subst hbranch
      exact follows_openBody path (index, .elif branch)
  | _ => exact .throw _ _

theorem follows_openDefault : F.Enters Build.openDefault Build.openDefault := by
  refine follows_innermost fun scope _ => ?_
  cases scope with
  | switch path switched isUnsafe index =>
    cases index with
    | none => exact .throw _ _
    | some index =>
      exact (follows_edit path (Edit.atIndex index (Edit.addOtherwise .duplicateDefault))).bind
        fun _ _ _ => follows_openBody path (index, .otherwise)
  | _ => exact .throw _ _

theorem follows_openLoop : F.Enters Build.openLoop Build.openLoop :=
  follows_bodyPath.bind fun path _ hpath => by
    subst hpath
    refine follows_location fun l => (follows_edit path (Edit.push _)).bind fun index _ hindex => ?_
    subst hindex
    exact follows_openScope rfl

theorem follows_innermostLoop :
    F.Keeps (fun a b => b = (F.context.path ++ a.1, a.2)) Build.innermostLoop Build.innermostLoop := by
  refine follows_innermost fun scope _ => ?_
  cases scope with
  | loop path index => exact .pure rfl
  | _ => exact .throw _ _

theorem follows_openLoopPart (selector : Selector) :
    F.Enters (Build.openLoopPart selector) (Build.openLoopPart selector) := by
  refine follows_innermostLoop.bind fun (path, index) _ h => ?_
  subst h
  exact follows_openBody path (index, selector)

theorem follows_setLoopCondition (condition : Expression) :
    F.Keeps Eq (Build.setLoopCondition condition) (Build.setLoopCondition condition) := by
  refine follows_innermostLoop.bind fun (path, index) _ h => ?_
  subst h
  exact follows_edit path _

/-- Results are saved from the program only, never in a block. -/
theorem follows_openResults : F.Enters Build.openResults Build.openResults := by
  refine follows_innermost fun scope hscope => ?_
  cases scope with
  | program => nomatch hscope
  | _ => exact .throw _ _

end

end Surroundings

open Build Surroundings

-- ---------------------------------------------------------------------------
-- The steps of a session
-- ---------------------------------------------------------------------------

variable {F : Surroundings}

theorem Leaf.follows (leaf : Leaf) : ∀ step ∈ leaf.steps, F.Keeps Eq step step := by
  have hact {m : Build Action} (hl : Local m) (hs : Steady m) :
      ∀ step ∈ [m >>= act], F.Keeps Eq step step :=
    List.forall_mem_singleton.mpr <| (follows_of_local hl hs).bind fun action _ h => by
      subst h
      exact follows_append _
  cases leaf with
  | play pulse element options =>
    rw [Leaf.steps, play_eq]
    exact hact (local_playAction _ _ _) (steady_playAction _ _ _)
  | measure pulse element options =>
    rw [Leaf.steps, measure_eq]
    exact hact (local_measureAction _ _ _) (steady_measureAction _ _ _)
  | waitForTrigger elements pulse trigger target =>
    rw [Leaf.steps, waitForTrigger_eq]
    exact hact (local_triggerAction _ _ _ _) (steady_triggerAction _ _ _ _)
  | assign target value =>
    rw [Leaf.steps, assign_eq]
    exact hact (local_assignAction _ _) (steady_assignAction _ _)
  | save source stream =>
    rw [Leaf.steps, save_eq]
    exact hact (local_saveAction _ _) (steady_saveAction _ _)
  | plain action => exact List.forall_mem_singleton.mpr (follows_append _)
  | resetFrame elements | frameRotation _ elements | frameRotation2pi _ elements =>
    exact List.forall_mem_map.mpr fun _ _ => follows_append _
  | fastFrameRotation cosine sine elements =>
    exact List.forall_mem_cons.mpr
      ⟨follows_of_local (local_modifyMetadata _) (steady_modifyMetadata _),
        List.forall_mem_map.mpr fun _ _ => follows_append _⟩

theorem Opening.follows (opening : Opening) : F.Enters opening.enter opening.enter := by
  cases opening with
  | whileLoop condition => exact follows_openBlock _ _
  | infiniteLoop => exact follows_openBlock _ _
  | strictTiming => exact follows_openBlock _ _
  | counted target init condition update =>
    refine (follows_of_local (local_assignTarget target) (steady_assignTarget target)).bind
      fun target _ h => ?_
    subst h
    exact follows_openBlock _ _
  | forEach targets values =>
    rw [Opening.enter, openForEach_eq]
    refine (follows_of_local (local_iterators targets values) (steady_iterators targets values)).bind
      fun iterators _ h => ?_
    subst h
    exact follows_openBlock _ _

theorem Entry.follows (entry : Entry) : F.Enters entry.step entry.step := by
  cases entry with
  | conditional condition isUnsafe => exact follows_openBlock _ _
  | elif condition => exact follows_openElif condition
  | otherwise => exact follows_openElse
  | switch value isUnsafe => exact follows_openSwitch value isUnsafe
  | case value => exact follows_openCase value
  | default => exact follows_openDefault
  | block opening => exact opening.follows
  | loop => exact follows_openLoop
  | loopPart which => exact follows_openLoopPart _
  | results => exact follows_openResults

theorem Request.follows (asked : Request) : F.Keeps Eq asked.step asked.step :=
  follows_of_local asked.step_local asked.step_steady

end Qua
