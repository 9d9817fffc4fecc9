import Qua.Proofs.Build.Quiet
import Qua.Proofs.Build.Refinement
import Qua.Proofs.Renaming

/-!
# Locations

No step of a build looks at the locations of the statements that are there already, or at the location
that new ones are given. On drafts that differ in locations only, a step does the same, up to locations.
-/

namespace Qua

-- ---------------------------------------------------------------------------
-- Runs on states that are alike
-- ---------------------------------------------------------------------------

variable {σ τ ε α β : Type}

/-- On related states, the second step does what the first one does, and leaves related states. -/
def Simulates (R : σ → σ → Prop) (m m' : StateT σ (Except ε) α) : Prop :=
  ∀ ⦃x y : σ⦄, R x y → ∀ ⦃a : α⦄ ⦃x' : σ⦄, m x = .ok (a, x') → ∃ y', m' y = .ok (a, y') ∧ R x' y'

namespace Simulates

variable {R : σ → σ → Prop} {m m' : StateT σ (Except ε) α}

theorem pure (a : α) : Simulates R (Pure.pure a : StateT σ (Except ε) α) (Pure.pure a) := by
  rintro x y hxy _ _ ⟨⟩
  exact ⟨y, rfl, hxy⟩

theorem throw (error : ε) (m : StateT σ (Except ε) α) : Simulates R (MonadExcept.throw error) m := by
  rintro _ _ _ _ _ ⟨⟩

/-- Only what the first step gives matters. -/
theorem bind_gives {P : α → Prop} {f f' : α → StateT σ (Except ε) β} (h : Simulates R m m')
    (hm : Gives P m) (hf : ∀ a, P a → Simulates R (f a) (f' a)) : Simulates R (m >>= f) (m' >>= f') := by
  intro x y hxy b x' hb
  obtain ⟨a, mid, ha, hb⟩ := bind_eq_ok.mp hb
  obtain ⟨mid', ha', hmid⟩ := h hxy ha
  obtain ⟨y', hb', hy⟩ := hf a (hm ha) hmid hb
  exact ⟨y', bind_eq_ok.mpr ⟨a, mid', ha', hb'⟩, hy⟩

theorem bind {f f' : α → StateT σ (Except ε) β} (h : Simulates R m m')
    (hf : ∀ a, Simulates R (f a) (f' a)) : Simulates R (m >>= f) (m' >>= f') :=
  h.bind_gives (P := fun _ => True) (fun _ _ _ _ => trivial) fun a _ => hf a

theorem map (f : α → β) (h : Simulates R m m') : Simulates R (f <$> m) (f <$> m') := by
  rw [map_eq_pure_bind, map_eq_pure_bind]
  exact h.bind fun a => .pure (f a)

/-- A step is known from what is made of its result, if that tells the results apart. -/
theorem of_map {f : α → β} (hf : ∀ a b, f a = f b → a = b) (h : Simulates R (f <$> m) (f <$> m')) :
    Simulates R m m' := by
  intro x y hxy a x' ha
  obtain ⟨y', hb, hy⟩ := h hxy (map_eq_ok.mpr ⟨a, rfl, ha⟩)
  obtain ⟨b, he, hb⟩ := map_eq_ok.mp hb
  exact ⟨y', hf b a he ▸ hb, hy⟩

theorem forM {f : α → StateT σ (Except ε) PUnit} {as : List α} (h : ∀ a ∈ as, Simulates R (f a) (f a)) :
    Simulates R (as.forM f) (as.forM f) := by
  induction as with
  | nil => exact .pure _
  | cons a as ih =>
    obtain ⟨ha, has⟩ := List.forall_mem_cons.mp h
    exact ha.bind fun _ => ih has

end Simulates

/-- On states that are the same up to what `erase` forgets, the second step does what the first one does,
up to that. -/
abbrev Alike (erase : σ → τ) (m m' : StateT σ (Except ε) α) : Prop :=
  Simulates (fun x y => erase x = erase y) m m'

-- ---------------------------------------------------------------------------
-- Blank locations
-- ---------------------------------------------------------------------------

/-- The statement with blank locations. -/
def Statement.unlocated (s : Statement) : Statement := s.map id fun _ => ""

/-- The branch with blank locations. -/
def Branch.unlocated (b : Branch Statement) : Branch Statement :=
  ⟨b.condition, b.body.map Statement.unlocated, ""⟩

namespace Statement

theorem mapBranches_eq_map (branches : List (Branch Statement)) :
    mapBranches id (fun _ => "") branches = branches.map Branch.unlocated := by
  induction branches with
  | nil => rfl
  | cons b branches ih =>
    obtain ⟨c, body, l⟩ := b
    rw [mapBranches, ih, mapBlock_eq_map]
    rfl

theorem mapOtherwise_eq_map (otherwise : Option (List Statement)) :
    mapOtherwise id (fun _ => "") otherwise = otherwise.map (List.map unlocated) := by
  cases otherwise with
  | none => rfl
  | some body => exact congrArg some (mapBlock_eq_map _ _ body)

@[simp] theorem unlocated_action (a : Action) (l : String) :
    (action a l).unlocated = action a "" := rfl

@[simp] theorem unlocated_conditional (c : Expression) (u : Bool) (body : List Statement)
    (elifs : List (Branch Statement)) (otherwise : Option (List Statement)) (l : String) :
    (conditional c u body elifs otherwise l).unlocated =
      conditional c u (body.map unlocated) (elifs.map Branch.unlocated)
        (otherwise.map (List.map unlocated)) "" := by
  rw [unlocated, map, mapBlock_eq_map, mapBranches_eq_map, mapOtherwise_eq_map]
  rfl

@[simp] theorem unlocated_loop (init : List Statement) (c : Option Expression)
    (update body : List Statement) (l : String) :
    (loop init c update body l).unlocated =
      loop (init.map unlocated) c (update.map unlocated) (body.map unlocated) "" := by
  rw [unlocated, map, mapBlock_eq_map, mapBlock_eq_map, mapBlock_eq_map]
  rfl

@[simp] theorem unlocated_forEach (iterators : List Iterator) (body : List Statement) (l : String) :
    (forEach iterators body l).unlocated = forEach iterators (body.map unlocated) "" := by
  rw [unlocated, map, mapBlock_eq_map]
  rfl

@[simp] theorem unlocated_strictTiming (body : List Statement) (l : String) :
    (strictTiming body l).unlocated = strictTiming (body.map unlocated) "" := by
  rw [unlocated, map, mapBlock_eq_map]
  rfl

end Statement

/-- The program with blank locations. -/
def Program.unlocated (p : Program) : Program :=
  { p with body := p.body.map Statement.unlocated }

namespace Draft

/-- The draft with blank locations. -/
def unlocated (d : Draft) : Draft :=
  { d with program := d.program.unlocated, location := "" }

/-- The draft with other locations. -/
def relocated (d : Draft) (body : List Statement) (location : String) : Draft :=
  d.moved { d.site with body := body, location := location }

theorem unlocated_relocated {d : Draft}
    (h : d.program.body.map Statement.unlocated = body.map Statement.unlocated) (location : String) :
    d.unlocated = (d.relocated body location).unlocated := by
  simp [unlocated, Program.unlocated, relocated, moved, site, h]

theorem eq_relocated {d e : Draft} (h : d.unlocated = e.unlocated) :
    e = d.relocated e.program.body e.location ∧
      d.program.body.map Statement.unlocated = e.program.body.map Statement.unlocated := by
  obtain ⟨⟨⟩, _⟩ := d
  obtain ⟨⟨⟩, _⟩ := e
  simp_all [unlocated, Program.unlocated, relocated, moved, site]

end Draft

-- ---------------------------------------------------------------------------
-- Edits
-- ---------------------------------------------------------------------------

section

variable {erase : σ → τ} {change change' : Edit σ α}

theorem Alike.atIndex (h : Alike erase change change') (index : Nat) :
    Alike (List.map erase) (Edit.atIndex index change) (Edit.atIndex index change') := by
  intro x y hxy a x' ha
  unfold Edit.atIndex at ha ⊢
  have hget : x[index]?.map erase = y[index]?.map erase := by
    rw [← List.getElem?_map, ← List.getElem?_map, hxy]
  cases hx : x[index]? with
  | none =>
    rw [hx] at ha
    nomatch ha
  | some item =>
    rw [hx] at ha hget
    obtain ⟨item', hy, hitem⟩ := Option.map_eq_some_iff.mp hget.symm
    cases hc : change item with
    | error e =>
      simp only [hc] at ha
      nomatch ha
    | ok result =>
      obtain ⟨b, new⟩ := result
      simp only [hc] at ha
      obtain ⟨rfl, rfl⟩ := Prod.mk.inj (Except.ok.inj ha)
      obtain ⟨new', hc', hnew⟩ := h hitem.symm hc
      refine ⟨y.set index new', by simp [hy, hc'], ?_⟩
      change (x.set index new).map erase = (y.set index new').map erase
      rw [List.map_set, List.map_set, hxy, hnew]

theorem Alike.within {erase' : τ' → υ} {part part' : σ} {whole whole' : σ → τ'} {a : α} {x : τ'}
    (h : Alike erase change change') (hpart : erase part = erase part')
    (hwhole : ∀ x y, erase x = erase y → erase' (whole x) = erase' (whole' y))
    (hw : Edit.within part whole change = .ok (a, x)) :
    ∃ y, Edit.within part' whole' change' = .ok (a, y) ∧ erase' x = erase' y := by
  unfold Edit.within at hw ⊢
  cases hc : change part with
  | error e =>
    rw [hc] at hw
    nomatch hw
  | ok result =>
    rw [hc] at hw
    obtain ⟨rfl, rfl⟩ := Prod.mk.inj (Except.ok.inj hw)
    obtain ⟨new', hc', hnew⟩ := h hpart hc
    exact ⟨whole' new', by rw [hc'], hwhole _ _ hnew⟩

end

section

variable {change change' : Edit (List Statement) α}

theorem Alike.inBranch (h : Alike (List.map Statement.unlocated) change change') :
    Alike Branch.unlocated (Edit.inBranch change) (Edit.inBranch change') := by
  rintro ⟨c, body, l⟩ ⟨c', body', l'⟩ hb a x ha
  simp only [Branch.unlocated, Branch.mk.injEq, and_true] at hb
  obtain ⟨rfl, hbody⟩ := hb
  exact h.within hbody (fun x y hxy => by simp [Branch.unlocated, hxy]) ha

theorem Alike.inBlock (h : Alike (List.map Statement.unlocated) change change') (selector : Selector) :
    Alike Statement.unlocated (Edit.inBlock selector change) (Edit.inBlock selector change') := by
  intro s t hst a s' ha
  unfold Edit.inBlock at ha
  split at ha
  · cases t <;> simp at hst
    obtain ⟨rfl, rfl, hbody, helifs, hotherwise⟩ := hst
    exact h.within hbody (fun x y hxy => by simp [hxy, helifs, hotherwise]) ha
  · cases t <;> simp at hst
    obtain ⟨rfl, rfl, hbody, helifs, hotherwise⟩ := hst
    exact (h.inBranch.atIndex _).within helifs (fun x y hxy => by simp [hxy, hbody, hotherwise]) ha
  · replace hst := hst.symm
    cases t <;> simp at hst
    obtain ⟨rfl, rfl, hbody, helifs, body', rfl, hbody'⟩ := hst
    exact h.within hbody'.symm (fun x y hxy => by simp [hxy, hbody, helifs]) ha
  · cases t <;> simp at hst
    obtain ⟨hinit, rfl, hupdate, hbody⟩ := hst
    exact h.within hbody (fun x y hxy => by simp [hxy, hinit, hupdate]) ha
  · cases t <;> simp at hst
    obtain ⟨hinit, rfl, hupdate, hbody⟩ := hst
    exact h.within hinit (fun x y hxy => by simp [hxy, hbody, hupdate]) ha
  · cases t <;> simp at hst
    obtain ⟨hinit, rfl, hupdate, hbody⟩ := hst
    exact h.within hupdate (fun x y hxy => by simp [hxy, hinit, hbody]) ha
  · cases t <;> simp at hst
    obtain ⟨rfl, hbody⟩ := hst
    exact h.within hbody (fun x y hxy => by simp [hxy]) ha
  · cases t <;> simp at hst
    exact h.within hst (fun x y hxy => by simp [hxy]) ha
  · nomatch ha

/-- The blocks of programs that differ in locations are reached by the same paths. -/
theorem Alike.atPath (h : Alike (List.map Statement.unlocated) change change') (path : Path) :
    Alike (List.map Statement.unlocated) (Edit.atPath path change) (Edit.atPath path change') := by
  induction path with
  | nil => exact h
  | cons step path ih => exact (ih.inBlock step.2).atIndex step.1

end

namespace Edit

theorem alike_push {s t : Statement} (h : s.unlocated = t.unlocated) :
    Alike (List.map Statement.unlocated) (push s) (push t) := by
  intro x y hxy a x' ha
  obtain ⟨rfl, rfl⟩ := Prod.mk.inj (Except.ok.inj ha)
  have hlength : x.length = y.length := by simpa using congrArg List.length hxy
  exact ⟨y ++ [t], by rw [push, hlength], by simp [hxy, h]⟩

theorem alike_lastConditional (missing : BuildError) :
    Alike (List.map Statement.unlocated) (lastConditional missing) (lastConditional missing) := by
  intro x y hxy a x' ha
  have hlast : x.getLast?.map Statement.unlocated = y.getLast?.map Statement.unlocated := by
    rw [← List.getLast?_map, ← List.getLast?_map, hxy]
  have hlength : x.length = y.length := by simpa using congrArg List.length hxy
  unfold lastConditional at ha ⊢
  split at ha
  · next hx =>
    obtain ⟨rfl, rfl⟩ := Prod.mk.inj (Except.ok.inj ha)
    rw [hx] at hlast
    obtain ⟨t, ht, hst⟩ := Option.map_eq_some_iff.mp hlast.symm
    cases t <;> simp at hst
    exact ⟨y, by rw [ht, hlength], hxy⟩
  · nomatch ha

theorem alike_addElif (condition : Expression) :
    Alike Statement.unlocated (addElif condition) (addElif condition) := by
  intro s t hst a s' ha
  unfold addElif at ha
  split at ha
  · obtain ⟨rfl, rfl⟩ := Prod.mk.inj (Except.ok.inj ha)
    cases t <;> simp at hst
    obtain ⟨rfl, rfl, hbody, helifs, hotherwise⟩ := hst
    have hlength := congrArg List.length helifs
    rw [List.length_map, List.length_map] at hlength
    exact ⟨_, by rw [addElif, hlength], by simp [hbody, helifs, hotherwise, Branch.unlocated]⟩
  · cases ha

theorem alike_addOtherwise (duplicate : BuildError) :
    Alike Statement.unlocated (addOtherwise duplicate) (addOtherwise duplicate) := by
  intro s t hst a s' ha
  unfold addOtherwise at ha
  split at ha
  · split at ha
    · obtain ⟨rfl, rfl⟩ := Prod.mk.inj (Except.ok.inj ha)
      replace hst := hst.symm
      cases t <;> simp at hst
      obtain ⟨rfl, rfl, hbody, helifs, rfl⟩ := hst
      exact ⟨_, rfl, by simp [hbody, helifs]⟩
    · cases ha
  · cases ha

theorem alike_refuseOtherwise (e : BuildError) :
    Alike Statement.unlocated (refuseOtherwise e) (refuseOtherwise e) := by
  intro s t hst a s' ha
  unfold refuseOtherwise at ha
  split at ha
  · split at ha
    · cases ha
    · next hnone =>
      obtain ⟨rfl, rfl⟩ := Prod.mk.inj (Except.ok.inj ha)
      cases t <;> simp at hst
      obtain ⟨rfl, rfl, hbody, helifs, hotherwise⟩ := hst
      have hsome := congrArg Option.isSome hotherwise
      simp only [Option.isSome_map] at hsome
      exact ⟨_, by rw [refuseOtherwise, ← hsome, if_neg hnone], by simp [hbody, helifs, hotherwise]⟩
  · cases ha

theorem alike_setCondition (condition : Expression) :
    Alike Statement.unlocated (setCondition condition) (setCondition condition) := by
  intro s t hst a s' ha
  unfold setCondition at ha
  split at ha
  · obtain ⟨rfl, rfl⟩ := Prod.mk.inj (Except.ok.inj ha)
    cases t <;> simp at hst
    obtain ⟨hinit, rfl, hupdate, hbody⟩ := hst
    exact ⟨_, rfl, by simp [hinit, hupdate, hbody]⟩
  · nomatch ha

end Edit

-- ---------------------------------------------------------------------------
-- Steps
-- ---------------------------------------------------------------------------

namespace Build

/-- The step does not look at locations. -/
abbrev Blind (m : Build α) : Prop := Alike Draft.unlocated m m

/-- A step does the same with other locations if it does so whichever these are. -/
theorem alike_of_relocated {m m' : Build α}
    (h : ∀ (d : Draft) (body : List Statement) (location : String) (a : α) (d' : Draft),
      d.program.body.map Statement.unlocated = body.map Statement.unlocated → m d = .ok (a, d') →
        ∃ e', m' (d.relocated body location) = .ok (a, e') ∧ d'.unlocated = e'.unlocated) :
    Alike Draft.unlocated m m' := by
  intro d e hde a d' ha
  obtain ⟨he, hbody⟩ := Draft.eq_relocated hde
  rw [he]
  exact h d e.program.body e.location a d' hbody ha

/-- What does not depend on the site at all does not depend on locations. -/
theorem Local.blind {m : Build α} (h : Local m) : Blind m := by
  refine alike_of_relocated fun d body location a d' hbody ha => ?_
  have hsite := h.site_eq ha
  refine ⟨d'.relocated body location, ?_, Draft.unlocated_relocated ?_ location⟩
  · rw [Draft.relocated, Draft.relocated, hsite]
    exact h.moved ha _
  · rwa [show d'.program.body = d.program.body from congrArg Site.body hsite]

/-- A step may be given any location. -/
theorem alike_location {f f' : String → Build α} (h : ∀ l l', Alike Draft.unlocated (f l) (f' l')) :
    Alike Draft.unlocated (do f (← get).location) (do f' (← get).location) :=
  fun d e hde _ _ ha => h d.location e.location hde ha

theorem blind_innermost : Blind innermost := by
  refine alike_of_relocated fun d body location a d' hbody ha => ?_
  obtain ⟨rfl, rfl⟩ := Prod.mk.inj (Except.ok.inj ha)
  exact ⟨_, rfl, Draft.unlocated_relocated hbody location⟩

theorem blind_openScope (scope : Scope) : Blind (openScope scope) := by
  refine alike_of_relocated fun d body location a d' hbody ha => ?_
  obtain ⟨rfl, rfl⟩ := Prod.mk.inj (Except.ok.inj ha)
  refine ⟨_, rfl, Draft.unlocated_relocated ?_ location⟩
  exact hbody

theorem blind_closeScope (id : Nat) : Blind (closeScope id) := by
  refine alike_of_relocated fun d body location a d' hbody ha => ?_
  have hscopes : (d.relocated body location).scopes = d.scopes := rfl
  simp only [closeScope, bind_run, get_run, hscopes] at ha ⊢
  cases hs : d.scopes with
  | nil =>
    rw [hs] at ha
    cases ha
  | cons frame outer =>
    simp only [hs] at ha ⊢
    split at ha
    · next hid =>
      obtain ⟨rfl, rfl⟩ := Prod.mk.inj (Except.ok.inj ha)
      rw [if_pos hid]
      refine ⟨_, rfl, Draft.unlocated_relocated ?_ location⟩
      exact hbody
    · cases ha

theorem blind_setSwitchIndex (index : Nat) : Blind (setSwitchIndex index) := by
  refine alike_of_relocated fun d body location a d' hbody ha => ?_
  obtain ⟨rfl, rfl⟩ := Prod.mk.inj (Except.ok.inj ha)
  have hscopes : (d.relocated body location).scopes = d.scopes := rfl
  refine ⟨_, rfl, ?_⟩
  simp only [hscopes]
  split
  · refine Draft.unlocated_relocated ?_ location
    exact hbody
  · exact Draft.unlocated_relocated hbody location

theorem blind_bodyPath : Blind bodyPath := by
  refine blind_innermost.bind fun scope => ?_
  split
  · exact .pure _
  · exact .pure _
  · exact .throw _ _

theorem alike_edit (path : Path) {change change' : Edit (List Statement) α}
    (h : Alike (List.map Statement.unlocated) change change') :
    Alike Draft.unlocated (edit path change) (edit path change') := by
  refine alike_of_relocated fun d body location a d' hbody ha => ?_
  have hrelocated : (d.relocated body location).program.body = body := rfl
  simp only [edit, bind_run, get_run, hrelocated] at ha ⊢
  cases hc : Edit.atPath path change d.program.body with
  | error error =>
    rw [hc] at ha
    cases ha
  | ok result =>
    obtain ⟨b, new⟩ := result
    rw [hc] at ha
    obtain ⟨rfl, rfl⟩ := Prod.mk.inj (Except.ok.inj ha)
    obtain ⟨new', hc', hnew⟩ := h.atPath path hbody hc
    refine ⟨_, by rw [hc']; rfl, ?_⟩
    simpa [Draft.unlocated, Program.unlocated, Draft.relocated, Draft.moved, Draft.site] using hnew

/-- Statements that differ in their location only. -/
def Located (statement : String → Statement) : Prop :=
  ∀ l l', (statement l).unlocated = (statement l').unlocated

theorem alike_push {statement : String → Statement} (h : Located statement) (path : Path)
    (l l' : String) :
    Alike Draft.unlocated (edit path (Edit.push (statement l))) (edit path (Edit.push (statement l'))) :=
  alike_edit path (Edit.alike_push (h l l'))

theorem blind_append {statement : String → Statement} (h : Located statement) :
    Blind (append statement) :=
  blind_bodyPath.bind fun path => alike_location fun l l' => (alike_push h path l l').bind fun _ => .pure _

theorem blind_act (action : Action) : Blind (act action) := blind_append fun _ _ => rfl

theorem blind_openBlock {statement : String → Statement} (h : Located statement) (selector : Selector) :
    Blind (openBlock statement selector) :=
  blind_bodyPath.bind fun path => alike_location fun l l' =>
    (alike_push h path l l').bind fun index => blind_openScope (.body (path ++ [(index, selector)]))

-- ---------------------------------------------------------------------------
-- The steps of a session
-- ---------------------------------------------------------------------------

theorem Leaf.blind (leaf : Leaf) : ∀ step ∈ leaf.steps, Blind step := by
  have hact {m : Build Action} (h : Local m) : ∀ step ∈ [m >>= act], Blind step :=
    List.forall_mem_singleton.mpr (h.blind.bind blind_act)
  cases leaf with
  | play pulse element options =>
    rw [Leaf.steps, play_eq]
    exact hact (local_playAction _ _ _)
  | measure pulse element options =>
    rw [Leaf.steps, measure_eq]
    exact hact (local_measureAction _ _ _)
  | waitForTrigger elements pulse trigger target =>
    rw [Leaf.steps, waitForTrigger_eq]
    exact hact (local_triggerAction _ _ _ _)
  | assign target value =>
    rw [Leaf.steps, assign_eq]
    exact hact (local_assignAction _ _)
  | save source stream =>
    rw [Leaf.steps, save_eq]
    exact hact (local_saveAction _ _)
  | plain action => exact List.forall_mem_singleton.mpr (blind_act _)
  | resetFrame elements | frameRotation _ elements | frameRotation2pi _ elements =>
    exact List.forall_mem_map.mpr fun _ _ => blind_act _
  | fastFrameRotation cosine sine elements =>
    exact List.forall_mem_cons.mpr ⟨(local_modifyMetadata _).blind,
      List.forall_mem_map.mpr fun _ _ => blind_act _⟩

theorem Opening.blind (opening : Opening) : Blind opening.enter := by
  cases opening with
  | whileLoop condition => exact blind_openBlock (fun _ _ => rfl) _
  | infiniteLoop => exact blind_openBlock (fun _ _ => rfl) _
  | strictTiming => exact blind_openBlock (fun _ _ => rfl) _
  | counted target init condition update =>
    exact (local_assignTarget target).blind.bind fun _ => blind_openBlock (fun _ _ => rfl) _
  | forEach targets values =>
    rw [Opening.enter, openForEach_eq]
    exact (local_iterators targets values).blind.bind fun _ => blind_openBlock (fun _ _ => rfl) _

theorem blind_innermostLoop : Blind innermostLoop := by
  refine blind_innermost.bind fun scope => ?_
  split
  · exact .pure _
  · exact .throw _ _

theorem blind_openLoopPart (selector : Selector) : Blind (openLoopPart selector) :=
  blind_innermostLoop.bind fun (path, index) => blind_openScope (.body (path ++ [(index, selector)]))

theorem blind_setLoopCondition (condition : Expression) : Blind (setLoopCondition condition) :=
  blind_innermostLoop.bind fun (path, index) =>
    alike_edit path ((Edit.alike_setCondition condition).atIndex index)

theorem Entry.blind (entry : Entry) : Blind entry.step := by
  cases entry with
  | conditional condition isUnsafe => exact blind_openBlock (fun _ _ => rfl) _
  | elif condition =>
    exact blind_bodyPath.bind fun path => (alike_edit path (Edit.alike_lastConditional _)).bind fun index =>
      (alike_edit path ((Edit.alike_refuseOtherwise _).atIndex index)).bind fun _ =>
        (alike_edit path ((Edit.alike_addElif condition).atIndex index)).bind fun branch =>
          blind_openScope (.body (path ++ [(index, .elif branch)]))
  | otherwise =>
    exact blind_bodyPath.bind fun path => (alike_edit path (Edit.alike_lastConditional _)).bind fun index =>
      (alike_edit path ((Edit.alike_addOtherwise _).atIndex index)).bind fun _ => blind_openScope _
  | switch value isUnsafe => exact blind_bodyPath.bind fun path => blind_openScope _
  | case value =>
    refine blind_innermost.bind fun scope => ?_
    split
    · next path switched isUnsafe =>
      have hnew : Located (.conditional (.binary .eq switched value) isUnsafe [] [] none) := fun _ _ => rfl
      exact alike_location fun l l' => (alike_push hnew path l l').bind fun index =>
        (blind_setSwitchIndex index).bind fun _ => blind_openScope (.body (path ++ [(index, .body)]))
    · next path switched _ index =>
      exact (alike_edit path ((Edit.alike_addElif _).atIndex index)).bind fun branch =>
        blind_openScope (.body (path ++ [(index, .elif branch)]))
    · exact .throw _ _
  | default =>
    refine blind_innermost.bind fun scope => ?_
    split
    · next path _ _ index =>
      exact (alike_edit path ((Edit.alike_addOtherwise _).atIndex index)).bind fun _ => blind_openScope _
    · exact .throw _ _
    · exact .throw _ _
  | block opening => exact Opening.blind opening
  | loop =>
    have hnew : Located (.loop [] none [] []) := fun _ _ => rfl
    exact blind_bodyPath.bind fun path => alike_location fun l l' =>
      (alike_push hnew path l l').bind fun index => blind_openScope (.loop path index)
  | loopPart which => exact blind_openLoopPart _
  | results =>
    refine blind_innermost.bind fun scope => ?_
    split
    · exact blind_openScope _
    · exact .throw _ _

end Build
end Qua
