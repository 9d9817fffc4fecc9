import Qua.Proofs.Build.Registry

/-!
# Flags

The flags of a program say whether its body writes timestamps of commands and whether it rotates a frame
fast. They are raised by steps of their own, apart from those that build the actions. Main statement:
`Session.run_flagged`: between calls the flags agree with the body, a fast rotation of no elements apart.
-/

namespace Qua

-- ---------------------------------------------------------------------------
-- Kinds of actions
-- ---------------------------------------------------------------------------

namespace Action

def writesTimestamps : Action → Bool
  | .play p => p.timestampStream.isSome
  | .measure m => m.timestampStream.isSome
  | _ => false

def rotatesFast : Action → Bool
  | .fastFrameRotation .. => true
  | _ => false

/-- The action needs nothing besides its operands. -/
def isPlain : Action → Bool
  | .wait .. | .align .. | .pause | .updateFrequency .. | .updateCorrection .. | .setDcOffset ..
  | .advanceInputStream .. | .resetPhase .. | .rampToZero .. => true
  | _ => false

/-- The action raises no flag. -/
def isQuiet (a : Action) : Bool := !a.writesTimestamps && !a.rotatesFast

theorem isQuiet_of_isPlain {a : Action} (h : a.isPlain = true) : a.isQuiet = true := by
  cases a <;> first | rfl | nomatch h

end Action

namespace Statement

/-- The action of a statement. -/
def action? : Statement → Option Action
  | .action a _ => some a
  | _ => none

/-- The actions among statements, in the order of the walk. -/
def actionsOf (walked : List Statement) : List Action := walked.filterMap action?

theorem actionsOf_append (walked walked' : List Statement) :
    actionsOf (walked ++ walked') = actionsOf walked ++ actionsOf walked' :=
  List.filterMap_append

section

variable (p : Action → Bool)

/-- Whether such an action is anywhere in the block. -/
def blockFinds (block : List Statement) : Bool := (actionsOf (walkBlock block)).any p

/-- Whether the statement is such an action or has one anywhere in it. -/
def finds (s : Statement) : Bool := (actionsOf s.walk).any p

def branchFinds (branch : Branch Statement) : Bool := blockFinds p branch.body

variable {p}

@[simp] theorem blockFinds_nil : blockFinds p [] = false := rfl

@[simp] theorem blockFinds_cons (s : Statement) (rest : List Statement) :
    blockFinds p (s :: rest) = (s.finds p || blockFinds p rest) := by
  simp [blockFinds, finds, walkBlock, actionsOf_append]

theorem blockFinds_eq_any (block : List Statement) : blockFinds p block = block.any (finds p) := by
  induction block with
  | nil => rfl
  | cons s rest ih => rw [blockFinds_cons, List.any_cons, ih]

theorem walkBranches_finds (branches : List (Branch Statement)) :
    (actionsOf (walkBranches branches)).any p = branches.any (branchFinds p) := by
  induction branches with
  | nil => rfl
  | cons branch rest ih =>
    rw [walkBranches, actionsOf_append, List.any_append, ih, List.any_cons]
    rfl

@[simp] theorem finds_action (a : Action) (l : String) : (Statement.action a l).finds p = p a := by
  simp [finds, walk, actionsOf, action?]

theorem walkOtherwise_finds (otherwise : Option (List Statement)) :
    (actionsOf (walkOtherwise otherwise)).any p = otherwise.any (blockFinds p) := by
  cases otherwise <;> rfl

@[simp] theorem finds_conditional (c : Expression) (u : Bool) (body : List Statement)
    (elifs : List (Branch Statement)) (otherwise : Option (List Statement)) (l : String) :
    (Statement.conditional c u body elifs otherwise l).finds p =
      (blockFinds p body || elifs.any (branchFinds p) || otherwise.any (blockFinds p)) := by
  rw [← walkBranches_finds, ← walkOtherwise_finds, blockFinds, ← List.any_append, ← actionsOf_append,
    ← List.any_append, ← actionsOf_append, finds, walk]
  rfl

@[simp] theorem finds_loop (init : List Statement) (c : Option Expression) (update body : List Statement)
    (l : String) : (Statement.loop init c update body l).finds p =
      (blockFinds p init || blockFinds p update || blockFinds p body) := by
  rw [blockFinds, blockFinds, blockFinds, ← List.any_append, ← actionsOf_append, ← List.any_append,
    ← actionsOf_append, finds, walk]
  rfl

@[simp] theorem finds_forEach (iterators : List Iterator) (body : List Statement) (l : String) :
    (Statement.forEach iterators body l).finds p = blockFinds p body := by
  rw [finds, walk]
  rfl

@[simp] theorem finds_strictTiming (body : List Statement) (l : String) :
    (Statement.strictTiming body l).finds p = blockFinds p body := by
  rw [finds, walk]
  rfl

end

end Statement

open Statement

-- ---------------------------------------------------------------------------
-- Edits
-- ---------------------------------------------------------------------------

namespace Edit

/-- What the edit adds is found, or not, besides what was there. -/
def Adds (found : σ → Bool) (b : Bool) (change : Edit σ α) : Prop :=
  ∀ ⦃x a x'⦄, change x = .ok (a, x') → found x' = (found x || b)

section

variable {found : σ → Bool} {b : Bool} {p : Action → Bool}

theorem any_set {items : List σ} {index : Nat} {x x' : σ} (hi : items[index]? = some x)
    (hx : found x' = (found x || b)) : (items.set index x').any found = (items.any found || b) := by
  induction items generalizing index with
  | nil => nomatch hi
  | cons first rest ih =>
    cases index with
    | zero =>
      obtain rfl := Option.some.inj hi
      simp [hx, Bool.or_right_comm]
    | succ index => simp [ih hi, Bool.or_assoc]

theorem Adds.atIndex {change : Edit σ α} (h : Adds found b change) (index : Nat) :
    Adds (List.any · found) b (atIndex index change) := by
  intro items a items' ha
  unfold Edit.atIndex at ha
  cases hi : items[index]? with
  | none =>
    rw [hi] at ha
    nomatch ha
  | some x =>
    simp only [hi] at ha
    cases hx : change x with
    | error e =>
      rw [hx] at ha
      nomatch ha
    | ok result =>
      rw [hx] at ha
      obtain ⟨-, rfl⟩ := Prod.mk.inj (Except.ok.inj ha)
      exact any_set hi (h hx)

/-- An edit of a part adds to the whole what it adds to the part. -/
theorem Adds.within {whole : σ → τ} {inWhole : τ → Bool} {change : Edit σ α} {part : σ} (c : Bool)
    (h : Adds found b change) (ha : within part whole change = .ok (a, x)) (hs : whole part = s)
    (hw : ∀ part, inWhole (whole part) = (found part || c)) : inWhole x = (inWhole s || b) := by
  subst hs
  unfold Edit.within at ha
  cases hx : change part with
  | error e =>
    rw [hx] at ha
    nomatch ha
  | ok result =>
    rw [hx] at ha
    obtain ⟨-, rfl⟩ := Prod.mk.inj (Except.ok.inj ha)
    rw [hw, hw, h hx, Bool.or_right_comm]

theorem Adds.inBranch {change : Edit (List Statement) α} (h : Adds (blockFinds p) b change) :
    Adds (branchFinds p) b (inBranch change) :=
  fun _ _ _ ha => h.within false ha rfl fun _ => (Bool.or_false _).symm

theorem Adds.inBlock {change : Edit (List Statement) α} (h : Adds (blockFinds p) b change)
    (selector : Selector) : Adds (finds p) b (inBlock selector change) := by
  intro s a s' ha
  unfold Edit.inBlock at ha
  split at ha
  · next elifs otherwise _ =>
    refine h.within (elifs.any (branchFinds p) || otherwise.any (blockFinds p)) ha rfl fun _ => ?_
    rw [finds_conditional, Bool.or_assoc]
  · next body _ otherwise _ index =>
    refine (h.inBranch.atIndex index).within (blockFinds p body || otherwise.any (blockFinds p)) ha rfl
      fun _ => ?_
    rw [finds_conditional]
    ac_rfl
  · next body elifs _ _ =>
    refine h.within (blockFinds p body || elifs.any (branchFinds p)) ha rfl fun _ => ?_
    rw [finds_conditional, Option.any_some, Bool.or_comm]
  · next init _ update _ _ =>
    refine h.within (blockFinds p init || blockFinds p update) ha rfl fun _ => ?_
    rw [finds_loop, Bool.or_comm]
  · next update body _ =>
    refine h.within (blockFinds p update || blockFinds p body) ha rfl fun _ => ?_
    rw [finds_loop, Bool.or_assoc]
  · next init _ _ body _ =>
    refine h.within (blockFinds p init || blockFinds p body) ha rfl fun _ => ?_
    rw [finds_loop]
    ac_rfl
  · exact h.within false ha rfl fun _ => by rw [finds_forEach, Bool.or_false]
  · exact h.within false ha rfl fun _ => by rw [finds_strictTiming, Bool.or_false]
  · nomatch ha

theorem Adds.atPath {change : Edit (List Statement) α} (h : Adds (blockFinds p) b change) (path : Path) :
    Adds (blockFinds p) b (atPath path change) := by
  induction path with
  | nil => exact h
  | cons step path ih =>
    obtain ⟨index, selector⟩ := step
    intro block a block' ha
    rw [blockFinds_eq_any, blockFinds_eq_any]
    exact (ih.inBlock selector).atIndex index ha

end

/-- An edit that adds nothing. -/
theorem adds_none {found : σ → Bool} {change : Edit σ α}
    (h : ∀ ⦃x a x'⦄, change x = .ok (a, x') → found x' = found x) : Adds found false change := by
  intro x a x' hx
  rw [h hx, Bool.or_false]

theorem adds_push (p : Action → Bool) (s : Statement) : Adds (blockFinds p) (s.finds p) (push s) := by
  rintro block _ _ ⟨⟩
  simp [blockFinds_eq_any]

theorem adds_lastConditional (p : Action → Bool) (missing : BuildError) :
    Adds (blockFinds p) false (lastConditional missing) := by
  refine adds_none fun block a block' h => ?_
  unfold lastConditional at h
  split at h
  · rw [(Prod.mk.inj (Except.ok.inj h)).2]
  · nomatch h

theorem adds_refuseOtherwise (p : Action → Bool) (e : BuildError) :
    Adds (finds p) false (refuseOtherwise e) := by
  refine adds_none fun s a s' h => ?_
  unfold refuseOtherwise at h
  split at h
  · split at h
    · nomatch h
    · rw [(Prod.mk.inj (Except.ok.inj h)).2]
  · nomatch h

theorem adds_addElif (p : Action → Bool) (condition : Expression) :
    Adds (finds p) false (addElif condition) := by
  refine adds_none fun s a s' h => ?_
  unfold addElif at h
  split at h
  · obtain ⟨-, rfl⟩ := Prod.mk.inj (Except.ok.inj h)
    simp [branchFinds]
  · nomatch h

theorem adds_addOtherwise (p : Action → Bool) (duplicate : BuildError) :
    Adds (finds p) false (addOtherwise duplicate) := by
  refine adds_none fun s a s' h => ?_
  unfold addOtherwise at h
  split at h
  · split at h
    · obtain ⟨-, rfl⟩ := Prod.mk.inj (Except.ok.inj h)
      simp
    · cases h
  · cases h

theorem adds_setCondition (p : Action → Bool) (condition : Expression) :
    Adds (finds p) false (setCondition condition) := by
  refine adds_none fun s a s' h => ?_
  unfold setCondition at h
  split at h
  · obtain ⟨-, rfl⟩ := Prod.mk.inj (Except.ok.inj h)
    simp
  · nomatch h

end Edit

-- ---------------------------------------------------------------------------
-- Drafts
-- ---------------------------------------------------------------------------

namespace Draft

/-- Whether such an action is anywhere in the body. -/
def finds (p : Action → Bool) (d : Draft) : Bool := blockFinds p d.program.body

/-- The body has got the actions, and the flags are what they were. -/
structure Extends (as : List Action) (d t : Draft) : Prop where
  finds : ∀ p, t.finds p = (d.finds p || as.any p)
  metadata : t.program.metadata = d.program.metadata

variable {d e t : Draft}

theorem Extends.of_body (hb : t.program.body = d.program.body)
    (hm : t.program.metadata = d.program.metadata) : Extends [] d t :=
  ⟨fun p => by simp [Draft.finds, hb], hm⟩

theorem Extends.trans (h : Extends as d e) (h' : Extends as' e t) : Extends (as ++ as') d t :=
  ⟨fun p => by rw [h'.finds, h.finds, List.any_append, Bool.or_assoc], h'.metadata.trans h.metadata⟩

/-- The body has got actions that raise no flags. -/
def Quietly (d t : Draft) : Prop := ∃ as : List Action, (∀ a ∈ as, a.isQuiet = true) ∧ Extends as d t

theorem Quietly.of_body (hb : t.program.body = d.program.body)
    (hm : t.program.metadata = d.program.metadata) : d.Quietly t := ⟨[], by simp, .of_body hb hm⟩

end Draft

open Draft (Extends Quietly)

namespace Build

theorem passage_extends : Passage (Extends []) where
  refl d := .of_body rfl rfl
  trans _ _ _ h h' := h.trans h'
  declares _ _ _ _ d _ t h := by
    obtain ⟨declaration, hadds⟩ := declareNamed_adds h
    cases hadds with
    | numbered => cases declaration.isArray <;> exact .of_body rfl rfl
    | inputStream => exact .of_body rfl rfl

theorem passage_quietly : Passage Quietly where
  refl d := .of_body rfl rfl
  trans _ _ _ h h' := by
    obtain ⟨as, ha, h⟩ := h
    obtain ⟨as', ha', h'⟩ := h'
    exact ⟨as ++ as', List.forall_mem_append.mpr ⟨ha, ha'⟩, h.trans h'⟩
  declares _ _ _ _ _ _ _ h := ⟨[], by simp, passage_extends.declares _ _ _ _ h⟩

theorem extends_edit {change : Edit (List Statement) α} (as : List Action)
    (h : ∀ p, Edit.Adds (blockFinds p) (as.any p) change) (path : Path) :
    Along (Extends as) (edit path change) := by
  intro d a t ht
  simp only [edit, bind_run, get_run] at ht
  cases hp : Edit.atPath path change d.program.body with
  | error e =>
    rw [hp] at ht
    cases ht
  | ok result =>
    rw [hp] at ht
    obtain ⟨-, rfl⟩ := Prod.mk.inj (Except.ok.inj ht)
    exact ⟨fun p => (h p).atPath path hp, rfl⟩

theorem quietly_edit {change : Edit (List Statement) α} {path : Path}
    (h : ∀ p, Edit.Adds (blockFinds p) false change) : Along Quietly (edit path change) :=
  fun _ _ _ ht => ⟨[], by simp, extends_edit [] h path ht⟩

theorem quietly_editIndex {change : Edit Statement α} {path : Path} {index : Nat}
    (h : ∀ p, Edit.Adds (finds p) false change) : Along Quietly (edit path (Edit.atIndex index change)) := by
  refine quietly_edit fun p block a block' hb => ?_
  rw [blockFinds_eq_any, blockFinds_eq_any]
  exact (h p).atIndex index hb

theorem quietly_push {s : Statement} (as : List Action) (ha : ∀ a ∈ as, a.isQuiet = true)
    (hs : ∀ p, s.finds p = as.any p) (path : Path) : Along Quietly (edit path (Edit.push s)) :=
  fun _ _ _ ht => ⟨as, ha, extends_edit as (fun p => hs p ▸ Edit.adds_push p s) path ht⟩

theorem quietly_openScope (scope : Scope) : Along Quietly (openScope scope) := by
  rintro d _ _ ⟨⟩
  exact .of_body rfl rfl

theorem quietly_openBlock {statement : String → Statement} (as : List Action)
    (ha : ∀ a ∈ as, a.isQuiet = true) (hs : ∀ l p, (statement l).finds p = as.any p) (selector : Selector) :
    Along Quietly (openBlock statement selector) :=
  passage_quietly.along_bind passage_quietly.along_bodyPath fun path =>
    passage_quietly.along_bind passage_quietly.along_get fun draft =>
      passage_quietly.along_bind (quietly_push as ha (hs draft.location) path) fun _ => quietly_openScope _

theorem quietly_closeScope (number : Nat) : Along Quietly (closeScope number) := by
  intro d _ t ht
  obtain ⟨scope, outer, -, -, hrun⟩ | ⟨-, hrun⟩ := closeScope_cases d number
  · rw [hrun] at ht
    obtain ⟨-, rfl⟩ := Prod.mk.inj (Except.ok.inj ht)
    exact .of_body rfl rfl
  · rw [hrun] at ht
    nomatch ht

theorem quietly_setSwitchIndex (index : Nat) : Along Quietly (setSwitchIndex index) := by
  rintro d _ _ ⟨⟩
  dsimp only
  split <;> exact .of_body rfl rfl

theorem quietly_setLoopCondition (condition : Expression) : Along Quietly (setLoopCondition condition) :=
  passage_quietly.along_bind passage_quietly.along_innermostLoop fun (_, _) =>
    quietly_editIndex fun p => Edit.adds_setCondition p condition

end Build

open Build

theorem Opening.quietly (opening : Opening) : Along Quietly opening.enter := by
  cases opening with
  | whileLoop condition => exact quietly_openBlock [] (by simp) (by simp) _
  | infiniteLoop => exact quietly_openBlock [] (by simp) (by simp) _
  | strictTiming => exact quietly_openBlock [] (by simp) (by simp) _
  | counted target init condition update =>
    refine passage_quietly.along_bind (passage_quietly.along_assignTarget target) fun target => ?_
    have hquiet : ∀ a ∈ [Action.assign target init, .assign target update], a.isQuiet = true := by
      simp [Action.isQuiet, Action.writesTimestamps, Action.rotatesFast]
    exact quietly_openBlock _ hquiet (by simp) _
  | forEach targets values =>
    rw [enter, openForEach_eq]
    exact passage_quietly.along_bind (passage_quietly.along_iterators targets values) fun _ =>
      quietly_openBlock [] (by simp) (by simp) _

theorem Entry.quietly (entry : Entry) : Along Quietly entry.step := by
  have hq := passage_quietly
  cases entry with
  | conditional condition isUnsafe => exact quietly_openBlock [] (by simp) (by simp) _
  | elif condition =>
    exact hq.along_bind hq.along_bodyPath fun _ =>
      hq.along_bind (quietly_edit fun p => Edit.adds_lastConditional p _) fun _ =>
        hq.along_bind (quietly_editIndex fun p => Edit.adds_refuseOtherwise p _) fun _ =>
          hq.along_bind (quietly_editIndex fun p => Edit.adds_addElif p _) fun _ => quietly_openScope _
  | otherwise =>
    exact hq.along_bind hq.along_bodyPath fun _ =>
      hq.along_bind (quietly_edit fun p => Edit.adds_lastConditional p _) fun _ =>
        hq.along_bind (quietly_editIndex fun p => Edit.adds_addOtherwise p _) fun _ => quietly_openScope _
  | switch value isUnsafe => exact hq.along_bind hq.along_bodyPath fun _ => quietly_openScope _
  | case value =>
    refine hq.along_bind hq.along_innermost fun scope => ?_
    split
    · exact hq.along_bind hq.along_get fun _ => hq.along_bind (quietly_push [] (by simp) (by simp) _)
        fun _ => hq.along_bind (quietly_setSwitchIndex _) fun _ => quietly_openScope _
    · exact hq.along_bind (quietly_editIndex fun p => Edit.adds_addElif p _) fun _ => quietly_openScope _
    · exact along_throw _
  | default =>
    refine hq.along_bind hq.along_innermost fun scope => ?_
    split
    · exact hq.along_bind (quietly_editIndex fun p => Edit.adds_addOtherwise p _) fun _ =>
        quietly_openScope _
    · exact along_throw _
    · exact along_throw _
  | block opening => exact opening.quietly
  | loop =>
    exact hq.along_bind hq.along_bodyPath fun _ => hq.along_bind hq.along_get fun _ =>
      hq.along_bind (quietly_push [] (by simp) (by simp) _) fun _ => quietly_openScope _
  | loopPart which => exact hq.along_bind hq.along_innermostLoop fun (_, _) => quietly_openScope _
  | results =>
    refine hq.along_bind hq.along_innermost fun scope => ?_
    split <;> first | exact quietly_openScope _ | exact along_throw _

theorem Request.quietly (asked : Request) : Along Quietly asked.step := by
  have hq := passage_quietly
  cases asked with
  | declare scalarType value size => exact hq.along_map _ (hq.declares _ _ _ _)
  | declareInputStream scalarType name value size => exact hq.along_map _ (hq.declares _ _ _ _)
  | libraryCall library function arguments => exact hq.along_map _ (hq.along_libraryCall _ _ _)
  | random seed => exact hq.along_map _ (hq.declares .int (some (.scalar (.int seed))) none none)
  | amp values => exact hq.along_map _ (hq.along_amp values)
  | declareStream isAdcTrace =>
    intro d _ t ht
    obtain ⟨_, -, ht⟩ := map_eq_ok.mp ht
    rw [declareStream_run] at ht
    exact (Prod.mk.inj (Except.ok.inj ht)).2 ▸ .of_body rfl rfl
  | registerSave kind tag pipeline =>
    refine hq.along_bind (fun d _ t ht => ?_) fun _ => hq.along_pure _
    exact (addSave_eq_ok ht).2 ▸ .of_body rfl rfl

-- ---------------------------------------------------------------------------
-- Leaves
-- ---------------------------------------------------------------------------

namespace Leaf

/-- The leaf is a call of a session: a plain action needs no more than its operands. -/
def isGenuine : Leaf → Bool
  | .plain made => made.isPlain
  | _ => true

/-- A fast rotation of no elements, which builds no action. -/
def isEmptyRotation : Leaf → Bool
  | .fastFrameRotation _ _ [] => true
  | _ => false

/-- The leaf is a call of a session, and a fast rotation of no elements only if that is allowed. -/
def Allowed (E : Prop) (leaf : Leaf) : Prop :=
  leaf.isGenuine = true ∧ (leaf.isEmptyRotation = true → E)

end Leaf

namespace Event

def isGenuine : Event → Bool
  | .call (.leaf leaf) _ => leaf.isGenuine
  | _ => true

def isEmptyRotation : Event → Bool
  | .call (.leaf leaf) _ => leaf.isEmptyRotation
  | _ => false

def Allowed (E : Prop) (event : Event) : Prop :=
  event.isGenuine = true ∧ (event.isEmptyRotation = true → E)

end Event

namespace Build

/-- What makes the action raises the flag for timestamps if the action has any, and builds nothing. -/
def Raises (m : Build Action) : Prop :=
  ∀ ⦃d a s⦄, m d = .ok (a, s) → a.rotatesFast = false ∧ (∀ p, s.finds p = d.finds p) ∧
    s.program.metadata = { d.program.metadata with
      usesCommandTimestamps := d.program.metadata.usesCommandTimestamps || a.writesTimestamps }

theorem raises_of_extends {m : Build Action} (hm : Along (Extends []) m)
    (ha : Gives (fun a : Action => a.isQuiet = true) m) : Raises m := by
  intro d a s h
  have hquiet := ha h
  simp only [Action.isQuiet, Bool.and_eq_true, Bool.not_eq_true'] at hquiet
  have hextends := hm h
  refine ⟨hquiet.2, fun p => by simp [hextends.finds], ?_⟩
  rw [hextends.metadata, hquiet.1, Bool.or_false]

theorem raises_pure {a : Action} (h : a.isQuiet = true) : Raises (pure a) :=
  raises_of_extends (passage_extends.along_pure a) (.pure h)

theorem extends_useTag (role : TagRole) (tag : String) : Along (Extends []) (useTag role tag) := by
  intro d _ t h
  obtain ⟨r, -, rfl⟩ := useTag_eq_ok h
  exact .of_body rfl rfl

/-- The flag for timestamps is raised when there is a stream for them. -/
theorem timestampStream_raises (h : timestampStream target d = .ok (stream, t)) :
    (∀ p, t.finds p = d.finds p) ∧ t.program.metadata = { d.program.metadata with
      usesCommandTimestamps := d.program.metadata.usesCommandTimestamps || stream.isSome } := by
  cases target with
  | none =>
    obtain ⟨rfl, rfl⟩ := pure_eq_ok.mp h
    simp
  | some target =>
    obtain ⟨_, raised, hraised, h⟩ := bind_eq_ok.mp h
    obtain ⟨-, rfl⟩ := Prod.mk.inj (Except.ok.inj hraised)
    cases target with
    | tag tag =>
      obtain ⟨source, rfl, htag⟩ :=
        map_eq_ok.mp (show (some <$> useTag .timestamps tag) _ = .ok (stream, t) from h)
      have hextends := extends_useTag .timestamps tag htag
      exact ⟨fun p => by rw [hextends.finds]; simp [Draft.finds], by rw [hextends.metadata]; simp⟩
    | source source =>
      obtain ⟨rfl, rfl⟩ := pure_eq_ok.mp h
      simp [Draft.finds]

theorem extends_measureStream (target : Option StreamTarget) : Along (Extends []) (measureStream target) := by
  cases target with
  | none => exact passage_extends.along_pure none
  | some target =>
    cases target with
    | tag tag => exact passage_extends.along_map some (extends_useTag .trace tag)
    | source source => exact passage_extends.along_pure _

theorem raises_playAction (pulse : Pulse) (element : String) (options : PlayOptions) :
    Raises (playAction pulse element options) := by
  intro d a t h
  obtain ⟨chirp, s, hs, h⟩ := bind_eq_ok.mp h
  obtain ⟨stream, u, hu, h⟩ := bind_eq_ok.mp h
  obtain ⟨rfl, rfl⟩ := pure_eq_ok.mp h
  have hchirp := passage_extends.along_mapM_option
    (fun c => passage_extends.along_chirp c options.continueChirp) options.chirp hs
  obtain ⟨hfinds, hmetadata⟩ := timestampStream_raises hu
  refine ⟨rfl, fun p => by simp [hfinds, hchirp.finds], ?_⟩
  rw [hmetadata, hchirp.metadata]
  simp [Action.writesTimestamps]

theorem raises_measureAction (pulse element : String) (options : MeasureOptions) :
    Raises (measureAction pulse element options) := by
  intro d a t h
  obtain ⟨filled, s, hs, h⟩ := bind_eq_ok.mp h
  obtain ⟨stream, u, hu, h⟩ := bind_eq_ok.mp h
  obtain ⟨rfl, rfl⟩ := pure_eq_ok.mp h
  have hfilled := extends_measureStream options.stream hs
  obtain ⟨hfinds, hmetadata⟩ := timestampStream_raises hu
  refine ⟨rfl, fun p => by simp [hfinds, hfilled.finds], ?_⟩
  rw [hmetadata, hfilled.metadata]
  simp [Action.writesTimestamps]

theorem raises_triggerAction (elements : List String) (pulse : Option String)
    (trigger : Option TriggerElement) (target : Option Expression) :
    Raises (triggerAction elements pulse trigger target) :=
  raises_of_extends
    (passage_extends.along_bind (passage_extends.along_mapM_option passage_extends.along_triggerTarget _)
      fun _ => passage_extends.along_pure _)
    (.after fun _ => .pure rfl)

theorem raises_assignAction (target value : Expression) : Raises (assignAction target value) :=
  raises_of_extends
    (passage_extends.along_bind (passage_extends.along_assignTarget target) fun _ =>
      passage_extends.along_pure _)
    (.after fun _ => .pure rfl)

theorem raises_saveAction (source : Expression) (stream : StreamTarget) :
    Raises (saveAction source stream) := by
  have hstream : Along (Extends []) (saveStream stream) := by
    cases stream with
    | tag tag => exact extends_useTag .values tag
    | source given => exact passage_extends.along_pure given
  refine raises_of_extends (passage_extends.along_bind hstream fun stream => ?_) (.after fun stream => ?_)
  · have hsource := passage_extends.along_bind (passage_extends.along_saveSource source) fun source =>
      passage_extends.along_pure (Action.save source stream.name)
    cases stream.isAdcTrace with
    | true => exact passage_extends.along_bind (along_throw _) fun _ => hsource
    | false => exact hsource
  · cases stream.isAdcTrace with
    | true => exact .after fun _ => .after fun _ => .pure rfl
    | false => exact .after fun _ => .pure rfl

/-- An action is appended, whatever flags it needs. -/
theorem extends_act (made : Action) : Along (Extends [made]) (act made) := by
  intro d _ t h
  obtain ⟨path, s, hs, h⟩ := bind_eq_ok.mp h
  obtain ⟨draft, u, hu, h⟩ := bind_eq_ok.mp h
  obtain ⟨_, v, hv, h⟩ := bind_eq_ok.mp h
  obtain ⟨-, rfl⟩ := pure_eq_ok.mp h
  have hpushed := extends_edit [made] (fun p => by simpa using Edit.adds_push p (.action made draft.location))
    path hv
  exact (passage_extends.along_bodyPath hs).trans ((passage_extends.along_get hu).trans hpushed)

end Build

-- ---------------------------------------------------------------------------
-- Flags that agree with the body
-- ---------------------------------------------------------------------------

/-- The flags agree with the body, where it counts as a fast rotation if `E` holds. -/
structure Draft.Flagged (E : Prop) (d : Draft) : Prop where
  timestamps : d.program.metadata.usesCommandTimestamps = d.finds Action.writesTimestamps
  rotates : d.finds Action.rotatesFast = true → d.program.metadata.usesFastFrameRotation = true
  rotated : d.program.metadata.usesFastFrameRotation = true → d.finds Action.rotatesFast = true ∨ E

section

variable {E : Prop} {d t : Draft}

theorem Draft.flagged_initial : Draft.Flagged E {} := {
  timestamps := rfl
  rotates := fun h => nomatch h
  rotated := fun h => nomatch h }

theorem Draft.Flagged.located (h : d.Flagged E) (l : String) : Flagged E { d with location := l } :=
  ⟨h.timestamps, h.rotates, h.rotated⟩

theorem Draft.Flagged.quietly (h : d.Flagged E) (hq : d.Quietly t) : t.Flagged E := by
  obtain ⟨as, has, hextends⟩ := hq
  have hfinds (p : Action → Bool) (hp : ∀ a : Action, a.isQuiet = true → p a = false) :
      t.finds p = d.finds p := by
    have hnone : as.any p = false := List.any_eq_false.mpr fun a ha => by simp [hp a (has a ha)]
    rw [hextends.finds, hnone, Bool.or_false]
  have hquiet {a : Action} (ha : a.isQuiet = true) : a.writesTimestamps = false ∧ a.rotatesFast = false := by
    simpa [Action.isQuiet] using ha
  have hwrites := hfinds Action.writesTimestamps fun _ ha => (hquiet ha).1
  have hrotates := hfinds Action.rotatesFast fun _ ha => (hquiet ha).2
  constructor
  · rw [hextends.metadata, hwrites, h.timestamps]
  · rw [hextends.metadata, hrotates]
    exact h.rotates
  · rw [hextends.metadata, hrotates]
    exact h.rotated

/-- An action is appended after the flag that it needs has been raised. -/
theorem Draft.Flagged.act (h : d.Flagged E) {m : Build Action} (hm : Raises m)
    (hrun : (m >>= Build.act) d = .ok (u, t)) : t.Flagged E := by
  obtain ⟨made, s, hs, hrun⟩ := bind_eq_ok.mp hrun
  obtain ⟨hslow, hfinds, hmetadata⟩ := hm hs
  have hact := extends_act made hrun
  have ht (p : Action → Bool) : t.finds p = (d.finds p || p made) := by
    rw [hact.finds, hfinds, List.any_cons, List.any_nil, Bool.or_false]
  have hrotates : t.finds Action.rotatesFast = d.finds Action.rotatesFast := by
    rw [ht, hslow, Bool.or_false]
  constructor
  · rw [hact.metadata, hmetadata, ht, h.timestamps]
  · rw [hact.metadata, hmetadata, hrotates]
    exact h.rotates
  · rw [hact.metadata, hmetadata, hrotates]
    exact h.rotated

end

-- ---------------------------------------------------------------------------
-- Calls
-- ---------------------------------------------------------------------------

namespace Calls

variable {step : Build Unit} {rest : List (Build Unit)} {d : Draft} {s : Session}

theorem callEach_cons_eq_ok (h : callEach (step :: rest) ⟨d, none⟩ = (.ok (), s)) :
    ∃ t, step d = .ok ((), t) ∧ callEach rest ⟨t, none⟩ = (.ok (), s) := by
  cases hs : step d with
  | error e =>
    simp only [callEach, Session.applyEach, Session.apply, hs] at h
    cases h
  | ok result =>
    obtain ⟨⟨⟩, t⟩ := result
    exact ⟨t, rfl, callEach_cons rest hs ▸ h⟩

/-- One action after another is appended. -/
theorem callEach_extends {l : String} {action : String → Action} {elements : List String}
    (h : callEach ((elements.map fun element => Build.act (action element)).map (located l)) ⟨d, none⟩ =
      (.ok (), ⟨t, none⟩)) : Extends (elements.map action) d t := by
  induction elements generalizing d with
  | nil =>
    obtain rfl := congrArg Session.draft (Prod.mk.inj h).2
    exact .of_body rfl rfl
  | cons element elements ih =>
    obtain ⟨s, hs, h⟩ := callEach_cons_eq_ok h
    have hfirst : Extends [action element] { d with location := l } s := extends_act _ hs
    have hlocated : Extends [action element] d s := ⟨hfirst.finds, hfirst.metadata⟩
    exact hlocated.trans (ih h)

end Calls

section

variable {E : Prop} {d t : Draft}

theorem Leaf.flagged {leaf : Leaf} (ha : leaf.Allowed E) (hd : d.Flagged E)
    (h : Calls.callEach (leaf.steps.map (located l)) ⟨d, none⟩ = (.ok (), ⟨t, none⟩)) : t.Flagged E := by
  have hmade {m : Build Action} (hm : Raises m)
      (h : Calls.callEach ([m >>= Build.act].map (located l)) ⟨d, none⟩ = (.ok (), ⟨t, none⟩)) :
      t.Flagged E := by
    obtain ⟨s, hs, h⟩ := Calls.callEach_cons_eq_ok h
    obtain rfl := congrArg Session.draft (Prod.mk.inj h).2
    exact (hd.located l).act hm hs
  have heach {action : String → Action} {elements : List String} (hq : ∀ e, (action e).isQuiet = true)
      (h : Calls.callEach ((elements.map fun e => Build.act (action e)).map (located l)) ⟨d, none⟩ =
        (.ok (), ⟨t, none⟩)) : t.Flagged E :=
    hd.quietly ⟨elements.map action, by simpa using fun e _ => hq e, Calls.callEach_extends h⟩
  cases leaf with
  | play pulse element options =>
    rw [steps, play_eq] at h
    exact hmade (raises_playAction pulse element options) h
  | measure pulse element options =>
    rw [steps, measure_eq] at h
    exact hmade (raises_measureAction pulse element options) h
  | waitForTrigger elements pulse trigger target =>
    rw [steps, waitForTrigger_eq] at h
    exact hmade (raises_triggerAction elements pulse trigger target) h
  | assign target value =>
    rw [steps, assign_eq] at h
    exact hmade (raises_assignAction target value) h
  | save source stream =>
    rw [steps, save_eq] at h
    exact hmade (raises_saveAction source stream) h
  | plain action => exact hmade (raises_pure (Action.isQuiet_of_isPlain ha.1)) h
  | resetFrame elements => exact heach (fun _ => rfl) h
  | frameRotation angle elements => exact heach (fun _ => rfl) h
  | frameRotation2pi angle elements => exact heach (fun _ => rfl) h
  | fastFrameRotation cosine sine elements =>
    obtain ⟨s, hs, h⟩ := Calls.callEach_cons_eq_ok h
    obtain rfl := (Prod.mk.inj (Except.ok.inj hs)).2
    have hextends : Extends (elements.map (.fastFrameRotation cosine sine)) _ t := Calls.callEach_extends h
    constructor
    · rw [hextends.metadata, hextends.finds]
      have hnone : (elements.map (Action.fastFrameRotation cosine sine)).any Action.writesTimestamps = false := by
        simp [Action.writesTimestamps]
      rw [hnone, Bool.or_false]
      exact hd.timestamps
    · rw [hextends.metadata]
      exact fun _ => rfl
    · rintro -
      cases elements with
      | nil => exact .inr (ha.2 rfl)
      | cons element elements =>
        rw [hextends.finds]
        exact .inl (by simp [Action.rotatesFast])

/-- Calls other than actions add only what raises no flags. -/
theorem Call.quietly {made : Call} (hl : ∀ leaf, made ≠ .leaf leaf)
    (h : made.perform l ⟨d, none⟩ = (.ok outcome, ⟨t, none⟩)) : d.Quietly t := by
  have hstep {α : Type} {step : Build α} {a : α} (hq : Along Quietly step)
      (h : Calls.call (located l step) ⟨d, none⟩ = (.ok a, ⟨t, none⟩)) : d.Quietly t := by
    obtain ⟨s, hs, hst⟩ := Calls.call_eq_ok h
    obtain rfl := congrArg Session.draft hst
    have hlocated : d.Quietly { d with location := l } := .of_body rfl rfl
    exact passage_quietly.trans hlocated (hq hs)
  cases made with
  | request asked => exact hstep asked.quietly h
  | leaf leaf => exact absurd rfl (hl leaf)
  | loopCondition condition =>
    obtain ⟨⟨⟩, s, hs, h⟩ := Calls.bind_eq_ok h
    obtain rfl := (Prod.mk.inj h).2
    exact hstep (quietly_setLoopCondition condition) hs
  | enter entry =>
    rw [perform, map_eq_pure_bind] at h
    obtain ⟨number, s, hs, h⟩ := Calls.bind_eq_ok h
    obtain rfl := (Prod.mk.inj h).2
    exact hstep entry.quietly hs

theorem Session.quietly_close (h : (Session.close number ⟨d, none⟩).2 = ⟨t, none⟩) : d.Quietly t := by
  cases hs : Build.closeScope number d with
  | error e => simp [Session.close, Session.apply, hs] at h
  | ok result =>
    obtain rfl : result.2 = t := by simpa [Session.close, Session.apply, hs] using h
    exact quietly_closeScope number hs

/-- Besides leaves, events add only what raises no flags. -/
theorem Event.leaf_or_quietly {event : Event} (h : event.perform ⟨d, none⟩ = (.ok outcome, ⟨t, none⟩)) :
    (∃ leaf l, event = .call (.leaf leaf) l ∧
      Calls.callEach (leaf.steps.map (located l)) ⟨d, none⟩ = (.ok (), ⟨t, none⟩)) ∨
    (event.uses = [] ∧ d.Quietly t) := by
  cases event with
  | call made l =>
    have hquiet (hl : ∀ leaf, made ≠ .leaf leaf) : d.Quietly t := Call.quietly hl h
    cases made with
    | leaf leaf =>
      obtain ⟨⟨⟩, s, hs, h⟩ := Calls.bind_eq_ok h
      obtain rfl := (Prod.mk.inj h).2
      exact .inl ⟨leaf, l, rfl, hs⟩
    | request | loopCondition | enter => exact .inr ⟨rfl, hquiet (by simp)⟩
  | close number =>
    obtain ⟨⟨⟩, s, hs, h⟩ := Calls.bind_eq_ok h
    obtain rfl := (Prod.mk.inj h).2
    exact .inr ⟨rfl, Session.quietly_close (congrArg Prod.snd hs)⟩
  | drop number => exact .inr ⟨rfl, Session.quietly_close (congrArg Prod.snd h)⟩

theorem Event.flagged {event : Event} (ha : event.Allowed E) (hd : d.Flagged E)
    (h : event.perform ⟨d, none⟩ = (.ok outcome, ⟨t, none⟩)) : t.Flagged E := by
  obtain ⟨leaf, l, rfl, hsteps⟩ | ⟨-, hq⟩ := Event.leaf_or_quietly h
  · exact Leaf.flagged ha hd hsteps
  · exact hd.quietly hq

/-- The flags agree with the body in every session that has not failed. -/
theorem Session.run_flagged {events : List Event} (ha : ∀ event ∈ events, event.Allowed E)
    (hs : d.site.Scoped) (hd : d.Flagged E) (h : (run events ⟨d, none⟩).2 = ⟨t, none⟩) : t.Flagged E := by
  induction events generalizing d with
  | nil =>
    obtain rfl := congrArg Session.draft h
    exact hd
  | cons event events ih =>
    rw [run_cons] at h
    obtain ⟨outcome, s, hrun, hm⟩ | ⟨answer, d', e, hrun, -⟩ := event.perform_cases hs
    · rw [hrun] at h
      obtain ⟨hevent, ha⟩ := List.forall_mem_cons.mp ha
      exact ih ha (hm.scoped hs) (Event.flagged hevent hd hrun) h
    · rw [hrun, run_poisoned] at h
      nomatch h

end

end Qua
