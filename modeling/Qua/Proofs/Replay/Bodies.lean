import Qua.Proofs.Build.Flags
import Qua.Proofs.Replay.Standing

/-!
# Bodies of programs

The lines of a block build the block again, whatever it stands in: every statement at its line, and its
streams with the names they get when the actions are made again in that order. Main statement:
`block_replays`.
-/

namespace Qua

open Script (Outline linesOf linesOf_append)
open Replay
open Text (IsIdentifier)

-- ---------------------------------------------------------------------------
-- Statements that can be written
-- ---------------------------------------------------------------------------

/-- A stream can be bound besides the variables and arrays. -/
structure StreamFits (hs : List (String × Expression)) (name : String) : Prop where
  identifier : IsIdentifier name
  allocated : isAllocated name = true
  free : ∀ h ∈ hs, h.1 ≠ name

namespace Statement

section

variable (hs : List (String × Expression)) (shorthand? : String → Option String)

/-- The statement without what is in it can be written over the variables and arrays. -/
def Over : Statement → Prop
  | .action a _ => a.Over hs
  | .conditional c _ _ elifs _ _ => c.Over hs ∧ ∀ branch ∈ elifs, branch.condition.Over hs
  | .loop _ c _ _ _ => ∀ e ∈ c, e.Over hs
  | .forEach iterators _ _ =>
    iterators ≠ [] ∧ ∀ i ∈ iterators, (iteratorVariable i).Over hs ∧ (iteratorArray i).Over hs
  | .strictTiming .. => True

/-- Besides, its streams without a tag can be declared. -/
def HeadOver (s : Statement) : Prop :=
  s.Over hs ∧ ∀ name ∈ s.streamNames, shorthand? name = none → StreamFits hs name

end

end Statement

open Statement

section

variable {hs : List (String × Expression)} {shorthand? : String → Option String} {σ : String → String}
  {x y : Stage} {scopes : List Frame} {body : List Statement}

-- ---------------------------------------------------------------------------
-- Declarations of streams
-- ---------------------------------------------------------------------------

theorem declareStream_takes (isAdcTrace : Bool) :
    Takes (builtin "declare_stream")
      (.of "declare_stream" [] (keywordOf "adc_trace" (if isAdcTrace then some (.bool true) else none)))
      (Value.source <$> Build.declareStream isAdcTrace) := by
  rw [Arguments.of_eq, map_keywordOf]
  refine .flag_keyword (by decide) (b := isAdcTrace) ?_ (.done _ ?_)
  · rw [splitKeyword_last]
  · rw [splitKeyword_last]
    exact fun k hk => slot_taken hk

/-- What is written to declare a stream. -/
def declarationText (name : String) : String :=
  if ResultSource.isTraceName name then "declare_stream(adc_trace=True)" else "declare_stream()"

theorem Stage.lookup_declare (x : Stage) (name : String) :
    ∃ source, (x.declare name).streams = (name, source) :: x.streams ∧
      Build.declareStream (ResultSource.isTraceName name) x.draft = .ok (source, (x.declare name).draft) :=
  ⟨_, rfl, x.declareStream_run name⟩

/-- The line of a declaration declares the stream and binds its name. -/
theorem declaration_replays (hn : StreamFits hs name) :
    Replays hs [.assign name (declarationText name)] x (x.declare name) scopes body
      (declarationLine name) fun _ => body := by
  obtain ⟨source, hstreams, hrun⟩ := x.lookup_declare name
  refine .assign (fun _ _ => rfl) hn.identifier fun s h => ?_
  obtain ⟨number, location, hd⟩ := h.draft
  have hstep : (Value.source <$> Build.declareStream (ResultSource.isTraceName name)) s.draft =
      .ok (.source source, (x.declare name).draft.moved ⟨body, scopes, number, location⟩) := by
    rw [map_run, hd, (Build.local_declareStream _).moved hrun]
  have hcall : Yields Script.IsPrimary s (declarationText name) (.source source)
      { s with draft := (x.declare name).draft.moved ⟨body, scopes, number, location⟩ } := by
    have hp := (declareStream_takes (ResultSource.isTraceName name)).perform hstep
    rw [declarationText]
    cases ht : ResultSource.isTraceName name with
    | true =>
      rw [ht] at hp
      exact yields_builtin (by decide) (h.ready.free _ (by decide)) h.ready.inProgram comma .nil
        (.cons (.of (by decide) (means_bool true).means) .nil) hp
    | false =>
      rw [ht] at hp
      exact yields_builtin (by decide) (h.ready.free _ (by decide)) h.ready.inProgram comma .nil .nil hp
  refine ⟨_, _, hcall.operand.term, ⟨⟨h.ready.inProgram, fun e he => ?_, fun other ho => ?_⟩,
    fun other found hf => ?_, h.programs, _, _, rfl⟩⟩
  · rw [List.lookup_cons, beq_false_of_ne (hn.free e he)]
    exact h.ready.bound e he
  · have hne : other ≠ name := by
      rintro rfl
      rw [hn.allocated] at ho
      contradiction
    rw [List.lookup_cons, beq_false_of_ne hne]
    exact h.ready.free other ho
  · rw [hstreams, List.lookup_cons] at hf
    rw [List.lookup_cons]
    cases hb : other == name with
    | true =>
      rw [hb] at hf
      obtain rfl := Option.some.inj hf
      rfl
    | false =>
      rw [hb] at hf
      exact h.streams other found hf

theorem declarations_replay {names : List String} (hn : ∀ name ∈ names, StreamFits hs name) :
    Replays hs (names.map fun name => .assign name (declarationText name)) x (x.declareAll names) scopes
      body (declarationLines names) fun _ => body := by
  induction names generalizing x with
  | nil => exact .pure () (fun _ => body) x scopes
  | cons name names ih =>
    rw [List.forall_mem_cons] at hn
    exact (declaration_replays hn.1).bind fun _ => ih hn.2

-- ---------------------------------------------------------------------------
-- Actions
-- ---------------------------------------------------------------------------

theorem linesOf_declarations (depth : Nat) (names : List String) :
    linesOf depth (names.map fun name => .assign name (declarationText name)) =
      names.map fun name => ⟨depth, Listing.streamDeclaration name⟩ := by
  induction names with
  | nil => rfl
  | cons name names ih =>
    rw [List.map_cons, linesOf, ih]
    rfl

/-- What is written for the streams of an action stands for what they are there. -/
theorem means_writtenStream {a : Action} (h : Standing hs (a.declared shorthand? x) body scopes s)
    (hf : ∀ name ∈ a.streamNames, shorthand? name = none → StreamFits hs name)
    (hn : name ∈ a.streamNames) :
    Means s (Listing.writtenStream shorthand? name)
      (.ofTarget ((a.declared shorthand? x).target shorthand? name)) := by
  rw [Listing.writtenStream, Stage.target]
  cases ht : shorthand? name with
  | some tag => exact (means_string tag).means
  | none =>
    obtain ⟨source, hl⟩ := Stage.mem_names_iff.mp (Action.mem_declared (x := x) hn ht)
    simp only [hl]
    exact (means_bound (hf name hn ht).identifier (h.streams name source hl)).means

/-- The line of an action makes it again, once its streams have been declared. -/
theorem Replay.Standing.acts {a made : Action} {C : Context} {block : List Statement} {number : Nat}
    {location : String}
    (h : Standing hs (a.declared shorthand? x) (C.plug block) scopes s)
    (hd : s.draft = (a.declared shorthand? x).draft.moved ⟨C.plug block, scopes, number, location⟩)
    (ho : (Statement.action a l).HeadOver hs shorthand?) (ha : a.Arranges shorthand? x made y)
    (hpath : scopes.head?.bind (·.scope.blockPath?) = some (Context.path C)) :
    ∃ text, (a.mapStreams (Listing.writtenStream shorthand?)).render = .ok text ∧
      Yields Script.IsPrimary s text .none { s with
        draft := y.draft.moved ⟨C.plug (block ++ [.action made location]), scopes, number, location⟩ } := by
  have hremade := (a.local_remade _).moved ha.run ⟨C.plug block, scopes, number, location⟩
  have hact : Build.act made (y.draft.moved ⟨C.plug block, scopes, number, location⟩) =
      .ok ((), y.draft.moved ⟨C.plug (block ++ [.action made location]), scopes, number, location⟩) :=
    Build.act_run made y.draft ⟨hpath, rfl⟩
  refine h.ready.action ho.1 (fun name hn => means_writtenStream h ho.2 hn) ?_
  rw [Action.rebuild_eq, hd, bind_run, hremade]
  exact hact

/-- The lines of an action build it again. -/
theorem action_replays {a made : Action} (l : String) (ho : (Statement.action a l).HeadOver hs shorthand?)
    (hl : Listing.action shorthand? depth a x.names = .ok (lines, names))
    (ha : a.Arranges shorthand? x made y) (hσ : Stage.Names shorthand? σ y) :
    y.names = names ∧ ∃ os, linesOf depth os = lines ∧ os ≠ [] ∧
      ∀ ⦃C block scopes⦄, scopes.head?.bind (·.scope.blockPath?) = some (Context.path C) →
        Replays hs os x y scopes (C.plug block) (placed shorthand? σ (.action a l))
          fun s => C.plug (block ++ [s]) := by
  have hmade : made = a.mapStreams σ := ha.renamed ho.1.formed hσ
  have hnames : y.names = (a.declared shorthand? x).names := by rw [Stage.names, ha.streams]; rfl
  rw [Listing.action, bind_run, Listing.declareStreams_run] at hl
  simp only at hl
  obtain ⟨text, names', ht, hl⟩ := bind_eq_ok.mp hl
  obtain ⟨rfl, rfl⟩ := pure_eq_ok.mp hl
  obtain ⟨htext, rfl⟩ := lift_eq_ok.mp ht
  have hnew : ∀ name ∈ undeclared shorthand? x.names a.streamNames, StreamFits hs name :=
    fun name hn => ho.2 name (mem_undeclared.mp hn).1 (mem_undeclared.mp hn).2.1
  let declarations : List Outline := (undeclared shorthand? x.names a.streamNames).map fun name =>
    .assign name (declarationText name)
  refine ⟨by rw [hnames, Action.declared, Stage.names_declareAll], declarations ++ [.term text],
    by rw [linesOf_append, linesOf_declarations]; rfl, by simp, fun C block scopes hpath => ?_⟩
  rw [placed]
  refine .withDeclared ((declarations_replay hnew).bind fun _ => .term hnames fun s number location h hd => ?_)
  obtain ⟨text', hr, hyields⟩ := h.acts hd ho ha hpath
  obtain rfl := Except.ok.inj (htext.symm.trans hr)
  rw [hmade] at hyields
  exact ⟨_, _, hyields.operand.term, h.moved ha.streams rfl⟩

-- ---------------------------------------------------------------------------
-- Blocks under a line
-- ---------------------------------------------------------------------------

theorem linesOf_eq_nil {depth : Nat} {os : List Outline} : linesOf depth os = [] ↔ os = [] := by
  cases os with
  | nil => simp [linesOf]
  | cons o os => cases o <;> simp [linesOf, Outline.lines]

variable (hs shorthand? σ)

/-- The lines build the statement again at the end of any block. -/
def StatementReplays (depth : Nat) (lines : List Line) (x y : Stage) (s : Statement) : Prop :=
  ∃ os, linesOf depth os = lines ∧ os ≠ [] ∧
    ∀ ⦃C block scopes⦄, scopes.head?.bind (·.scope.blockPath?) = some (Context.path C) →
      Replays hs os x y scopes (C.plug block) (placed shorthand? σ s) fun s => C.plug (block ++ [s])

/-- The lines build the block again at the end of any block. -/
def BlockReplays (depth : Nat) (lines : List Line) (x y : Stage) (b : List Statement) : Prop :=
  (b = [] → x = y) ∧ ∃ os, linesOf depth os = lines ∧ (os = [] ↔ b = []) ∧
    ∀ ⦃C block scopes⦄, scopes.head?.bind (·.scope.blockPath?) = some (Context.path C) →
      Replays hs os x y scopes (C.plug block) (placedBlock shorthand? σ b) fun ss => C.plug (block ++ ss)

/-- The same under a line that opens a scope, where a block needs a line. -/
def UnderReplays (depth : Nat) (lines : List Line) (x y : Stage) (b : List Statement) : Prop :=
  ∃ os, linesOf depth os = lines ∧ os ≠ [] ∧
    ∀ ⦃C block scopes⦄, scopes.head?.bind (·.scope.blockPath?) = some (Context.path C) →
      Replays hs os x y scopes (C.plug block) (orPassLine b.isEmpty (placedBlock shorthand? σ b))
        fun ss => C.plug (block ++ ss)

variable {hs shorthand? σ}

theorem BlockReplays.under {b : List Statement} (h : BlockReplays hs shorthand? σ depth lines x y b) :
    UnderReplays hs shorthand? σ depth (Listing.orPass depth lines) x y b := by
  obtain ⟨hnil, os, rfl, hos, hall⟩ := h
  cases b with
  | nil =>
    obtain rfl := hnil rfl
    obtain rfl := hos.mpr rfl
    refine ⟨[.pass], rfl, by simp, fun C block scopes _ => ?_⟩
    have hp : Replays hs _ x x scopes _ _ _ := .pass (fun ss => C.plug (block ++ ss)) [] x scopes
    rwa [List.append_nil] at hp
  | cons s rest =>
    have hne : os ≠ [] := fun h => by simpa using hos.mp h
    have hlines : (linesOf depth os).isEmpty = false := by
      rw [List.isEmpty_eq_false_iff, ne_eq, linesOf_eq_nil]
      exact hne
    exact ⟨os, by rw [Listing.orPass, hlines]; rfl, hne, hall⟩

/-- A block in a scope of its own, which is a block of the last statement. -/
theorem UnderReplays.inScope {b : List Statement} {header : String} {step : Build Nat}
    (h : UnderReplays hs shorthand? σ (depth + 1) lines x y b) (hheads : Heads hs header step) :
    ∃ o : Outline, o.lines depth = ⟨depth, header⟩ :: lines ∧
      ∀ ⦃C block scopes before⦄ (hole : String → Hole) (start : List Statement),
        (∀ number location, step (x.draft.moved ⟨before, scopes, number, location⟩) =
          .ok (number, x.draft.moved (Site.opened
            ⟨(Context.enter C block (hole location)).plug start, scopes, number, location⟩
            (.body (C.enter block (hole location)).path)))) →
        Replays hs [o] x y scopes before (underLine b.isEmpty (placedBlock shorthand? σ b))
          fun p => C.plug (block ++ [(hole p.1).fill (start ++ p.2)]) := by
  obtain ⟨os, rfl, hne, hall⟩ := h
  obtain ⟨text, rfl, hopens⟩ := hheads
  refine ⟨.block text os, rfl, fun C block scopes before hole start hstep => ?_⟩
  refine .block (fun _ => rfl) hopens hne hstep fun number location => .map ?_
  have hinner := @hall (C.enter block (hole location)) start
    (⟨number, .body (C.enter block (hole location)).path⟩ :: scopes) rfl
  simpa only [Context.plug_enter] using hinner

-- ---------------------------------------------------------------------------
-- Loops with blocks for their parts
-- ---------------------------------------------------------------------------

/-- What is called to open a part of a loop. -/
def partName : LoopBlock → String
  | .init => "for_init_"
  | .update => "for_update_"
  | .body => "for_body_"

theorem heads_part (which : LoopBlock) :
    Heads hs ("with " ++ partName which ++ "():") (Build.openLoopPart which.selector) := by
  have ht := loopPart_takes which
  cases which <;> exact heads_nothing (by decide) (by decide) ht

theorem UnderReplays.part {b : List Statement} (h : UnderReplays hs shorthand? σ (depth + 1) lines x y b)
    (which : LoopBlock) :
    ∃ o : Outline, o.lines depth = ⟨depth, "with " ++ partName which ++ "():"⟩ :: lines ∧
      ∀ (C : Context) (block : List Statement) (parts : LoopParts) (l : String) (number : Nat)
        (scopes : List Frame),
        Replays hs [o] x y (⟨number, .loop C.path block.length⟩ :: scopes)
          (C.plug (block ++ [parts.statement l])) (underLine b.isEmpty (placedBlock shorthand? σ b))
          fun p => C.plug (block ++ [(parts.extend p.2 which).statement l]) := by
  obtain ⟨o, ho, hall⟩ := h.inScope (heads_part which)
  refine ⟨o, ho, fun C block parts l number scopes => ?_⟩
  have hat (inner : Nat) (location : String) : Site.AtLoop C block parts l
      ⟨C.plug (block ++ [parts.statement l]), ⟨number, .loop C.path block.length⟩ :: scopes, inner,
        location⟩ := ⟨rfl, rfl⟩
  have hrun := hall (fun _ => parts.hole l which) (parts.block which) fun inner location =>
    openLoopPart_run x.draft (hat inner location) which
  simpa only [LoopParts.fill_hole] using hrun

theorem forCond_takes (condition : Expression) :
    Takes (builtin "for_cond") (.of "for_cond" [condition.replayed] [])
      (noValue (Build.setLoopCondition condition)) :=
  .expression (toExpression_replayed condition) (.done _ (by simp))

/-- The line of the condition of a loop, if it has one. -/
def conditionLines (depth : Nat) : Option Expression → Except RenderError (List Line)
  | none => return []
  | some condition => do
    let text ← condition.render
    return [⟨depth, "for_cond(" ++ text ++ ")"⟩]

/-- What follows the condition is listed in the same way with and without it. -/
theorem conditionLines_run {condition : Option Expression} {f : List Line → Listing α}
    (hl : (match condition with
      | none => do
        let lines ← pure []
        f lines
      | some condition => do
        let text ← condition.render
        let lines ← pure [(⟨depth, "for_cond(" ++ text ++ ")"⟩ : Line)]
        f lines) names = .ok result) :
    (liftM (conditionLines depth condition) >>= f) names = .ok result := by
  cases condition with
  | none => exact hl
  | some condition =>
    rw [← hl]
    cases hr : condition.render <;> simp [conditionLines, hr] <;> rfl

theorem condition_replays {condition : Option Expression} (ho : ∀ e ∈ condition, e.Over hs)
    (hl : conditionLines depth condition = .ok lines) :
    ∃ os, linesOf depth os = lines ∧
      ∀ (C : Context) (block : List Statement) (parts : LoopParts) (l : String) (number : Nat)
        (scopes : List Frame), parts.condition = none →
        Replays hs os x x (⟨number, .loop C.path block.length⟩ :: scopes)
          (C.plug (block ++ [parts.statement l])) (conditionLine condition)
          fun _ => C.plug (block ++ [LoopParts.statement { parts with condition := condition } l]) := by
  cases condition with
  | none =>
    obtain rfl := Except.ok.inj hl
    refine ⟨[], rfl, fun C block parts l number scopes hp => ?_⟩
    have hparts : parts = { parts with condition := none } := by rw [← hp]
    rw [← hparts]
    exact .pure () (fun _ => C.plug (block ++ [parts.statement l])) x _
  | some condition =>
    obtain ⟨text, htext, hl⟩ := except_bind_eq_ok.mp hl
    obtain rfl := Except.ok.inj hl
    refine ⟨[.term ("for_cond(" ++ text ++ ")")], rfl, fun C block parts l number scopes _ => ?_⟩
    refine .term (f := fun _ => ()) rfl fun s inner location h hd => ?_
    have hstep : Build.setLoopCondition condition s.draft = .ok ((), x.draft.moved
        ⟨C.plug (block ++ [LoopParts.statement { parts with condition := some condition } l]),
          ⟨number, .loop C.path block.length⟩ :: scopes, inner, location⟩) := by
      have hat : Site.AtLoop C block parts l ⟨C.plug (block ++ [parts.statement l]),
        ⟨number, .loop C.path block.length⟩ :: scopes, inner, location⟩ := ⟨rfl, rfl⟩
      rw [hd, setLoopCondition_run x.draft hat]
    have hcall := h.ready.call (show "for_cond(" = "for_cond" ++ "(" by decide) (by decide) (by decide)
      comma (.cons (h.ready.rendered (ho condition rfl) htext) .nil) (forCond_takes condition)
      (noValue_run hstep)
    rw [String.intercalate_singleton] at hcall
    exact ⟨_, _, hcall.operand.term, h.moved rfl rfl⟩

-- ---------------------------------------------------------------------------
-- Statements with one block
-- ---------------------------------------------------------------------------

/-- A block statement whose line says all of it but its block. -/
theorem opening_replays {b : List Statement} {opening : Opening} {header : String} (hole : String → Hole)
    (h : UnderReplays hs shorthand? σ (depth + 1) lines x y b) (hheads : Heads hs header opening.enter)
    (hh : ∀ l d, opening.hole l d = .ok (hole l, d)) :
    ∃ os, linesOf depth os = ⟨depth, header⟩ :: lines ∧ os ≠ [] ∧
      ∀ ⦃C block scopes⦄, scopes.head?.bind (·.scope.blockPath?) = some (Context.path C) →
        Replays hs os x y scopes (C.plug block) (underLine b.isEmpty (placedBlock shorthand? σ b))
          fun p => C.plug (block ++ [(hole p.1).fill p.2]) := by
  obtain ⟨o, ho, hall⟩ := h.inScope hheads
  refine ⟨[o], by rw [linesOf, ho, linesOf, List.append_nil], by simp, fun C block scopes hpath => ?_⟩
  refine hall hole [] fun number location => ?_
  exact enter_run (s := ⟨C.plug block, scopes, number, location⟩) ⟨hpath, rfl⟩ (hh location x.draft)

theorem if_replays {b : List Statement} {header : String}
    (h : UnderReplays hs shorthand? σ (depth + 1) lines x y b)
    (hheads : Heads hs header (Build.openIf c u)) :
    ∃ o : Outline, o.lines depth = ⟨depth, header⟩ :: lines ∧
      ∀ ⦃C block scopes⦄, scopes.head?.bind (·.scope.blockPath?) = some (Context.path C) →
        Replays hs [o] x y scopes (C.plug block) (underLine b.isEmpty (placedBlock shorthand? σ b))
          fun p => C.plug (block ++ [.conditional c u p.2 [] none p.1]) := by
  obtain ⟨o, ho, hall⟩ := h.inScope hheads
  refine ⟨o, ho, fun C block scopes hpath => ?_⟩
  refine hall (.conditional c u [] none) [] fun number location => ?_
  exact Build.openBlock_run (s := ⟨C.plug block, scopes, number, location⟩) (.conditional c u [] [] none)
    x.draft ⟨hpath, rfl⟩ (.conditional c u [] none location) rfl

/-- What a conditional has before one of its further blocks is built. -/
theorem elif_replays {b : List Statement} {header : String}
    (h : UnderReplays hs shorthand? σ (depth + 1) lines x y b)
    (hheads : Heads hs header (Build.openElif taken)) :
    ∃ o : Outline, o.lines depth = ⟨depth, header⟩ :: lines ∧
      ∀ ⦃C block scopes c u first elifs l⦄,
        scopes.head?.bind (·.scope.blockPath?) = some (Context.path C) →
        Replays hs [o] x y scopes (C.plug (block ++ [.conditional c u first elifs none l]))
          (underLine b.isEmpty (placedBlock shorthand? σ b))
          fun p => C.plug (block ++ [.conditional c u first (elifs ++ [⟨taken, p.2, l⟩]) none l]) := by
  obtain ⟨o, ho, hall⟩ := h.inScope hheads
  refine ⟨o, ho, fun C block scopes c u first elifs l hpath => ?_⟩
  refine hall (fun _ => .branch c u first elifs taken l [] none l) [] fun number location => ?_
  exact openElif_run (s := ⟨C.plug (block ++ [.conditional c u first elifs none l]), scopes, number,
    location⟩) block c u first elifs l x.draft taken ⟨hpath, rfl⟩

theorem else_replays {b : List Statement} (h : UnderReplays hs shorthand? σ (depth + 1) lines x y b) :
    ∃ o : Outline, o.lines depth = ⟨depth, "with else_():"⟩ :: lines ∧
      ∀ ⦃C block scopes c u first elifs l⦄,
        scopes.head?.bind (·.scope.blockPath?) = some (Context.path C) →
        Replays hs [o] x y scopes (C.plug (block ++ [.conditional c u first elifs none l]))
          (underLine b.isEmpty (placedBlock shorthand? σ b))
          fun p => C.plug (block ++ [.conditional c u first elifs (some p.2) l]) := by
  obtain ⟨o, ho, hall⟩ := h.inScope (heads_nothing (by decide) (by decide) else_takes)
  refine ⟨o, ho, fun C block scopes c u first elifs l hpath => ?_⟩
  refine hall (fun _ => .alternative c u first elifs l) [] fun number location => ?_
  exact openElse_run (s := ⟨C.plug (block ++ [.conditional c u first elifs none l]), scopes, number,
    location⟩) block c u first elifs l x.draft ⟨hpath, rfl⟩

-- ---------------------------------------------------------------------------
-- All statements
-- ---------------------------------------------------------------------------

variable (hs shorthand? σ)

def BranchesReplay (depth : Nat) (lines : List Line) (x y : Stage) (b : List (Branch Statement)) : Prop :=
  ∃ os, linesOf depth os = lines ∧
    ∀ ⦃C block scopes c u first elifs l⦄, scopes.head?.bind (·.scope.blockPath?) = some (Context.path C) →
      Replays hs os x y scopes (C.plug (block ++ [.conditional c u first elifs none l]))
        (placedBranches shorthand? σ l b)
        fun es => C.plug (block ++ [.conditional c u first (elifs ++ es) none l])

def OtherwiseReplays (depth : Nat) (lines : List Line) (x y : Stage) (b : Option (List Statement)) : Prop :=
  ∃ os, linesOf depth os = lines ∧
    ∀ ⦃C block scopes c u first elifs l⦄, scopes.head?.bind (·.scope.blockPath?) = some (Context.path C) →
      Replays hs os x y scopes (C.plug (block ++ [.conditional c u first elifs none l]))
        (placedOtherwise shorthand? σ b) fun o => C.plug (block ++ [.conditional c u first elifs o l])

variable {hs shorthand? σ}

theorem formed_of_headOver {walked : List Statement} (h : ∀ s ∈ walked, s.HeadOver hs shorthand?) :
    ∀ a ∈ actionsOf walked, a.Formed := by
  intro a ha
  obtain ⟨s, hm, hs⟩ := List.mem_filterMap.mp ha
  cases s with
  | action b l =>
    obtain rfl := Option.some.inj hs
    exact (h _ hm).1.formed
  | _ => nomatch hs

theorem assignTarget_place {target : Expression} (h : Build.IsPlace target) (d : Draft) :
    Build.assignTarget target d = .ok (target, d) := by
  cases target <;> first | rfl | nomatch h

/-- An assignment has no streams. -/
theorem arranges_assign {target value : Expression}
    (h : ArrangesAll shorthand? (actionsOf (walkBlock [.action (.assign target value) l])) x y) : y = x := by
  cases h with
  | cons ha hnil =>
    cases hnil
    have hstreams : y.streams = x.streams := ha.streams
    obtain ⟨_, d, ht, hrun⟩ := bind_eq_ok.mp ha.run
    obtain ⟨rfl, hd⟩ := pure_eq_ok.mp hrun
    have hsame : d = x.draft := by
      cases target <;> first | exact (pure_eq_ok.mp ht).2 | nomatch ht
    obtain ⟨streams, draft⟩ := y
    simp only at hstreams hd
    rw [hstreams, hd, hsame]

/-- A loop whose parts are blocks. -/
theorem generalLoop_replays {w z : Stage} {init update body : List Statement} {c : Option Expression}
    {first next inner condition : List Line} (hshape : loopShape init c update = .general) (l : String)
    (h₁ : UnderReplays hs shorthand? σ (depth + 2) first x y init)
    (hc : ∃ os, linesOf (depth + 1) os = condition ∧
      ∀ (C : Context) (block : List Statement) (parts : LoopParts) (l : String) (number : Nat)
        (scopes : List Frame), parts.condition = none →
        Replays hs os y y (⟨number, .loop C.path block.length⟩ :: scopes)
          (C.plug (block ++ [parts.statement l])) (conditionLine c)
          fun _ => C.plug (block ++ [LoopParts.statement { parts with condition := c } l]))
    (h₂ : UnderReplays hs shorthand? σ (depth + 2) next y z update)
    (h₃ : UnderReplays hs shorthand? σ (depth + 2) inner z w body) :
    StatementReplays hs shorthand? σ depth
      (⟨depth, "with for_():"⟩ :: ⟨depth + 1, "with for_init_():"⟩ :: first ++ condition
        ++ ⟨depth + 1, "with for_update_():"⟩ :: next ++ ⟨depth + 1, "with for_body_():"⟩ :: inner)
      x w (.loop init c update body l) := by
  obtain ⟨o₁, hline₁, hall₁⟩ := h₁.part .init
  obtain ⟨os, rfl, hall⟩ := hc
  obtain ⟨o₂, hline₂, hall₂⟩ := h₂.part .update
  obtain ⟨o₃, hline₃, hall₃⟩ := h₃.part .body
  obtain ⟨text, htext, hopens⟩ : Heads hs "with for_():" Build.openLoop :=
    heads_nothing (by decide) (by decide) loop_takes
  refine ⟨[.block text ([o₁] ++ (os ++ ([o₂] ++ [o₃])))], ?_, by simp, fun C block scopes hpath => ?_⟩
  · rw [linesOf, Outline.lines, ← htext, linesOf_append, linesOf_append, linesOf_append]
    simp only [linesOf, hline₁, hline₂, hline₃, List.append_nil]
    simp [partName]
  · rw [placed, hshape]
    have hat (number : Nat) (location : String) :
        Site.At C block ⟨C.plug block, scopes, number, location⟩ := ⟨hpath, rfl⟩
    have hstep (number : Nat) (location : String) :
        Build.openLoop (x.draft.moved ⟨C.plug block, scopes, number, location⟩) =
          .ok (number, x.draft.moved (Site.opened
            ⟨C.plug (block ++ [LoopParts.statement {} location]), scopes, number, location⟩
            (.loop C.path block.length))) := openLoop_run x.draft (hat number location)
    refine Replays.block (fun _ => rfl) hopens (by simp) hstep fun number location => ?_
    -- the loop grows with each of its parts
    refine .bind (hall₁ C block {} location number scopes) fun p => ?_
    refine .bind (hall C block _ location number scopes rfl) fun _ => ?_
    refine .bind (hall₂ C block _ location number scopes) fun q => .map ?_
    exact hall₃ C block _ location number scopes

mutual

theorem statement_replays : (s : Statement) → ∀ {depth : Nat} {x y : Stage} {lines : List Line}
    {names : List String}, (∀ t ∈ s.walk, t.HeadOver hs shorthand?) →
    Listing.statement shorthand? depth s x.names = .ok (lines, names) →
    ArrangesAll shorthand? (actionsOf s.walk) x y → Stage.Names shorthand? σ y →
    y.names = names ∧ StatementReplays hs shorthand? σ depth lines x y s
  | .action a l, _, _, _, _, _, ho, hl, ha, hσ => by
    rw [Listing.statement] at hl
    cases ha with
    | cons ha hnil =>
      cases hnil
      exact action_replays l (ho _ List.mem_cons_self) hl ha hσ
  | .conditional c u body elifs otherwise l, depth, x, w, lines, names, ho, hl, ha, hσ => by
    rw [walk, List.forall_mem_cons, List.forall_mem_append, List.forall_mem_append] at ho
    obtain ⟨⟨⟨hc, hcs⟩, -⟩, ⟨ho₁, ho₂⟩, ho₃⟩ := ho
    have ha : ArrangesAll shorthand? (actionsOf (walkBlock body ++ walkBranches elifs ++
      walkOtherwise otherwise)) x w := ha
    rw [actionsOf_append, actionsOf_append, arrangesAll_append] at ha
    obtain ⟨z, ha, ha₃⟩ := ha
    obtain ⟨y, ha₁, ha₂⟩ := arrangesAll_append.mp ha
    rw [Listing.statement] at hl
    obtain ⟨header, names₀, hh, hl⟩ := bind_eq_ok.mp hl
    obtain ⟨hheader, rfl⟩ := lift_eq_ok.mp hh
    obtain ⟨inner, names₁, hl₁, hl⟩ := bind_eq_ok.mp hl
    obtain ⟨others, names₂, hl₂, hl⟩ := bind_eq_ok.mp hl
    obtain ⟨last, names₃, hl₃, hl⟩ := bind_eq_ok.mp hl
    obtain ⟨rfl, rfl⟩ := pure_eq_ok.mp hl
    have hσ₂ := hσ.before (ha₃.extends (formed_of_headOver ho₃))
    have hσ₁ := hσ₂.before (ha₂.extends (formed_of_headOver ho₂))
    obtain ⟨rfl, hbody⟩ := block_replays body ho₁ hl₁ ha₁ hσ₁
    obtain ⟨rfl, os₂, rfl, hall₂⟩ := branches_replay elifs hcs ho₂ hl₂ ha₂ hσ₂
    obtain ⟨hnames, os₃, rfl, hall₃⟩ := otherwise_replays otherwise ho₃ hl₃ ha₃ hσ
    obtain ⟨o, hline, hall₁⟩ := if_replays hbody.under (heads_if hc hheader)
    refine ⟨hnames, [o] ++ (os₂ ++ os₃), by simp [linesOf_append, linesOf, hline], by simp,
      fun C block scopes hpath => ?_⟩
    rw [placed]
    refine Replays.bind (hall₁ hpath) fun p => ?_
    exact .bind (hall₂ hpath) fun es => .map (hall₃ hpath)
  | .loop init c update body l, depth, x, w, lines, names, ho, hl, ha, hσ => by
    rw [walk, List.forall_mem_cons, List.forall_mem_append, List.forall_mem_append] at ho
    obtain ⟨⟨hc, -⟩, ⟨ho₁, ho₂⟩, ho₃⟩ := ho
    have ha : ArrangesAll shorthand? (actionsOf (walkBlock init ++ walkBlock update ++
      walkBlock body)) x w := ha
    rw [actionsOf_append, actionsOf_append, arrangesAll_append] at ha
    obtain ⟨z, ha, ha₃⟩ := ha
    obtain ⟨y, ha₁, ha₂⟩ := arrangesAll_append.mp ha
    rw [Listing.statement] at hl
    obtain ⟨header, names₀, hh, hl⟩ := bind_eq_ok.mp hl
    obtain ⟨hheader, rfl⟩ := lift_eq_ok.mp hh
    have hσ₂ := hσ.before (ha₃.extends (formed_of_headOver ho₃))
    have hσ₁ := hσ₂.before (ha₂.extends (formed_of_headOver ho₂))
    have hfits := loopShape_fits init c update
    cases hshape : loopShape init c update with
    | general =>
      rw [hshape] at hl hheader
      obtain rfl := Except.ok.inj hheader
      obtain ⟨first, names₁, hl₁, hl⟩ := bind_eq_ok.mp hl
      obtain ⟨condition, names₂, hr, hl'⟩ := bind_eq_ok.mp (conditionLines_run hl)
      obtain ⟨hlc, rfl⟩ := lift_eq_ok.mp hr
      obtain ⟨next, names₃, hl₂, hl'⟩ := bind_eq_ok.mp hl'
      obtain ⟨inner, names₄, hl₃, hl'⟩ := bind_eq_ok.mp hl'
      obtain ⟨rfl, rfl⟩ := pure_eq_ok.mp hl'
      obtain ⟨rfl, h₁⟩ := block_replays init ho₁ hl₁ ha₁ hσ₁
      have hcondition := condition_replays (x := y) hc hlc
      obtain ⟨rfl, h₂⟩ := block_replays update ho₂ hl₂ ha₂ hσ₂
      obtain ⟨hnames, h₃⟩ := block_replays body ho₃ hl₃ ha₃ hσ
      exact ⟨hnames, generalLoop_replays hshape l h₁.under hcondition h₂.under h₃.under⟩
    | infinite =>
      rw [hshape] at hl hheader hfits
      obtain ⟨rfl, rfl, rfl⟩ := hfits
      obtain rfl := Except.ok.inj hheader
      obtain ⟨inner, names₁, hl₃, hl⟩ := bind_eq_ok.mp hl
      obtain ⟨rfl, rfl⟩ := pure_eq_ok.mp hl
      cases ha₁
      cases ha₂
      obtain ⟨hnames, h₃⟩ := block_replays body ho₃ hl₃ ha₃ hσ
      obtain ⟨os, hos, hne, hall⟩ := opening_replays
        (.loop [] (some (.bool true)) []) h₃.under
        (heads_nothing (by decide) (by decide) infiniteLoop_takes) fun l d => rfl
      refine ⟨hnames, os, hos, hne, fun C block scopes hpath => ?_⟩
      rw [placed, hshape]
      exact .map (hall hpath)
    | «while» condition =>
      rw [hshape] at hl hheader hfits
      obtain ⟨rfl, rfl, rfl⟩ := hfits
      obtain ⟨inner, names₁, hl₃, hl⟩ := bind_eq_ok.mp hl
      obtain ⟨rfl, rfl⟩ := pure_eq_ok.mp hl
      cases ha₁
      cases ha₂
      obtain ⟨hnames, h₃⟩ := block_replays body ho₃ hl₃ ha₃ hσ
      obtain ⟨os, hos, hne, hall⟩ := opening_replays (.loop [] (some condition) [])
        h₃.under (heads_while (hc condition rfl) hheader) fun l d => rfl
      refine ⟨hnames, os, hos, hne, fun C block scopes hpath => ?_⟩
      rw [placed, hshape]
      exact .map (hall hpath)
    | counted target first condition next =>
      rw [hshape] at hl hheader hfits
      obtain ⟨rfl, target', l₁, l₂, rfl, rfl, -⟩ := hfits
      obtain ⟨inner, names₁, hl₃, hl⟩ := bind_eq_ok.mp hl
      obtain ⟨rfl, rfl⟩ := pure_eq_ok.mp hl
      obtain rfl := arranges_assign ha₁
      obtain rfl := arranges_assign ha₂
      obtain ⟨hnames, h₃⟩ := block_replays body ho₃ hl₃ ha₃ hσ
      have hfirst := (ho₁ _ List.mem_cons_self).1
      have hnext := (ho₂ _ List.mem_cons_self).1
      have hover : ∀ e ∈ [target, first, condition, next], e.Over hs := by
        intro e he
        simp only [List.mem_cons, List.not_mem_nil, or_false] at he
        obtain rfl | rfl | rfl | rfl := he
        · exact hfirst.expressions e List.mem_cons_self
        · exact hfirst.expressions e (List.mem_cons_of_mem _ List.mem_cons_self)
        · exact hc e rfl
        · exact hnext.expressions e (List.mem_cons_of_mem _ List.mem_cons_self)
      obtain ⟨os, hos, hne, hall⟩ := opening_replays
        (fun l => .loop [.action (.assign target first) l] (some condition)
          [.action (.assign target next) l] l) h₃.under (heads_counted hover hheader) fun l d => by
          rw [Opening.hole, bind_run, assignTarget_place hfirst.formed]
          rfl
      refine ⟨hnames, os, hos, hne, fun C block scopes hpath => ?_⟩
      rw [placed, hshape]
      exact .map (hall hpath)
  | .forEach iterators body l, depth, x, y, lines, names, ho, hl, ha, hσ => by
    rw [walk, List.forall_mem_cons] at ho
    rw [Listing.statement] at hl
    obtain ⟨inner, names', hb, hl⟩ := bind_eq_ok.mp hl
    obtain ⟨rfl, rfl⟩ := pure_eq_ok.mp hl
    obtain ⟨hnames, hreplays⟩ := block_replays body ho.2 hb ha hσ
    obtain ⟨os, hos, hne, hall⟩ := opening_replays (.forEach iterators) hreplays.under
      (heads_forEach ho.1.1.1 ho.1.1.2) fun l d => by
        rw [Opening.hole, bind_run, iterators_run ho.1.1.1]
        rfl
    exact ⟨hnames, os, hos, hne, fun C block scopes hpath => .map (hall hpath)⟩
  | .strictTiming body l, depth, x, y, lines, names, ho, hl, ha, hσ => by
    rw [walk, List.forall_mem_cons] at ho
    rw [Listing.statement] at hl
    obtain ⟨inner, names', hb, hl⟩ := bind_eq_ok.mp hl
    obtain ⟨rfl, rfl⟩ := pure_eq_ok.mp hl
    obtain ⟨hnames, hreplays⟩ := block_replays body ho.2 hb ha hσ
    obtain ⟨os, hos, hne, hall⟩ := opening_replays .strictTiming hreplays.under
      (heads_nothing (by decide) (by decide) strictTiming_takes) fun l d => rfl
    exact ⟨hnames, os, hos, hne, fun C block scopes hpath => .map (hall hpath)⟩

theorem block_replays : (b : List Statement) → ∀ {depth : Nat} {x y : Stage} {lines : List Line}
    {names : List String}, (∀ t ∈ walkBlock b, t.HeadOver hs shorthand?) →
    Listing.block shorthand? depth b x.names = .ok (lines, names) →
    ArrangesAll shorthand? (actionsOf (walkBlock b)) x y → Stage.Names shorthand? σ y →
    y.names = names ∧ BlockReplays hs shorthand? σ depth lines x y b
  | [], depth, x, y, lines, names, ho, hl, ha, hσ => by
    rw [Listing.block] at hl
    obtain ⟨rfl, rfl⟩ := pure_eq_ok.mp hl
    cases ha
    refine ⟨rfl, fun _ => rfl, [], rfl, by simp, fun C block scopes hpath => ?_⟩
    have hp : Replays hs [] x x scopes _ _ _ := .pure [] (fun ss => C.plug (block ++ ss)) x scopes
    rwa [List.append_nil] at hp
  | s :: rest, depth, x, z, lines, names, ho, hl, ha, hσ => by
    rw [walkBlock, List.forall_mem_append] at ho
    rw [walkBlock, actionsOf_append, arrangesAll_append] at ha
    obtain ⟨y, ha, ha'⟩ := ha
    rw [Listing.block] at hl
    obtain ⟨first, names₁, hs₁, hl⟩ := bind_eq_ok.mp hl
    obtain ⟨others, names₂, hs₂, hl⟩ := bind_eq_ok.mp hl
    obtain ⟨rfl, rfl⟩ := pure_eq_ok.mp hl
    have hσ' := hσ.before (ha'.extends (formed_of_headOver ho.2))
    obtain ⟨rfl, os, rfl, hne, hall⟩ := statement_replays s ho.1 hs₁ ha hσ'
    obtain ⟨hnames, -, os', rfl, -, hall'⟩ := block_replays rest ho.2 hs₂ ha' hσ
    refine ⟨hnames, fun h => (nomatch h), os ++ os', linesOf_append _ _ _, by simp [hne],
      fun C block scopes hpath => ?_⟩
    rw [placedBlock]
    refine (hall hpath).bind fun s => .map ?_
    have hrest := @hall' C (block ++ [s]) scopes hpath
    simpa only [List.append_assoc, List.singleton_append] using hrest

theorem branches_replay : (b : List (Branch Statement)) → ∀ {depth : Nat} {x y : Stage}
    {lines : List Line} {names : List String}, (∀ branch ∈ b, branch.condition.Over hs) →
    (∀ t ∈ walkBranches b, t.HeadOver hs shorthand?) →
    Listing.branches shorthand? depth b x.names = .ok (lines, names) →
    ArrangesAll shorthand? (actionsOf (walkBranches b)) x y → Stage.Names shorthand? σ y →
    y.names = names ∧ BranchesReplay hs shorthand? σ depth lines x y b
  | [], depth, x, y, lines, names, hc, ho, hl, ha, hσ => by
    rw [Listing.branches] at hl
    obtain ⟨rfl, rfl⟩ := pure_eq_ok.mp hl
    cases ha
    refine ⟨rfl, [], rfl, fun C block scopes c u first elifs l hpath => ?_⟩
    have hp : Replays hs [] x x scopes _ _ _ := .pure []
      (fun es => C.plug (block ++ [.conditional c u first (elifs ++ es) none l])) x scopes
    rwa [List.append_nil] at hp
  | ⟨taken, body, _⟩ :: rest, depth, x, z, lines, names, hc, ho, hl, ha, hσ => by
    rw [List.forall_mem_cons] at hc
    rw [walkBranches, List.forall_mem_append] at ho
    rw [walkBranches, actionsOf_append, arrangesAll_append] at ha
    obtain ⟨y, ha, ha'⟩ := ha
    rw [Listing.branches] at hl
    obtain ⟨header, names₁, hh, hl⟩ := bind_eq_ok.mp hl
    obtain ⟨hheader, rfl⟩ := lift_eq_ok.mp hh
    obtain ⟨inner, names₂, hb, hl⟩ := bind_eq_ok.mp hl
    obtain ⟨others, names₃, hr, hl⟩ := bind_eq_ok.mp hl
    obtain ⟨rfl, rfl⟩ := pure_eq_ok.mp hl
    have hσ' := hσ.before (ha'.extends (formed_of_headOver ho.2))
    obtain ⟨rfl, hreplays⟩ := block_replays body ho.1 hb ha hσ'
    obtain ⟨hnames, os, rfl, hall'⟩ := branches_replay rest hc.2 ho.2 hr ha' hσ
    obtain ⟨o, hline, hall⟩ := elif_replays hreplays.under (heads_elif hc.1 hheader)
    refine ⟨hnames, o :: os, by rw [linesOf, hline], fun C block scopes c u first elifs l hpath => ?_⟩
    rw [placedBranches]
    refine (hall hpath).bind (f := fun p => do
      let others ← placedBranches shorthand? σ l rest
      return ⟨taken, p.2, l⟩ :: others) fun p => .map ?_
    have hrest := @hall' C block scopes c u first (elifs ++ [⟨taken, p.2, l⟩]) l hpath
    simpa only [List.append_assoc, List.singleton_append] using hrest

theorem otherwise_replays : (b : Option (List Statement)) → ∀ {depth : Nat} {x y : Stage}
    {lines : List Line} {names : List String}, (∀ t ∈ walkOtherwise b, t.HeadOver hs shorthand?) →
    Listing.alternative shorthand? depth b x.names = .ok (lines, names) →
    ArrangesAll shorthand? (actionsOf (walkOtherwise b)) x y → Stage.Names shorthand? σ y →
    y.names = names ∧ OtherwiseReplays hs shorthand? σ depth lines x y b
  | none, depth, x, y, lines, names, ho, hl, ha, hσ => by
    rw [Listing.alternative] at hl
    obtain ⟨rfl, rfl⟩ := pure_eq_ok.mp hl
    cases ha
    exact ⟨rfl, [], rfl, fun C block scopes c u first elifs l hpath =>
      .pure none (fun o => C.plug (block ++ [.conditional c u first elifs o l])) x scopes⟩
  | some body, depth, x, y, lines, names, ho, hl, ha, hσ => by
    rw [Listing.alternative] at hl
    obtain ⟨inner, names₁, hb, hl⟩ := bind_eq_ok.mp hl
    obtain ⟨rfl, rfl⟩ := pure_eq_ok.mp hl
    obtain ⟨hnames, hreplays⟩ := block_replays body ho hb ha hσ
    obtain ⟨o, hline, hall⟩ := else_replays hreplays.under
    refine ⟨hnames, [o], by rw [linesOf, hline, linesOf, List.append_nil],
      fun C block scopes c u first elifs l hpath => ?_⟩
    rw [placedOtherwise]
    exact .map (hall hpath)

end

end

end Qua
