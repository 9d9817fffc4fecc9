import Qua.Program.Listing
import Qua.Proofs.Printing.Streams

/-!
# Programs that can be printed

A program can be printed if its parts can. Main statement: `Draft.Meets.renders`.
-/

namespace Qua

section
variable {α β : Type} {H : Hazard → Prop}

/-- Writing the part fails for no other reason than a hazard, whatever streams have been declared. -/
def Listing.Prints (H : Hazard → Prop) (part : Listing α) : Prop := ∀ declared, Renders H (part declared)

namespace Listing

namespace Prints

theorem pure (a : α) : Prints H (Pure.pure a : Listing α) := fun _ => .ok _

theorem bind {part : Listing α} {next : α → Listing β} (h : Prints H part)
    (hn : ∀ a, Prints H (next a)) : Prints H (part >>= next) := by
  intro declared e he
  rw [bind_run] at he
  cases hp : part declared with
  | error e' =>
    simp only [hp] at he
    obtain rfl := Except.error.inj he
    exact h declared hp
  | ok result =>
    simp only [hp] at he
    exact hn _ _ he

theorem lift {text : Except RenderError α} (h : Renders H text) : Prints H (liftM text : Listing α) :=
  fun _ => h.bind fun _ _ => .ok _

theorem get_state : Prints H (get : Listing (List String)) := fun _ => .ok _

theorem modify_state (f : List String → List String) : Prints H (modify f : Listing PUnit) := fun _ => .ok _

theorem mapM {f : α → Listing β} {as : List α} (h : ∀ a ∈ as, Prints H (f a)) : Prints H (as.mapM f) := by
  induction as with
  | nil => exact pure []
  | cons a as ih =>
    obtain ⟨ha, has⟩ := List.forall_mem_cons.mp h
    rw [List.mapM_cons]
    exact ha.bind fun _ => (ih has).bind fun _ => .pure _

end Prints

variable (shorthand? : String → Option String)

theorem prints_declareStream (depth : Nat) (name : String) : Prints H (declareStream depth name) := by
  refine Prints.get_state.bind fun declared => ?_
  split
  · exact .pure _
  · exact (Prints.modify_state _).bind fun _ => .pure _

theorem prints_declareStreams (depth : Nat) (names : List String) :
    Prints H (declareStreams shorthand? depth names) := by
  induction names with
  | nil => exact .pure _
  | cons name names ih =>
    have hrest (first : List Line) : Prints H (do
        let lines ← declareStreams shorthand? depth names
        return first ++ lines) := ih.bind fun _ => .pure _
    rw [declareStreams]
    split
    · exact (Prints.pure []).bind hrest
    · exact (prints_declareStream depth name).bind hrest

theorem prints_action (depth : Nat) {a : Action} (h : (printing H).action a) :
    Prints H (action shorthand? depth a) := by
  have htext : Renders H (a.mapStreams (writtenStream shorthand?)).render := by
    refine Action.renders ?_
    rw [Action.expressions_mapStreams]
    exact h
  exact (prints_declareStreams shorthand? depth _).bind fun _ => (Prints.lift htext).bind fun _ => .pure _

end Listing

-- ---------------------------------------------------------------------------
-- Lines that open blocks
-- ---------------------------------------------------------------------------

theorem renders_ifHeader {condition : Expression} (h : Renders H condition.render) (isUnsafe : Bool) :
    Renders H (ifHeader condition isUnsafe) :=
  h.bind fun _ _ => .ok _

theorem renders_elifHeader {condition : Expression} (h : Renders H condition.render) :
    Renders H (elifHeader condition) :=
  h.bind fun _ _ => .ok _

/-- The line of a loop is made of its condition and of assignments before and after each round. -/
theorem renders_loopHeader {init update : List Statement} {condition : Option Expression}
    (hi : Statement.AllMeet (printing H) init) (hc : ∀ e ∈ condition, Renders H e.render)
    (hu : Statement.AllMeet (printing H) update) : Renders H (loopShape init condition update).header := by
  unfold loopShape
  split
  · exact .ok _
  · next condition =>
    have hcondition : Renders H condition.render := hc _ rfl
    split
    · split
      · exact .ok _
      · exact hcondition.bind fun _ _ => .ok _
    · next target first _ target' next _ =>
      have hfirst : ∀ e ∈ [target, first], Renders H e.render := hi.1
      have hnext : ∀ e ∈ [target', next], Renders H e.render := hu.1
      split
      · have hparts : ∀ e ∈ [target, first, condition, next], Renders H e.render := by simp_all
        exact (renders_joined "," hparts).bind fun _ _ => .ok _
      · exact .ok _
    · exact .ok _

namespace Listing

-- ---------------------------------------------------------------------------
-- Blocks
-- ---------------------------------------------------------------------------

variable (shorthand? : String → Option String)

mutual

theorem prints_statement (depth : Nat) : ∀ s : Statement, s.Meets (printing H) →
    Prints H (statement shorthand? depth s)
  | .action _ _, h => prints_action shorthand? depth h
  | .conditional condition isUnsafe body elifs otherwise _, ⟨hc, hb, he, ho⟩ => by
    rw [statement]
    exact (Prints.lift (renders_ifHeader hc isUnsafe)).bind fun _ =>
      (prints_block (depth + 1) body hb).bind fun _ => (prints_branches depth elifs he).bind fun _ =>
        (prints_alternative depth otherwise ho).bind fun _ => .pure _
  | .loop init condition update body _, ⟨hc, hi, hu, hb⟩ => by
    rw [statement]
    refine (Prints.lift (renders_loopHeader hi hc hu)).bind fun _ => ?_
    split
    · refine (prints_block (depth + 2) init hi).bind fun _ => ?_
      have hrest (condition : List Line) (lines : List Line → List Line → List Line) : Prints H (do
          let update ← block shorthand? (depth + 2) update
          let body ← block shorthand? (depth + 2) body
          return lines update body) :=
        (prints_block (depth + 2) update hu).bind fun _ =>
          (prints_block (depth + 2) body hb).bind fun _ => .pure _
      cases condition with
      | none => exact (Prints.pure _).bind fun condition => hrest condition _
      | some condition =>
        exact (Prints.lift (hc _ rfl)).bind fun _ => (Prints.pure _).bind fun condition => hrest condition _
    · exact (prints_block (depth + 1) body hb).bind fun _ => .pure _
  | .forEach _ body _, ⟨_, hb⟩ => by
    rw [statement]
    exact (prints_block (depth + 1) body hb).bind fun _ => .pure _
  | .strictTiming body _, h => by
    rw [statement]
    exact (prints_block (depth + 1) body h).bind fun _ => .pure _

theorem prints_block (depth : Nat) : ∀ body : List Statement, Statement.AllMeet (printing H) body →
    Prints H (block shorthand? depth body)
  | [], _ => .pure _
  | s :: rest, ⟨hs, hrest⟩ => by
    rw [block]
    exact (prints_statement depth s hs).bind fun _ => (prints_block depth rest hrest).bind fun _ => .pure _

theorem prints_branches (depth : Nat) : ∀ elifs : List (Branch Statement),
    Statement.BranchesMeet (printing H) elifs → Prints H (branches shorthand? depth elifs)
  | [], _ => .pure _
  | ⟨condition, body, _⟩ :: rest, ⟨⟨hc, hb⟩, hrest⟩ => by
    rw [branches]
    exact (Prints.lift (renders_elifHeader hc)).bind fun _ => (prints_block (depth + 1) body hb).bind fun _ =>
      (prints_branches depth rest hrest).bind fun _ => .pure _

theorem prints_alternative (depth : Nat) : ∀ otherwise : Option (List Statement),
    Statement.OtherwiseMeets (printing H) otherwise → Prints H (alternative shorthand? depth otherwise)
  | none, _ => .pure _
  | some body, h => by
    rw [alternative]
    exact (prints_block (depth + 1) body h).bind fun _ => .pure _

end

-- ---------------------------------------------------------------------------
-- The whole program
-- ---------------------------------------------------------------------------

/-- Saves that follow from the body are not printed. -/
theorem prints_results (depth : Nat) {saves : List SaveEntry} (h : ∀ entry ∈ saves, (printing H).save entry) :
    Prints H (results shorthand? depth saves) := by
  unfold results
  dsimp only
  split
  · exact .pure _
  · refine (prints_declareStreams shorthand? depth _).bind fun _ =>
      (Prints.mapM fun entry he => ?_).bind fun _ => .pure _
    obtain ⟨hmem, hauto⟩ := List.mem_filter.mp he
    exact (Prints.lift (SaveEntry.renders (h entry hmem (by simpa using hauto)))).bind fun _ => .pure _

end Listing

/-- A program can be printed if its parts can. -/
theorem Draft.Meets.renders {d : Draft} (h : d.Meets (printing H)) : Renders H d.program.text := by
  have hprogram : Listing.Prints H (Listing.program d.program) := by
    refine .bind (.mapM fun x hx => ?_) fun _ => .bind (Listing.prints_block _ _ _ h.body) fun _ =>
      .bind (Listing.prints_results _ _ h.saves) fun _ => .pure _
    exact .bind (.lift (Declaration.renders (h.declarations x hx))) fun _ => .pure _
  have hlines : Renders H d.program.lines := by
    refine Renders.bind ?_ fun _ _ => .ok _
    exact (hprogram []).map _
  exact hlines.map _

end
end Qua
