import Qua.Proofs.Build.Discipline

/-!
# What is asked of all parts of a draft

A step of a build adds parts to a draft and leaves the others as they are: declarations, saves, actions, and
the conditions of blocks. What is asked of every part then holds of the draft if it holds of what the steps
add. Main definition: `Draft.Meets`.
-/

namespace Qua

-- ---------------------------------------------------------------------------
-- Demands
-- ---------------------------------------------------------------------------

/-- What is asked of the parts of a draft. -/
structure Demands where
  declaration : Declaration → Prop
  action : Action → Prop
  /-- Of conditions, and of the values of switches. -/
  expression : Expression → Prop
  /-- Of what a loop over arrays runs through. -/
  iterators : List Iterator → Prop
  save : SaveEntry → Prop
  /-- A case compares its value with that of the switch. -/
  case : ∀ {value label}, expression value → expression label → expression (.binary .eq value label)

section
variable (D : Demands)

mutual

/-- The actions and conditions of a statement, and of those in it, are as demanded. -/
def Statement.Meets : Statement → Prop
  | .action a _ => D.action a
  | .conditional condition _ body elifs otherwise _ =>
    D.expression condition ∧ Statement.AllMeet body ∧ Statement.BranchesMeet elifs ∧
      Statement.OtherwiseMeets otherwise
  | .loop init condition update body _ =>
    (∀ e ∈ condition, D.expression e) ∧ Statement.AllMeet init ∧ Statement.AllMeet update ∧
      Statement.AllMeet body
  | .forEach iterators body _ => D.iterators iterators ∧ Statement.AllMeet body
  | .strictTiming body _ => Statement.AllMeet body

def Statement.AllMeet : List Statement → Prop
  | [] => True
  | s :: rest => s.Meets ∧ Statement.AllMeet rest

def Statement.BranchesMeet : List (Branch Statement) → Prop
  | [] => True
  | ⟨condition, body, _⟩ :: rest =>
    (D.expression condition ∧ Statement.AllMeet body) ∧ Statement.BranchesMeet rest

def Statement.OtherwiseMeets : Option (List Statement) → Prop
  | none => True
  | some body => Statement.AllMeet body

end

/-- The action or the conditions of a statement are as demanded, whatever is in it. -/
def Statement.HeadMeets : Statement → Prop
  | .action a _ => D.action a
  | .conditional condition _ _ elifs _ _ =>
    D.expression condition ∧ ∀ branch ∈ elifs, D.expression branch.condition
  | .loop _ condition _ _ _ => ∀ e ∈ condition, D.expression e
  | .forEach iterators _ _ => D.iterators iterators
  | .strictTiming .. => True

def Branch.Meets (b : Branch Statement) : Prop := D.expression b.condition ∧ Statement.AllMeet D b.body

def Scope.Meets : Scope → Prop
  | .switch _ value _ _ => D.expression value
  | _ => True

/-- All parts of the draft are as demanded, and the cases of open switches will be. -/
structure Draft.Meets (d : Draft) : Prop where
  declarations : ∀ x ∈ d.program.declarations, D.declaration x
  body : Statement.AllMeet D d.program.body
  saves : ∀ entry ∈ d.program.results.entries, D.save entry
  scopes : ∀ frame ∈ d.scopes, frame.scope.Meets D

end

section
variable {D : Demands}

theorem Statement.allMeet_iff {block : List Statement} : AllMeet D block ↔ ∀ s ∈ block, s.Meets D := by
  induction block with
  | nil => simp [AllMeet]
  | cons s rest ih => simp [AllMeet, ih]

theorem Statement.branchesMeet_iff {branches : List (Branch Statement)} :
    BranchesMeet D branches ↔ ∀ b ∈ branches, b.Meets D := by
  induction branches with
  | nil => simp [BranchesMeet]
  | cons b rest ih => simp [BranchesMeet, ih, Branch.Meets]

namespace Statement

mutual

/-- Wherever a statement is in one that is as demanded, its own parts are. -/
theorem headMeets_walk : ∀ s : Statement, s.Meets D → ∀ x ∈ s.walk, x.HeadMeets D
  | .action _ _, h => List.forall_mem_singleton.mpr h
  | .conditional _ _ body elifs otherwise _, ⟨hc, hb, he, ho⟩ => by
    rw [walk, List.forall_mem_cons, List.forall_mem_append, List.forall_mem_append]
    exact ⟨⟨hc, fun branch hm => (branchesMeet_iff.mp he branch hm).1⟩,
      ⟨headMeets_walkBlock body hb, headMeets_walkBranches elifs he⟩, headMeets_walkOtherwise otherwise ho⟩
  | .loop init _ update body _, ⟨hc, hi, hu, hb⟩ => by
    rw [walk, List.forall_mem_cons, List.forall_mem_append, List.forall_mem_append]
    exact ⟨hc, ⟨headMeets_walkBlock init hi, headMeets_walkBlock update hu⟩, headMeets_walkBlock body hb⟩
  | .forEach _ body _, ⟨hi, hb⟩ => by
    rw [walk, List.forall_mem_cons]
    exact ⟨hi, headMeets_walkBlock body hb⟩
  | .strictTiming body _, h => by
    rw [walk, List.forall_mem_cons]
    exact ⟨trivial, headMeets_walkBlock body h⟩

theorem headMeets_walkBlock : ∀ body : List Statement, AllMeet D body → ∀ x ∈ walkBlock body, x.HeadMeets D
  | [], _ => List.forall_mem_nil _
  | s :: rest, ⟨hs, hrest⟩ => by
    rw [walkBlock, List.forall_mem_append]
    exact ⟨headMeets_walk s hs, headMeets_walkBlock rest hrest⟩

theorem headMeets_walkBranches : ∀ elifs : List (Branch Statement), BranchesMeet D elifs →
    ∀ x ∈ walkBranches elifs, x.HeadMeets D
  | [], _ => List.forall_mem_nil _
  | ⟨_, body, _⟩ :: rest, ⟨⟨_, hb⟩, hrest⟩ => by
    rw [walkBranches, List.forall_mem_append]
    exact ⟨headMeets_walkBlock body hb, headMeets_walkBranches rest hrest⟩

theorem headMeets_walkOtherwise : ∀ otherwise : Option (List Statement), OtherwiseMeets D otherwise →
    ∀ x ∈ walkOtherwise otherwise, x.HeadMeets D
  | none, _ => List.forall_mem_nil _
  | some body, h => headMeets_walkBlock body h

end

end Statement

theorem Statement.meets_conditional {condition : Expression} (h : D.expression condition) (isUnsafe : Bool)
    (location : String) : (Statement.conditional condition isUnsafe [] [] none location).Meets D :=
  ⟨h, trivial, trivial, trivial⟩

theorem Statement.meets_loop {condition : Option Expression} (h : ∀ e ∈ condition, D.expression e)
    (location : String) : (Statement.loop [] condition [] [] location).Meets D :=
  ⟨h, trivial, trivial, trivial⟩

theorem Draft.meets_empty : Draft.Meets D {} :=
  ⟨List.forall_mem_nil _, trivial, List.forall_mem_nil _, List.forall_mem_singleton.mpr trivial⟩

/-- Only the parts of a draft matter. -/
theorem Draft.Meets.of_eq {d t : Draft} (h : d.Meets D)
    (hd : t.program.declarations = d.program.declarations) (hb : t.program.body = d.program.body)
    (hr : t.program.results = d.program.results) (hs : t.scopes = d.scopes) : t.Meets D :=
  ⟨hd ▸ h.declarations, hb ▸ h.body, hr ▸ h.saves, hs ▸ h.scopes⟩

-- ---------------------------------------------------------------------------
-- Edits
-- ---------------------------------------------------------------------------

/-- Edits of a part that keep it as demanded. -/
abbrev Edit.Keeps (P : σ → Prop) (change : Edit σ α) : Prop := Preserves P (fun _ => True) change

namespace Edit

theorem Keeps.atIndex {P : σ → Prop} {change : Edit σ α} (h : Keeps P change) (index : Nat) :
    Keeps (fun items => ∀ x ∈ items, P x) (atIndex index change) := by
  intro items a items' hp ha
  refine ⟨trivial, ?_⟩
  unfold Edit.atIndex at ha
  split at ha
  · cases ha
  · next x hi =>
    split at ha
    · cases ha
    · next result x' hx =>
      obtain ⟨-, rfl⟩ := Prod.mk.inj (Except.ok.inj ha)
      intro y hy
      obtain hy | rfl := List.mem_or_eq_of_mem_set hy
      · exact hp y hy
      · exact (h (hp x (List.mem_of_getElem? hi)) hx).2

/-- An edit of a part makes the whole of a part that is as demanded. -/
theorem Keeps.within {P : σ → Prop} {whole : σ → τ} {change : Edit σ α} {part : σ} (h : Keeps P change)
    (hp : P part) (ha : within part whole change = .ok (a, x)) : ∃ part', x = whole part' ∧ P part' := by
  unfold Edit.within at ha
  split at ha
  · cases ha
  · next result part' hx =>
    obtain ⟨-, rfl⟩ := Prod.mk.inj (Except.ok.inj ha)
    exact ⟨part', rfl, (h hp hx).2⟩

theorem Keeps.inBranch {change : Edit (List Statement) α} (h : Keeps (Statement.AllMeet D) change) :
    Keeps (Branch.Meets D) (inBranch change) := by
  rintro ⟨c, body, l⟩ a b' ⟨hc, hb⟩ ha
  obtain ⟨body', rfl, hb'⟩ := h.within hb ha
  exact ⟨trivial, hc, hb'⟩

theorem Keeps.inBlock {change : Edit (List Statement) α} (h : Keeps (Statement.AllMeet D) change)
    (selector : Selector) : Keeps (Statement.Meets D) (inBlock selector change) := by
  intro s a s' hs ha
  refine ⟨trivial, ?_⟩
  unfold Edit.inBlock at ha
  split at ha
  · obtain ⟨hc, hb, he, ho⟩ := hs
    obtain ⟨body', rfl, hb'⟩ := h.within hb ha
    exact ⟨hc, hb', he, ho⟩
  · obtain ⟨hc, hb, he, ho⟩ := hs
    obtain ⟨elifs', rfl, he'⟩ := (h.inBranch.atIndex _).within (Statement.branchesMeet_iff.mp he) ha
    exact ⟨hc, hb, Statement.branchesMeet_iff.mpr he', ho⟩
  · obtain ⟨hc, hb, he, ho⟩ := hs
    obtain ⟨block, rfl, ho'⟩ := h.within ho ha
    exact ⟨hc, hb, he, ho'⟩
  · obtain ⟨hc, hi, hu, hb⟩ := hs
    obtain ⟨block, rfl, hb'⟩ := h.within hb ha
    exact ⟨hc, hi, hu, hb'⟩
  · obtain ⟨hc, hi, hu, hb⟩ := hs
    obtain ⟨block, rfl, hi'⟩ := h.within hi ha
    exact ⟨hc, hi', hu, hb⟩
  · obtain ⟨hc, hi, hu, hb⟩ := hs
    obtain ⟨block, rfl, hu'⟩ := h.within hu ha
    exact ⟨hc, hi, hu', hb⟩
  · obtain ⟨hi, hb⟩ := hs
    obtain ⟨block, rfl, hb'⟩ := h.within hb ha
    exact ⟨hi, hb'⟩
  · obtain ⟨block, rfl, hb'⟩ := h.within hs ha
    exact hb'
  · cases ha

theorem Keeps.atIndexOfBlock {change : Edit Statement α} (h : Keeps (Statement.Meets D) change)
    (index : Nat) : Keeps (Statement.AllMeet D) (Edit.atIndex index change) := by
  intro block a block' hb ha
  obtain ⟨-, hb'⟩ := h.atIndex index (Statement.allMeet_iff.mp hb) ha
  exact ⟨trivial, Statement.allMeet_iff.mpr hb'⟩

theorem Keeps.atPath {change : Edit (List Statement) α} (h : Keeps (Statement.AllMeet D) change)
    (path : Path) : Keeps (Statement.AllMeet D) (atPath path change) := by
  induction path with
  | nil => exact h
  | cons step path ih => exact (ih.inBlock step.2).atIndexOfBlock step.1

theorem keeps_push {s : Statement} (h : s.Meets D) : Keeps (Statement.AllMeet D) (push s) := by
  rintro block _ _ hb ⟨⟩
  refine ⟨trivial, Statement.allMeet_iff.mpr ?_⟩
  exact List.forall_mem_append.mpr ⟨Statement.allMeet_iff.mp hb, List.forall_mem_singleton.mpr h⟩

/-- An edit that changes nothing. -/
theorem keeps_of_eq {P : σ → Prop} {change : Edit σ α} (h : ∀ ⦃x a x'⦄, change x = .ok (a, x') → x' = x) :
    Keeps P change :=
  fun _ _ _ hp hx => ⟨trivial, h hx ▸ hp⟩

theorem keeps_lastConditional (missing : BuildError) :
    Keeps (Statement.AllMeet D) (lastConditional missing) := by
  refine keeps_of_eq fun block a block' h => ?_
  unfold lastConditional at h
  split at h
  · exact (Prod.mk.inj (Except.ok.inj h)).2.symm
  · cases h

theorem keeps_refuseOtherwise (e : BuildError) : Keeps (Statement.Meets D) (refuseOtherwise e) := by
  refine keeps_of_eq fun s a s' h => ?_
  unfold refuseOtherwise at h
  split at h
  · split at h
    · cases h
    · exact (Prod.mk.inj (Except.ok.inj h)).2.symm
  · cases h

theorem keeps_addElif {condition : Expression} (hc : D.expression condition) :
    Keeps (Statement.Meets D) (addElif condition) := by
  intro s a s' hs h
  unfold addElif at h
  split at h
  · obtain ⟨-, rfl⟩ := Prod.mk.inj (Except.ok.inj h)
    obtain ⟨hfirst, hb, he, ho⟩ := hs
    refine ⟨trivial, hfirst, hb, Statement.branchesMeet_iff.mpr ?_, ho⟩
    exact List.forall_mem_append.mpr
      ⟨Statement.branchesMeet_iff.mp he, List.forall_mem_singleton.mpr ⟨hc, trivial⟩⟩
  · cases h

theorem keeps_addOtherwise (duplicate : BuildError) :
    Keeps (Statement.Meets D) (addOtherwise duplicate) := by
  intro s a s' hs h
  unfold addOtherwise at h
  split at h
  · split at h
    · obtain ⟨-, rfl⟩ := Prod.mk.inj (Except.ok.inj h)
      obtain ⟨hc, hb, he, -⟩ := hs
      exact ⟨trivial, hc, hb, he, trivial⟩
    · cases h
  · cases h

theorem keeps_setCondition {condition : Expression} (hc : D.expression condition) :
    Keeps (Statement.Meets D) (setCondition condition) := by
  intro s a s' hs h
  unfold setCondition at h
  split at h
  · obtain ⟨-, rfl⟩ := Prod.mk.inj (Except.ok.inj h)
    obtain ⟨-, hi, hu, hb⟩ := hs
    refine ⟨trivial, ?_, hi, hu, hb⟩
    rintro _ ⟨⟩
    exact hc
  · cases h

end Edit

-- ---------------------------------------------------------------------------
-- Steps
-- ---------------------------------------------------------------------------

/-- From a draft as demanded, the step gives results with the property and leaves a draft as demanded. -/
abbrev Build.Sound (D : Demands) (P : α → Prop) (step : Build α) : Prop := Preserves (Draft.Meets D) P step

/-- A step that adds only what is demanded. -/
abbrev Build.Keeps (D : Demands) (step : Build α) : Prop := Build.Sound D (fun _ => True) step

namespace Build

theorem Sound.keeps {P : α → Prop} {step : Build α} (h : Sound D P step) : Keeps D step :=
  h.mono fun _ _ => trivial

theorem keeps_modify {f : Draft → Draft} (hd : ∀ d, (f d).program.declarations = d.program.declarations)
    (hb : ∀ d, (f d).program.body = d.program.body) (hr : ∀ d, (f d).program.results = d.program.results)
    (hs : ∀ d, (f d).scopes = d.scopes) : Keeps D (modify f) :=
  .modify_state fun d h => h.of_eq (hd d) (hb d) (hr d) (hs d)

theorem keeps_modifyMetadata (f : Metadata → Metadata) : Keeps D (modifyMetadata f) :=
  keeps_modify (fun _ => rfl) (fun _ => rfl) (fun _ => rfl) fun _ => rfl

/-- The innermost scope is as demanded. -/
theorem sound_innermost : Sound D (fun scope => ∀ s ∈ scope, s.Meets D) innermost := by
  refine Preserves.get_state.bind fun d hd => .pure fun s hs => ?_
  obtain ⟨frame, hf, rfl⟩ := Option.map_eq_some_iff.mp hs
  exact hd.scopes frame (List.mem_of_mem_head? hf)

theorem keeps_bodyPath : Keeps D bodyPath := by
  refine sound_innermost.bind fun scope _ => ?_
  split <;> first | exact .pure trivial | exact .throw _

theorem keeps_innermostLoop : Keeps D innermostLoop := by
  refine sound_innermost.bind fun scope _ => ?_
  split <;> first | exact .pure trivial | exact .throw _

theorem keeps_openScope {scope : Scope} (h : scope.Meets D) : Keeps D (openScope scope) := by
  rintro d _ _ hd ⟨⟩
  exact ⟨trivial, hd.declarations, hd.body, hd.saves, List.forall_mem_cons.mpr ⟨h, hd.scopes⟩⟩

theorem keeps_openBody (path : Path) : Keeps D (openScope (.body path)) := keeps_openScope trivial

theorem keeps_closeScope (number : Nat) : Keeps D (closeScope number) := by
  intro d _ t hd h
  obtain ⟨scope, outer, hs, -, hrun⟩ | ⟨-, hrun⟩ := closeScope_cases d number
  · rw [hrun] at h
    obtain ⟨-, rfl⟩ := Prod.mk.inj (Except.ok.inj h)
    have hall := hd.scopes
    rw [hs] at hall
    exact ⟨trivial, hd.declarations, hd.body, hd.saves, (List.forall_mem_cons.mp hall).2⟩
  · rw [hrun] at h
    cases h

theorem keeps_edit {change : Edit (List Statement) α} (h : Edit.Keeps (Statement.AllMeet D) change)
    (path : Path) : Keeps D (edit path change) := by
  intro d a t hd ht
  rw [edit, bind_run, get_run] at ht
  cases hp : Edit.atPath path change d.program.body with
  | error e =>
    simp only [hp] at ht
    cases ht
  | ok result =>
    simp only [hp] at ht
    obtain ⟨-, rfl⟩ := Prod.mk.inj (Except.ok.inj ht)
    exact ⟨trivial, hd.declarations, (h.atPath path hd.body hp).2, hd.saves, hd.scopes⟩

theorem keeps_editIndex {change : Edit Statement α} (h : Edit.Keeps (Statement.Meets D) change)
    (path : Path) (index : Nat) : Keeps D (edit path (Edit.atIndex index change)) :=
  keeps_edit (h.atIndexOfBlock index) path

theorem keeps_append {statement : String → Statement} (h : ∀ l, (statement l).Meets D) :
    Keeps D (append statement) :=
  keeps_bodyPath.bind fun _ _ => Preserves.get_state.bind fun draft _ =>
    (keeps_edit (Edit.keeps_push (h draft.location)) _).bind fun _ _ => .pure trivial

theorem keeps_act {a : Action} (h : D.action a) : Keeps D (act a) := keeps_append fun _ => h

theorem keeps_openBlock {statement : String → Statement} (h : ∀ l, (statement l).Meets D)
    (selector : Selector) : Keeps D (openBlock statement selector) :=
  keeps_bodyPath.bind fun _ _ => Preserves.get_state.bind fun draft _ =>
    (keeps_edit (Edit.keeps_push (h draft.location)) _).bind fun _ _ => keeps_openBody _

theorem keeps_setLoopCondition {condition : Expression} (h : D.expression condition) :
    Keeps D (setLoopCondition condition) :=
  keeps_innermostLoop.bind fun _ _ => keeps_editIndex (Edit.keeps_setCondition h) _ _

-- ---------------------------------------------------------------------------
-- Scopes
-- ---------------------------------------------------------------------------

theorem keeps_openIf {condition : Expression} (h : D.expression condition) (isUnsafe : Bool) :
    Keeps D (openIf condition isUnsafe) :=
  keeps_openBlock (fun _ => Statement.meets_conditional h isUnsafe _) _

theorem keeps_openElif {condition : Expression} (h : D.expression condition) :
    Keeps D (openElif condition) :=
  keeps_bodyPath.bind fun _ _ => (keeps_edit (Edit.keeps_lastConditional _) _).bind fun _ _ =>
    (keeps_editIndex (Edit.keeps_refuseOtherwise _) _ _).bind fun _ _ =>
      (keeps_editIndex (Edit.keeps_addElif h) _ _).bind fun _ _ => keeps_openBody _

theorem keeps_openElse : Keeps D openElse :=
  keeps_bodyPath.bind fun _ _ => (keeps_edit (Edit.keeps_lastConditional _) _).bind fun _ _ =>
    (keeps_editIndex (Edit.keeps_addOtherwise _) _ _).bind fun _ _ => keeps_openBody _

theorem keeps_openSwitch {value : Expression} (h : D.expression value) (isUnsafe : Bool) :
    Keeps D (openSwitch value isUnsafe) :=
  keeps_bodyPath.bind fun _ _ => keeps_openScope h

theorem keeps_setSwitchIndex (index : Nat) : Keeps D (setSwitchIndex index) := by
  refine .modify_state fun d hd => ?_
  split
  · next hs =>
    have hall := hd.scopes
    rw [hs] at hall
    obtain ⟨hvalue, houter⟩ := List.forall_mem_cons.mp hall
    exact ⟨hd.declarations, hd.body, hd.saves, List.forall_mem_cons.mpr ⟨hvalue, houter⟩⟩
  · exact hd

/-- A case compares its value with that of the switch around it. -/
theorem keeps_openCase {value : Expression} (h : D.expression value) : Keeps D (openCase value) := by
  refine sound_innermost.bind fun scope hscope => ?_
  split
  · next path switched isUnsafe =>
    have hcondition := D.case (hscope _ rfl) h
    exact Preserves.get_state.bind fun draft _ =>
      (keeps_edit (Edit.keeps_push (Statement.meets_conditional hcondition isUnsafe _)) _).bind fun _ _ =>
        (keeps_setSwitchIndex _).bind fun _ _ => keeps_openBody _
  · next path switched isUnsafe index =>
    have hcondition := D.case (hscope _ rfl) h
    exact (keeps_editIndex (Edit.keeps_addElif hcondition) _ _).bind fun _ _ => keeps_openBody _
  · exact .throw _

theorem keeps_openDefault : Keeps D openDefault := by
  refine sound_innermost.bind fun scope _ => ?_
  split
  · exact (keeps_editIndex (Edit.keeps_addOtherwise _) _ _).bind fun _ _ => keeps_openBody _
  · exact .throw _
  · exact .throw _

theorem keeps_openWhile {condition : Expression} (h : D.expression condition) :
    Keeps D (openWhile condition) := by
  refine keeps_openBlock (fun _ => Statement.meets_loop ?_ _) _
  rintro _ ⟨⟩
  exact h

theorem keeps_openLoop : Keeps D openLoop :=
  keeps_bodyPath.bind fun _ _ => Preserves.get_state.bind fun _ _ =>
    (keeps_edit (Edit.keeps_push (Statement.meets_loop (by simp) _)) _).bind fun _ _ =>
      keeps_openScope trivial

theorem keeps_openLoopPart (selector : Selector) : Keeps D (openLoopPart selector) :=
  keeps_innermostLoop.bind fun _ _ => keeps_openBody _

theorem keeps_openStrictTiming : Keeps D openStrictTiming := by
  have hmeets : ∀ l, (Statement.strictTiming [] l).Meets D := fun _ => trivial
  exact keeps_openBlock hmeets _

theorem keeps_openResults : Keeps D openResults := by
  refine sound_innermost.bind fun scope _ => ?_
  split <;> first | exact keeps_openScope trivial | exact .throw _

end Build

end
end Qua
