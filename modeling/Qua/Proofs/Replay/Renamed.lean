import Mathlib.Data.List.Basic
import Qua.Proofs.Run
import Qua.Replay.Run

/-!
# The names of a script

Which names a script assigns to does not matter. Two runs agree if their environments have the same values,
the one under the names and the other under the new names: a name that is not bound is then predefined in
both and the same, or in neither. Main statement: `ofScript_renamed`.
-/

namespace Qua

-- ---------------------------------------------------------------------------
-- Runs that agree
-- ---------------------------------------------------------------------------

section

variable {σ ε α β : Type}

/-- Both have failed, or both have given the same and left related states. -/
inductive Agree (R : σ → σ → Prop) : Except ε (α × σ) → Except ε (α × σ) → Prop
  | ok (h : R s t) : Agree R (.ok (a, s)) (.ok (a, t))
  | error : Agree R (.error e) (.error e')

/-- On related states, the two runs agree. -/
def Agrees (R : σ → σ → Prop) (m m' : StateT σ (Except ε) α) : Prop := ∀ ⦃s t⦄, R s t → Agree R (m s) (m' t)

namespace Agrees

variable {R : σ → σ → Prop} {m m' : StateT σ (Except ε) α}

theorem pure (a : α) : Agrees R (Pure.pure a : StateT σ (Except ε) α) (Pure.pure a) := fun _ _ h => .ok h

theorem throw (e e' : ε) :
    Agrees R (MonadExcept.throw e : StateT σ (Except ε) α) (MonadExcept.throw e') := fun _ _ _ => .error

theorem bind {f f' : α → StateT σ (Except ε) β} (h : Agrees R m m') (hf : ∀ a, Agrees R (f a) (f' a)) :
    Agrees R (m >>= f) (m' >>= f') := by
  intro s t hst
  have hm := h hst
  rw [bind_run, bind_run]
  generalize m s = first, m' t = second at hm ⊢
  cases hm with
  | ok hst' => exact hf _ hst'
  | error => exact .error

/-- What is read of the two states. -/
theorem get_bind {f f' : σ → StateT σ (Except ε) β} (h : ∀ s t, R s t → Agrees R (f s) (f' t)) :
    Agrees R (get >>= f) (get >>= f') := fun s t hst => h s t hst hst

theorem of_set {s t : σ} (h : R s t) :
    Agrees R (set s : StateT σ (Except ε) PUnit) (set t) := fun _ _ _ => .ok h

theorem of_modify {f f' : σ → σ} (h : ∀ s t, R s t → R (f s) (f' t)) :
    Agrees R (modify f : StateT σ (Except ε) PUnit) (modify f') := fun s t hst => .ok (h s t hst)

end Agrees

end

-- ---------------------------------------------------------------------------
-- Renaming a script
-- ---------------------------------------------------------------------------

namespace Script

/-- The names that have a meaning without being assigned to. -/
def predefinedNames : List String :=
  ["int", "bool", "fixed", "IO1", "IO2", "program"] ++
  ["declare", "declare_input_stream", "declare_stream", "play", "measure", "ramp", "amp", "wait", "align",
    "pause", "update_frequency", "update_correction", "set_dc_offset", "reset_phase", "reset_frame",
    "frame_rotation", "frame_rotation_2pi", "fast_frame_rotation", "ramp_to_zero", "wait_for_trigger",
    "assign", "save", "advance_input_stream", "call_library_function", "for_cond"] ++
  ["if_", "elif_", "else_", "switch_", "case_", "default_", "for_", "for_init_", "for_update_", "for_body_",
    "while_", "infinite_loop_", "for_each_", "strict_timing_", "stream_processing"] ++
  (Replay.functionsModule :: Replay.processModules) ++ Library.all.map Library.namespaceName

variable (σ : String → String)

mutual

/-- The term with its names renamed. Keywords and what stands behind a dot are not names. -/
def Term.rename : Term → Term
  | .name x => .name (σ x)
  | .tuple items => .tuple (renameAll items)
  | .list items => .list (renameAll items)
  | .dict entries => .dict (renameEntries entries)
  | .call function arguments keywords =>
    .call function.rename (renameAll arguments) (renameKeywords keywords)
  | .attribute value name => .attribute value.rename name
  | .index value index => .index value.rename index.rename
  | .binary operator left right => .binary operator left.rename right.rename
  | .unary operator operand => .unary operator operand.rename
  | .int n => .int n
  | .float x => .float x
  | .string s => .string s
  | .bool b => .bool b
  | .none => .none

def renameAll : List Term → List Term
  | [] => []
  | term :: rest => term.rename :: renameAll rest

def renameKeywords : List (String × Term) → List (String × Term)
  | [] => []
  | (name, term) :: rest => (name, term.rename) :: renameKeywords rest

def renameEntries : List (Term × Term) → List (Term × Term)
  | [] => []
  | (key, value) :: rest => (key.rename, value.rename) :: renameEntries rest

end

mutual

def Stmt.rename : Stmt → Stmt
  | .block line context target body => .block line (context.rename σ) (target.map σ) (renameBlock body)
  | .assign line target value => .assign line (target.rename σ) (value.rename σ)
  | .term line term => .term line (term.rename σ)
  | .pass line => .pass line
  | .importing line module names => .importing line module names

def renameBlock : List Stmt → List Stmt
  | [] => []
  | s :: rest => s.rename :: renameBlock rest

end

mutual

/-- The names that occur in a term. -/
def Term.names : Term → List String
  | .name x => [x]
  | .tuple items => namesAll items
  | .list items => namesAll items
  | .dict entries => namesEntries entries
  | .call function arguments keywords => function.names ++ (namesAll arguments ++ namesKeywords keywords)
  | .attribute value _ => value.names
  | .index value index => value.names ++ index.names
  | .binary _ left right => left.names ++ right.names
  | .unary _ operand => operand.names
  | .int _ | .float _ | .string _ | .bool _ | .none => []

def namesAll : List Term → List String
  | [] => []
  | term :: rest => term.names ++ namesAll rest

def namesKeywords : List (String × Term) → List String
  | [] => []
  | (_, term) :: rest => term.names ++ namesKeywords rest

def namesEntries : List (Term × Term) → List String
  | [] => []
  | (key, value) :: rest => key.names ++ (value.names ++ namesEntries rest)

end

mutual

/-- The names that occur in a statement. -/
def Stmt.names : Stmt → List String
  | .block _ context target body => context.names ++ (target.toList ++ namesBlock body)
  | .assign _ target value => target.names ++ value.names
  | .term _ term => term.names
  | .pass _ | .importing .. => []

def namesBlock : List Stmt → List String
  | [] => []
  | s :: rest => s.names ++ namesBlock rest

end

mutual

/-- The names that a statement assigns to. -/
def Stmt.assigned : Stmt → List String
  | .block _ _ target body => target.toList ++ assignedBlock body
  | .assign _ target _ => target.name?.toList
  | _ => []

def assignedBlock : List Stmt → List String
  | [] => []
  | s :: rest => s.assigned ++ assignedBlock rest

end

/-- A renaming of the names that a script assigns to. A name that it changes is not predefined, neither
before nor after, and the new name does not occur in the script. -/
structure Renaming (script : List Stmt) : Prop where
  unassigned : ∀ x, x ∉ assignedBlock script → σ x = x
  injective : ∀ x ∈ assignedBlock script, ∀ y ∈ assignedBlock script, σ x = σ y → x = y
  old : ∀ x ∈ assignedBlock script, σ x ≠ x → x ∉ predefinedNames
  new : ∀ x ∈ assignedBlock script, σ x ≠ x → σ x ∉ predefinedNames ∧ σ x ∉ namesBlock script

/-- The names stay apart, and keep what they are predefined as. -/
structure Apart (names : List String) : Prop where
  injective : ∀ x ∈ names, ∀ y ∈ names, σ x = σ y → x = y
  predefined : ∀ x ∈ names, σ x = x ∨ x ∉ predefinedNames ∧ σ x ∉ predefinedNames

theorem Renaming.apart {σ : String → String} {script : List Stmt} (h : Renaming σ script) :
    Apart σ (namesBlock script) := by
  have hchanged (x) (hx : σ x ≠ x) : x ∈ assignedBlock script :=
    Decidable.byContradiction fun hn => hx (h.unassigned x hn)
  refine ⟨fun x hx y hy hxy => ?_, fun x _ => ?_⟩
  · by_cases hx' : σ x = x
    · by_cases hy' : σ y = y
      · rw [← hx', hxy, hy']
      · exact absurd (by rwa [← hxy, hx']) (h.new y (hchanged y hy') hy').2
    · by_cases hy' : σ y = y
      · exact absurd (by rwa [hxy, hy']) (h.new x (hchanged x hx') hx').2
      · exact h.injective x (hchanged x hx') y (hchanged y hy') hxy
  · by_cases hx : σ x = x
    · exact .inl hx
    · exact .inr ⟨h.old x (hchanged x hx) hx, (h.new x (hchanged x hx) hx).1⟩

end Script

namespace Replay

open Script (Term Stmt Apart predefinedNames)

-- ---------------------------------------------------------------------------
-- Names that are not predefined
-- ---------------------------------------------------------------------------

section

variable {x : String}

theorem builtin_unknown (h : x ∉ predefinedNames) : builtin x = throw (.unknownFunction x) := by
  unfold builtin
  split
  case h_26 => rfl
  all_goals exact absurd (by decide) h

theorem scope_unknown (h : x ∉ predefinedNames) : scope x = throw (.unknownFunction x) := by
  unfold scope
  split
  case h_16 => rfl
  all_goals exact absurd (by decide) h

theorem not_type (h : x ∉ predefinedNames) : ScalarType.ofName? x = none := by
  unfold ScalarType.ofName?
  split
  case h_4 => rfl
  all_goals exact absurd (by decide) h

theorem not_register (h : x ∉ predefinedNames) : Register.ofName? x = none := by
  unfold Register.ofName?
  split
  case h_3 => rfl
  all_goals exact absurd (by decide) h

theorem not_module (h : x ∉ predefinedNames) : isModule x = false := by
  simp only [predefinedNames, List.mem_append, not_or] at h
  obtain ⟨⟨-, hmodule⟩, hlibrary⟩ := h
  rw [List.mem_cons, not_or] at hmodule
  have hnone : Library.ofNamespace? x = none := by
    rw [Library.ofNamespace?, List.find?_eq_none]
    intro library hl he
    exact hlibrary (List.mem_map.mpr ⟨library, hl, of_decide_eq_true he⟩)
  simp [isModule, hmodule.1, hmodule.2, hnone]

theorem ne_program (h : x ∉ predefinedNames) : x ≠ "program" := by
  rintro rfl
  exact absurd (by decide) h

end

-- ---------------------------------------------------------------------------
-- States
-- ---------------------------------------------------------------------------

/-- The states differ in the names of the environment only. -/
structure State.Renamed (σ : String → String) (names : List String) (s t : State) : Prop where
  draft : t.draft = s.draft
  inProgram : t.inProgram = s.inProgram
  programs : t.programs = s.programs
  environment : ∀ x ∈ names, t.environment.lookup (σ x) = s.environment.lookup x

section

variable {σ : String → String} {names : List String} {m m' : Replay α} {x : String}

/-- The runs agree when the names are renamed. -/
abbrev Follows (σ : String → String) (names : List String) (m m' : Replay α) : Prop :=
  Agrees (State.Renamed σ names) m m'

theorem follows_fault (f f' : ReplayFault) : Follows σ names (fault f : Replay α) (fault f') := .throw _ _

theorem follows_lift (result : Faulty α) : Follows σ names (liftFaulty result) (liftFaulty result) := by
  cases result with
  | ok value => exact .pure value
  | error f => exact follows_fault f f

theorem follows_build (step : Build α) : Follows σ names (build step) (build step) := by
  intro s t h
  rw [build, build, h.draft]
  cases step s.draft with
  | ok result => exact .ok ⟨rfl, h.inProgram, h.programs, h.environment⟩
  | error e => exact .error

theorem follows_perform (call : Taking (Build α)) (arguments : Arguments) :
    Follows σ names (perform call arguments) (perform call arguments) :=
  (follows_lift _).bind fun _ => (follows_build _).bind fun _ => (follows_lift _).bind fun _ => .pure _

/-- Calls of functions that there are not. -/
theorem follows_unknown {call call' : Taking (Build α)} {f f' : ReplayFault} (hc : call = throw f)
    (hc' : call' = throw f') (arguments arguments' : Arguments) :
    Follows σ names (perform call arguments) (perform call' arguments') := by
  subst hc hc'
  exact fun _ _ _ => .error

theorem follows_isBound (hx : x ∈ names) : Follows σ names (isBound x) (isBound (σ x)) :=
  .get_bind fun s t h => by
    rw [h.environment x hx]
    exact .pure _

theorem follows_lookup (h : Apart σ names) (hx : x ∈ names) : Follows σ names (lookup x) (lookup (σ x)) := by
  refine .get_bind fun s t hst => ?_
  rw [hst.environment x hx]
  split
  · exact .pure _
  · obtain hsame | ⟨hold, hnew⟩ := h.predefined x hx
    · rw [hsame]
      split
      · exact .pure _
      · split
        · exact .pure _
        · exact follows_fault _ _
    · rw [not_type hold, not_type hnew, not_register hold, not_register hnew]
      exact follows_fault _ _

theorem follows_callBuiltin (h : Apart σ names) (hx : x ∈ names) (values : List Value)
    (entries : List (String × Value)) :
    Follows σ names (callBuiltin x (.of x values entries)) (callBuiltin (σ x) (.of (σ x) values entries)) := by
  refine .get_bind fun s t hst => ?_
  rw [hst.inProgram]
  split
  · obtain hsame | ⟨hold, hnew⟩ := h.predefined x hx
    · rw [hsame]
      exact follows_perform _ _
    · exact follows_unknown (builtin_unknown hold) (builtin_unknown hnew) _ _
  · exact follows_fault _ _

theorem follows_scope (h : Apart σ names) (hx : x ∈ names) (values : List Value)
    (entries : List (String × Value)) :
    Follows σ names (perform (scope x) (.of x values entries))
      (perform (scope (σ x)) (.of (σ x) values entries)) := by
  obtain hsame | ⟨hold, hnew⟩ := h.predefined x hx
  · rw [hsame]
    exact follows_perform _ _
  · exact follows_unknown (scope_unknown hold) (scope_unknown hnew) _ _

/-- The name of a module is kept. -/
theorem isModule_renamed (h : Apart σ names) (hx : x ∈ names) :
    isModule (σ x) = isModule x ∧ (isModule x = true → σ x = x) := by
  obtain hsame | ⟨hold, hnew⟩ := h.predefined x hx
  · exact ⟨congrArg isModule hsame, fun _ => hsame⟩
  · rw [not_module hold, not_module hnew]
    exact ⟨rfl, nofun⟩

theorem follows_bind (h : Apart σ names) (hx : x ∈ names) (v : Value) :
    Follows σ names (bind x v) (bind (σ x) v) := by
  refine .of_modify fun s t hst => ⟨hst.draft, hst.inProgram, hst.programs, fun y hy => ?_⟩
  rw [List.lookup_cons, List.lookup_cons]
  by_cases hyx : y = x
  · subst hyx
    rw [beq_self_eq_true, beq_self_eq_true]
  · have hne : σ y ≠ σ x := fun he => hyx (h.injective y hy x hx he)
    rw [beq_false_of_ne hyx, beq_false_of_ne hne]
    exact hst.environment y hy

-- ---------------------------------------------------------------------------
-- Terms
-- ---------------------------------------------------------------------------

mutual

theorem follows_evaluate (h : Apart σ names) : (t : Term) → t.names ⊆ names →
    Follows σ names (evaluate t) (evaluate (t.rename σ))
  | .name x, hn => follows_lookup h (hn List.mem_cons_self)
  | .int n, _ => follows_lift (integer n)
  | .float _, _ | .string _, _ | .bool _, _ | .none, _ => .pure _
  | .tuple items, hn | .list items, hn => (follows_evaluateAll h items hn).bind fun _ => .pure _
  | .dict entries, hn => (follows_evaluateEntries h entries hn).bind fun _ => .pure _
  | .call (.name x) arguments keywords, hn => by
    obtain ⟨hx, hn⟩ := List.append_subset.mp hn
    obtain ⟨ha, hk⟩ := List.append_subset.mp hn
    have harguments := follows_evaluateAll h arguments ha
    have hkeywords := follows_evaluateKeywords h keywords hk
    have hname : x ∈ names := hx List.mem_cons_self
    rw [Term.rename, Term.rename, evaluate, evaluate]
    refine (follows_isBound hname).bind fun isBound => ?_
    split
    · exact follows_fault _ _
    · exact harguments.bind fun _ => hkeywords.bind fun _ => follows_callBuiltin h hname _ _
  | .call (.attribute value name) arguments keywords, hn => by
    obtain ⟨hvalue, hn⟩ := List.append_subset.mp hn
    obtain ⟨ha, hk⟩ := List.append_subset.mp hn
    have hreceiver := follows_evaluate h value hvalue
    have harguments := follows_evaluateAll h arguments ha
    have hkeywords := follows_evaluateKeywords h keywords hk
    have hmethod {receiver receiver' : Replay Value} (inProgram : Bool) (hr : Follows σ names receiver receiver') :
        Follows σ names (do
          let receiver ← receiver
          let arguments ← evaluateAll arguments
          let keywords ← evaluateKeywords keywords
          perform (method inProgram receiver name) (.of name arguments keywords)) (do
          let receiver ← receiver'
          let arguments ← evaluateAll (Script.renameAll σ arguments)
          let keywords ← evaluateKeywords (Script.renameKeywords σ keywords)
          perform (method inProgram receiver name) (.of name arguments keywords)) :=
      hr.bind fun _ => harguments.bind fun _ => hkeywords.bind fun _ => follows_perform _ _
    cases value with
    | name x =>
      have hname : x ∈ names := hvalue List.mem_cons_self
      obtain ⟨hmodule, hkept⟩ := isModule_renamed h hname
      refine .get_bind fun s t hst => ?_
      rw [hst.inProgram]
      refine (follows_isBound hname).bind fun isBound => ?_
      rw [hmodule]
      split
      · next hm =>
        rw [hkept (Bool.and_eq_true_iff.mp hm).2]
        exact harguments.bind fun _ => hkeywords.bind fun _ => follows_perform _ _
      · exact hmethod _ (follows_lookup h hname)
    | _ =>
      refine .get_bind fun s t hst => ?_
      rw [hst.inProgram]
      exact hmethod _ hreceiver
  | .call (.int _) _ _, _ | .call (.float _) _ _, _ | .call (.string _) _ _, _ | .call (.bool _) _ _, _
  | .call .none _ _, _ | .call (.tuple _) _ _, _ | .call (.list _) _ _, _ | .call (.dict _) _ _, _
  | .call (.call ..) _ _, _ | .call (.index ..) _ _, _ | .call (.binary ..) _ _, _
  | .call (.unary ..) _ _, _ => follows_fault _ _
  | .attribute _ _, _ => follows_fault _ _
  | .index value index, hn =>
    (follows_evaluate h value (List.append_subset.mp hn).1).bind fun _ =>
      (follows_evaluate h index (List.append_subset.mp hn).2).bind fun _ => follows_lift _
  | .binary _ left right, hn =>
    (follows_evaluate h left (List.append_subset.mp hn).1).bind fun _ =>
      (follows_evaluate h right (List.append_subset.mp hn).2).bind fun _ => follows_lift _
  | .unary _ operand, hn => (follows_evaluate h operand hn).bind fun _ => follows_lift _

theorem follows_evaluateAll (h : Apart σ names) : (terms : List Term) → Script.namesAll terms ⊆ names →
    Follows σ names (evaluateAll terms) (evaluateAll (Script.renameAll σ terms))
  | [], _ => .pure _
  | term :: rest, hn =>
    (follows_evaluate h term (List.append_subset.mp hn).1).bind fun _ =>
      (follows_evaluateAll h rest (List.append_subset.mp hn).2).bind fun _ => .pure _

theorem follows_evaluateKeywords (h : Apart σ names) : (keywords : List (String × Term)) →
    Script.namesKeywords keywords ⊆ names →
    Follows σ names (evaluateKeywords keywords) (evaluateKeywords (Script.renameKeywords σ keywords))
  | [], _ => .pure _
  | (_, term) :: rest, hn =>
    (follows_evaluate h term (List.append_subset.mp hn).1).bind fun _ =>
      (follows_evaluateKeywords h rest (List.append_subset.mp hn).2).bind fun _ => .pure _

theorem follows_evaluateEntries (h : Apart σ names) : (entries : List (Term × Term)) →
    Script.namesEntries entries ⊆ names →
    Follows σ names (evaluateEntries entries) (evaluateEntries (Script.renameEntries σ entries))
  | [], _ => .pure _
  | (key, value) :: rest, hn =>
    have hrest := List.append_subset.mp (List.append_subset.mp hn).2
    (follows_evaluate h key (List.append_subset.mp hn).1).bind fun _ =>
      (follows_evaluate h value hrest.1).bind fun _ => follows_evaluateEntries h rest hrest.2

end

-- ---------------------------------------------------------------------------
-- Statements
-- ---------------------------------------------------------------------------

theorem follows_setLocation (location : String) :
    Follows σ names (setLocation location) (setLocation location) :=
  .of_modify fun _ _ h => ⟨by rw [h.draft], h.inProgram, h.programs, h.environment⟩

theorem Follows.atLine (h : Follows σ names m m') (line line' : Nat) :
    Follows σ names (atLine line m) (atLine line' m') := by
  intro s t hst
  have hm := h hst
  unfold Replay.atLine
  generalize m s = first, m' t = second at hm ⊢
  cases hm with
  | ok hst' => exact .ok hst'
  | error => exact .error

/-- A fault, or else the rest. -/
theorem follows_unless {c c' : Prop} [Decidable c] [Decidable c'] (hc : c ↔ c') (f f' : ReplayFault)
    {k k' : PUnit → Replay α} (h : Follows σ names (k ()) (k' ())) :
    Follows σ names (if c then fault f >>= k else k ()) (if c' then fault f' >>= k' else k' ()) := by
  by_cases hc' : c'
  · rw [if_pos (hc.mpr hc'), if_pos hc']
    exact fun _ _ _ => .error
  · rw [if_neg (mt hc.mp hc'), if_neg hc']
    exact h

theorem name?_rename (t : Term) : (t.rename σ).name? = t.name?.map σ := by cases t <;> rfl

theorem mem_names_of_name? {t : Term} (hx : t.name? = some x) : x ∈ t.names := by
  cases t with
  | name y =>
    obtain rfl := Option.some.inj hx
    exact List.mem_cons_self
  | _ => cases hx

theorem program_renamed (h : Apart σ names) (hx : x ∈ names) : x = "program" ↔ σ x = "program" := by
  obtain hsame | ⟨hold, hnew⟩ := h.predefined x hx
  · rw [hsame]
  · exact ⟨fun he => absurd he (ne_program hold), fun he => absurd he (ne_program hnew)⟩

theorem follows_openScope (h : Apart σ names) (context : Term) (hn : context.names ⊆ names) :
    Follows σ names (openScope context) (openScope (context.rename σ)) := by
  refine .get_bind fun s t hst => follows_unless (by rw [hst.inProgram]) _ _ ?_
  cases context with
  | call function arguments keywords =>
    obtain ⟨hf, hn⟩ := List.append_subset.mp hn
    obtain ⟨ha, hk⟩ := List.append_subset.mp hn
    rw [Term.rename]
    dsimp only
    rw [name?_rename]
    cases hname : function.name? with
    | none => exact follows_fault _ _
    | some x =>
      have hx : x ∈ names := hf (mem_names_of_name? hname)
      exact follows_unless (program_renamed h hx) _ _ ((follows_evaluateAll h arguments ha).bind fun _ =>
        (follows_evaluateKeywords h keywords hk).bind fun _ => follows_scope h hx _ _)
  | _ => exact follows_fault _ _

mutual

theorem follows_statement (h : Apart σ names) : (s : Stmt) → s.names ⊆ names →
    Follows σ names (statement s) (statement (s.rename σ))
  | .pass _, _ | .importing .., _ => by
    rw [Stmt.rename, statement]
    exact .pure _
  | .assign _ target value, hn => by
    obtain ⟨ht, hv⟩ := List.append_subset.mp hn
    rw [Stmt.rename, statement, statement, name?_rename]
    cases hname : target.name? with
    | none => exact follows_fault _ _
    | some x =>
      exact (follows_evaluate h value hv).bind fun v => follows_bind h (ht (mem_names_of_name? hname)) v
  | .term _ term, hn => by
    rw [Stmt.rename, statement, statement]
    exact (follows_evaluate h term hn).bind fun _ => .pure _
  | .block _ context target body, hn => by
    obtain ⟨hc, hn⟩ := List.append_subset.mp hn
    rw [Stmt.rename, statement, statement]
    exact (follows_openScope h context hc).bind fun id =>
      (follows_statements h body (List.append_subset.mp hn).2).bind fun _ => follows_build _

theorem follows_statements (h : Apart σ names) : (body : List Stmt) → Script.namesBlock body ⊆ names →
    Follows σ names (statements body) (statements (Script.renameBlock σ body))
  | [], _ => .pure _
  | s :: rest, hn => by
    have hline : (s.rename σ).line = s.line := by cases s <;> rfl
    rw [Script.renameBlock, statements, statements, hline]
    exact (follows_setLocation _).bind fun _ =>
      ((follows_statement h s (List.append_subset.mp hn).1).atLine _ _).bind fun _ =>
        follows_statements h rest (List.append_subset.mp hn).2

end

theorem programCall?_other {arguments : List Term} {keywords : List (String × Term)} (hx : x ≠ "program") :
    programCall? (.call (.name x) arguments keywords) = none := by
  unfold programCall?
  split
  · next he => exact absurd (Term.name.inj (Term.call.inj he).1) hx
  · rfl

theorem programCall?_rename (h : Apart σ names) (context : Term) (hn : context.names ⊆ names) :
    programCall? (context.rename σ) = programCall? context := by
  cases context with
  | call function arguments keywords =>
    have ha : (Script.renameAll σ arguments).isEmpty = arguments.isEmpty := by cases arguments <;> rfl
    have hk : (Script.renameKeywords σ keywords).isEmpty = keywords.isEmpty := by cases keywords <;> rfl
    cases function with
    | name x =>
      have hprogram := program_renamed h (hn List.mem_cons_self)
      rw [Term.rename, Term.rename]
      by_cases hx : x = "program"
      · rw [hprogram.mp hx, hx, programCall?, programCall?, ha, hk]
      · rw [programCall?_other hx, programCall?_other (mt hprogram.mpr hx)]
    | _ => rfl
  | _ => rfl

theorem follows_topLevel (h : Apart σ names) (s : Stmt) (hn : s.names ⊆ names) :
    Follows σ names (topLevel s) (topLevel (s.rename σ)) := by
  cases s with
  | block _ context _ body =>
    obtain ⟨hc, hn⟩ := List.append_subset.mp hn
    have hbody := follows_statements h body (List.append_subset.mp hn).2
    rw [Stmt.rename, topLevel, topLevel, programCall?_rename h context hc]
    cases programCall? context with
    | none => exact follows_fault _ _
    | some hasArguments =>
      refine follows_unless Iff.rfl _ _ (.get_bind fun s t hst => follows_unless (by rw [hst.programs]) _ _ ?_)
      refine .bind (.of_set ⟨hst.draft, rfl, by rw [hst.programs], hst.environment⟩) fun _ =>
        hbody.bind fun _ => ?_
      exact .of_modify fun _ _ h => ⟨h.draft, rfl, h.programs, h.environment⟩
  | _ => exact follows_statement h _ hn

theorem follows_module (h : Apart σ names) (script : List Stmt) (hn : Script.namesBlock script ⊆ names) :
    Follows σ names (module script) (module (Script.renameBlock σ script)) := by
  have hall : Follows σ names (script.forM fun s => atLine s.line (topLevel s))
      ((Script.renameBlock σ script).forM fun s => atLine s.line (topLevel s)) := by
    induction script with
    | nil => exact .pure _
    | cons s rest ih =>
      obtain ⟨hs, hrest⟩ := List.append_subset.mp hn
      exact ((follows_topLevel h s hs).atLine _ _).bind fun _ => ih hrest
  refine hall.bind fun _ => .get_bind fun s t hst => ?_
  rw [hst.programs]
  split
  · exact follows_fault _ _
  · exact .pure _

end

end Replay

-- ---------------------------------------------------------------------------
-- Scripts
-- ---------------------------------------------------------------------------

namespace Script

/-- The tokens of a script that declares a variable and assigns to it, but for its names. -/
def declaringTokens (program x : String) : List Located :=
  [⟨.keyword .with_, 1, 1⟩, ⟨.name "program", 1, 6⟩, ⟨.leftParen, 1, 13⟩, ⟨.rightParen, 1, 14⟩,
    ⟨.keyword .as_, 1, 16⟩, ⟨.name program, 1, 19⟩, ⟨.colon, 1, 23⟩, ⟨.newLine, 1, 24⟩, ⟨.indent, 2, 5⟩,
    ⟨.name x, 2, 5⟩, ⟨.equals, 2, 7⟩, ⟨.name "declare", 2, 9⟩, ⟨.leftParen, 2, 16⟩, ⟨.name "int", 2, 17⟩,
    ⟨.rightParen, 2, 20⟩, ⟨.newLine, 2, 21⟩, ⟨.name "assign", 3, 5⟩, ⟨.leftParen, 3, 11⟩, ⟨.name x, 3, 12⟩,
    ⟨.comma, 3, 13⟩, ⟨.integer 1, 3, 15⟩, ⟨.rightParen, 3, 16⟩, ⟨.newLine, 3, 17⟩, ⟨.dedent, 4, 1⟩,
    ⟨.finish, 4, 1⟩]

/-- What these tokens are parsed to. -/
def declaring (program x : String) : List Stmt :=
  [.block 1 (.call (.name "program") [] []) (some program)
    [.assign 2 (.name x) (.call (.name "declare") [.name "int"] []),
      .term 3 (.call (.name "assign") [.name x, .int 1] [])]]

theorem parse_declaring {script program x : String} (h : lex script = .ok (declaringTokens program x)) :
    parse script = .ok (declaring program x) := by
  rw [parse, h]
  rfl

end Script

/-- The names of a script do not matter: if those that it assigns to are renamed, it builds a program if and
only if it did so before, and then the same one. -/
theorem Program.ofScript_renamed {script renamed : String} {stmts : List Script.Stmt} {σ : String → String}
    (hs : Script.parse script = .ok stmts) (hr : Script.parse renamed = .ok (Script.renameBlock σ stmts))
    (h : Script.Renaming σ stmts) (p : Program) : ofScript renamed = .ok p ↔ ofScript script = .ok p := by
  have hrun := Replay.follows_module h.apart stmts (List.Subset.refl _)
    (s := {}) (t := {}) ⟨rfl, rfl, rfl, fun _ _ => rfl⟩
  rw [ofScript, ofScript, hs, hr]
  dsimp only
  generalize Replay.module stmts {} = first, Replay.module (Script.renameBlock σ stmts) {} = second at hrun ⊢
  cases hrun with
  | ok hst =>
    dsimp only
    rw [hst.draft]
  | error => exact ⟨nofun, nofun⟩

theorem Program.ofScript_renamed_declaring :
    let script := "with program() as prog:\n    v = declare(int)\n    assign(v, 1)\n"
    let renamed := "with program() as main:\n    x = declare(int)\n    assign(x, 1)\n"
    let σ := fun name : String => if name = "prog" then "main" else if name = "v" then "x" else name
    ∃ stmts p, Script.parse script = .ok stmts ∧ Script.parse renamed = .ok (Script.renameBlock σ stmts) ∧
      Script.Renaming σ stmts ∧ ofScript script = .ok p ∧ ofScript renamed = .ok p := by
  intro script renamed σ
  have hs : Script.parse script = .ok (Script.declaring "prog" "v") := Script.parse_declaring (by decide +kernel)
  have hr : Script.parse renamed = .ok (Script.renameBlock σ (Script.declaring "prog" "v")) :=
    Script.parse_declaring (by decide +kernel)
  have hσ : Script.Renaming σ (Script.declaring "prog" "v") := by
    have hassigned : Script.assignedBlock (Script.declaring "prog" "v") = ["prog", "v"] := rfl
    refine ⟨fun y hy => ?_, ?_, ?_, ?_⟩ <;> rw [hassigned] at *
    · simp only [List.mem_cons, List.not_mem_nil, or_false, not_or] at hy
      simp [σ, hy]
    · decide
    · decide
    · decide
  have hreplays : (fun _ => ()) <$> ofScript script = .ok () := by decide +kernel
  obtain ⟨p, hp, -⟩ := except_map_eq_ok.mp hreplays
  exact ⟨_, p, hs, hr, hσ, hp, (ofScript_renamed hs hr hσ p).mpr hp⟩

end Qua
