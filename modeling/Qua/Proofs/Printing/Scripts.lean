import Qua.Proofs.Printing.Calls
import Qua.Proofs.Printing.Listing

/-!
# Programs of scripts can be printed

Two things that a script can say have no text: a numeral that is too large for a real, and a buffer without
dimensions. Every other script that builds a program builds one that can be printed.
-/

namespace Qua

-- ---------------------------------------------------------------------------
-- Hazards of a script
-- ---------------------------------------------------------------------------

namespace Script

/-- A call for a buffer without dimensions. -/
def isBareBuffer : Term → List Term → Bool
  | .attribute _ name, [] => name == "buffer"
  | _, _ => false

mutual

/-- What in a term has no text in a program. -/
def Term.hazards : Term → List Hazard
  | .float x => if x.isFinite then [] else [.real]
  | .tuple items => hazardsAll items
  | .list items => hazardsAll items
  | .dict entries => hazardsEntries entries
  | .call function arguments keywords =>
    (if isBareBuffer function arguments then [.buffer] else []) ++
      (function.hazards ++ (hazardsAll arguments ++ hazardsKeywords keywords))
  | .attribute value _ => value.hazards
  | .index value index => value.hazards ++ index.hazards
  | .binary _ left right => left.hazards ++ right.hazards
  | .unary _ operand => operand.hazards
  | .name _ | .int _ | .string _ | .bool _ | .none => []

def hazardsAll : List Term → List Hazard
  | [] => []
  | term :: rest => term.hazards ++ hazardsAll rest

def hazardsKeywords : List (String × Term) → List Hazard
  | [] => []
  | (_, term) :: rest => term.hazards ++ hazardsKeywords rest

def hazardsEntries : List (Term × Term) → List Hazard
  | [] => []
  | (key, value) :: rest => key.hazards ++ (value.hazards ++ hazardsEntries rest)

end

mutual

/-- What in a statement has no text in a program. -/
def Stmt.hazards : Stmt → List Hazard
  | .block _ context _ body => context.hazards ++ hazardsBlock body
  | .assign _ _ value => value.hazards
  | .term _ term => term.hazards
  | .pass _ | .importing .. => []

def hazardsBlock : List Stmt → List Hazard
  | [] => []
  | s :: rest => s.hazards ++ hazardsBlock rest

end

/-- There are all of the hazards. -/
def Admits (H : Hazard → Prop) (hazards : List Hazard) : Prop := ∀ h ∈ hazards, H h

theorem admits_append {H : Hazard → Prop} {hazards hazards' : List Hazard} :
    Admits H (hazards ++ hazards') ↔ Admits H hazards ∧ Admits H hazards' :=
  List.forall_mem_append

end Script

namespace Replay

open Script (Term Stmt Admits admits_append)

section
variable {H : Hazard → Prop}

/-- The draft can be printed, and so can what is made of the values that have been assigned. -/
structure State.Prints (H : Hazard → Prop) (s : State) : Prop where
  draft : s.draft.Meets (printing H)
  environment : ∀ b ∈ s.environment, b.2.Prints H

theorem State.prints_empty : State.Prints H {} := ⟨Draft.meets_empty, List.forall_mem_nil _⟩

/-- From a state that can be printed, the replay gives what has the property. -/
abbrev Sound (H : Hazard → Prop) (P : α → Prop) (m : Replay α) : Prop := Preserves (State.Prints H) P m

variable {P : α → Prop}

-- ---------------------------------------------------------------------------
-- Parts of a replay
-- ---------------------------------------------------------------------------

theorem sound_fault (f : ReplayFault) : Sound H P (fault f : Replay α) := .throw _

theorem sound_liftFaulty {result : Faulty α} (h : ∀ a, result = .ok a → P a) : Sound H P (liftFaulty result) := by
  cases result with
  | ok a => exact .pure (h a rfl)
  | error f => exact sound_fault f

theorem sound_build {step : Build α} (h : Build.Sound (printing H) P step) : Sound H P (build step) := by
  intro s a t hs ha
  rw [build] at ha
  cases hstep : step s.draft with
  | error e =>
    simp only [hstep] at ha
    cases ha
  | ok result =>
    simp only [hstep] at ha
    obtain ⟨rfl, rfl⟩ := Prod.mk.inj (Except.ok.inj ha)
    obtain ⟨hp, hd⟩ := h hs.draft hstep
    exact ⟨hp, hd, hs.environment⟩

theorem sound_perform {call : Taking (Build α)} {arguments : Arguments}
    (h : ∀ step left, call arguments = .ok (step, left) → Build.Sound (printing H) P step) :
    Sound H P (perform call arguments) :=
  .bind (P := fun taken => Build.Sound (printing H) P taken.1)
    (sound_liftFaulty fun taken htaken => h taken.1 taken.2 htaken) fun _ hstep =>
    (sound_build hstep).bind fun _ ha => .bind (P := fun _ => True) (sound_liftFaulty fun _ _ => trivial) fun _ _ =>
      .pure ha

theorem sound_lookup (name : String) : Sound H (Value.Prints H) (lookup name) := by
  refine Preserves.get_state.bind fun s hs => ?_
  split
  · next value hvalue =>
    obtain ⟨before, after, henvironment, -⟩ := List.lookup_eq_some_iff.mp hvalue
    exact .pure (hs.environment (name, value) (by simp [henvironment]))
  · split
    · exact .pure trivial
    · split
      · exact .pure (Renders.ok _)
      · exact sound_fault _

theorem sound_callBuiltin (name : String) {arguments : Arguments} (ha : arguments.Prints H) :
    Sound H (Value.Prints H) (callBuiltin name arguments) := by
  refine Preserves.get_state.bind fun s _ => ?_
  split
  · exact sound_perform fun _ _ h => (makes_builtin name ha h).1
  · exact sound_fault _

/-- A buffer without dimensions is called for as such. -/
theorem sound_method {inProgram : Bool} {receiver : Value} {function : Term} {name : String} {terms : List Term}
    {values : List Value} {keywords : List (String × Value)}
    (hb : Admits H (if Script.isBareBuffer (.attribute function name) terms then [.buffer] else []))
    (hr : receiver.Prints H) (hv : (∀ v ∈ values, v.Prints H) ∧ (values = [] → terms = []))
    (hk : ∀ k ∈ keywords, k.2.Prints H) :
    Sound H (Value.Prints H) (perform (method inProgram receiver name) (.of name values keywords)) := by
  refine sound_perform fun _ _ h => makes_method hr (Arguments.prints_of name hv.1 hk) ?_ h
  rintro rfl hnone
  obtain rfl := hv.2 (by simpa [Arguments.of, List.filterMap_map] using hnone)
  exact hb _ (List.mem_singleton.mpr rfl)

-- ---------------------------------------------------------------------------
-- Terms
-- ---------------------------------------------------------------------------

theorem prints_integer {n : UInt64} {v : Value} (h : integer n = .ok v) : v.Prints H := by
  unfold integer at h
  split at h
  · obtain rfl := Except.ok.inj h
    trivial
  · cases h

theorem sound_isBound (name : String) : Sound H (fun _ => True) (isBound name) :=
  Preserves.get_state.bind fun _ _ => .pure trivial

mutual

theorem sound_evaluate : (term : Term) → Admits H term.hazards → Sound H (Value.Prints H) (evaluate term)
  | .name name, _ => sound_lookup name
  | .int n, _ => sound_liftFaulty fun _ => prints_integer
  | .float x, hE => .pure fun hx => by
    rw [Term.hazards, hx] at hE
    exact hE _ (List.mem_singleton.mpr rfl)
  | .string _, _ | .bool _, _ | .none, _ => .pure trivial
  | .tuple items, hE | .list items, hE =>
    (sound_evaluateAll items hE).bind fun _ hv => .pure (Value.allPrint_iff.mpr hv.1)
  | .dict entries, hE => (sound_evaluateEntries entries hE).bind fun _ _ => .pure trivial
  | .call (.name name) arguments keywords, hE => by
    obtain ⟨hvalues, hkeywords⟩ := admits_append.mp (admits_append.mp (admits_append.mp hE).2).2
    have harguments := sound_evaluateAll arguments hvalues
    have hkeywords := sound_evaluateKeywords keywords hkeywords
    rw [evaluate]
    refine (sound_isBound name).bind fun isBound _ => ?_
    split
    · exact sound_fault _
    · exact harguments.bind fun _ hv => hkeywords.bind fun _ hk =>
        sound_callBuiltin name (Arguments.prints_of name hv.1 hk)
  | .call (.attribute value name) arguments keywords, hE => by
    obtain ⟨hbuffer, hE⟩ := admits_append.mp hE
    obtain ⟨hreceiver, hE⟩ := admits_append.mp hE
    obtain ⟨hvalues, hkeywords⟩ := admits_append.mp hE
    have hvalue := sound_evaluate value hreceiver
    have harguments := sound_evaluateAll arguments hvalues
    have hkeywords := sound_evaluateKeywords keywords hkeywords
    have hmethod {receiver : Replay Value} (inProgram : Bool) (h : Sound H (Value.Prints H) receiver) :
        Sound H (Value.Prints H) (do
          let receiver ← receiver
          let arguments ← evaluateAll arguments
          let keywords ← evaluateKeywords keywords
          perform (method inProgram receiver name) (.of name arguments keywords)) :=
      h.bind fun _ hr => harguments.bind fun _ hv => hkeywords.bind fun _ hk => sound_method hbuffer hr hv hk
    cases value with
    | name module =>
      refine Preserves.get_state.bind fun s _ => (sound_isBound module).bind fun isBound _ => ?_
      split
      · exact harguments.bind fun _ hv => hkeywords.bind fun _ hk =>
          sound_perform fun _ _ h => makes_moduleFunction (Arguments.prints_of _ hv.1 hk) h
      · exact hmethod _ (sound_lookup module)
    | _ => exact Preserves.get_state.bind fun s _ => hmethod _ hvalue
  | .call (.int _) _ _, _ | .call (.float _) _ _, _ | .call (.string _) _ _, _ | .call (.bool _) _ _, _
  | .call .none _ _, _ | .call (.tuple _) _ _, _ | .call (.list _) _ _, _ | .call (.dict _) _ _, _
  | .call (.call ..) _ _, _ | .call (.index ..) _ _, _ | .call (.binary ..) _ _, _
  | .call (.unary ..) _ _, _ => sound_fault _
  | .attribute _ _, _ => sound_fault _
  | .index value index, hE =>
    (sound_evaluate value (admits_append.mp hE).1).bind fun _ hv =>
      (sound_evaluate index (admits_append.mp hE).2).bind fun _ hi =>
        sound_liftFaulty fun _ h => prints_indexed hv hi h
  | .binary _ left right, hE =>
    (sound_evaluate left (admits_append.mp hE).1).bind fun _ hl =>
      (sound_evaluate right (admits_append.mp hE).2).bind fun _ hr =>
        sound_liftFaulty fun _ h => prints_binary hl hr h
  | .unary _ operand, hE =>
    (sound_evaluate operand hE).bind fun _ ho => sound_liftFaulty fun _ h => prints_unary ho h

theorem sound_evaluateAll : (terms : List Term) → Admits H (Script.hazardsAll terms) →
    Sound H (fun values => (∀ v ∈ values, v.Prints H) ∧ (values = [] → terms = [])) (evaluateAll terms)
  | [], _ => .pure ⟨List.forall_mem_nil _, fun _ => rfl⟩
  | term :: rest, hE => by
    exact (sound_evaluate term (admits_append.mp hE).1).bind fun _ hv =>
      (sound_evaluateAll rest (admits_append.mp hE).2).bind fun _ hvs =>
        .pure ⟨List.forall_mem_cons.mpr ⟨hv, hvs.1⟩, fun h => absurd h (List.cons_ne_nil _ _)⟩

theorem sound_evaluateKeywords : (keywords : List (String × Term)) → Admits H (Script.hazardsKeywords keywords) →
    Sound H (fun values => ∀ k ∈ values, k.2.Prints H) (evaluateKeywords keywords)
  | [], _ => .pure (List.forall_mem_nil _)
  | (name, term) :: rest, hE => by
    exact (sound_evaluate term (admits_append.mp hE).1).bind fun _ hv =>
      (sound_evaluateKeywords rest (admits_append.mp hE).2).bind fun _ hvs =>
        .pure (List.forall_mem_cons.mpr ⟨hv, hvs⟩)

theorem sound_evaluateEntries : (entries : List (Term × Term)) → Admits H (Script.hazardsEntries entries) →
    Sound H (fun _ => True) (evaluateEntries entries)
  | [], _ => .pure trivial
  | (key, value) :: rest, hE => by
    have hrest := admits_append.mp (admits_append.mp hE).2
    exact (sound_evaluate key (admits_append.mp hE).1).bind fun _ _ =>
      (sound_evaluate value hrest.1).bind fun _ _ => sound_evaluateEntries rest hrest.2

end

-- ---------------------------------------------------------------------------
-- Statements
-- ---------------------------------------------------------------------------

theorem sound_modify {f : State → State} (h : ∀ s, s.Prints H → (f s).Prints H) :
    Sound H (fun _ => True) (modify f : Replay PUnit) :=
  .modify_state h

theorem sound_setLocation (location : String) : Sound H (fun _ => True) (setLocation location) :=
  sound_modify fun _ hs => ⟨hs.draft.of_eq rfl rfl rfl rfl, hs.environment⟩

theorem sound_atLine {m : Replay α} (line : Nat) (h : Sound H P m) : Sound H P (atLine line m) := by
  intro s a t hs ha
  unfold atLine at ha
  cases hm : m s with
  | error e =>
    rw [hm] at ha
    cases ha
  | ok result =>
    rw [hm] at ha
    obtain rfl := Except.ok.inj ha
    exact h hs hm

theorem sound_unless {c : Prop} [Decidable c] (f : ReplayFault) {k : PUnit → Replay α} (h : Sound H P (k ())) :
    Sound H P (if c then fault f >>= k else k ()) :=
  .guarded _ h

theorem sound_openScope (context : Term) (hE : Admits H context.hazards) :
    Sound H (fun _ => True) (openScope context) := by
  refine Preserves.get_state.bind fun s _ => sound_unless _ ?_
  cases context with
  | call function arguments keywords =>
    obtain ⟨hvalues, hkeywords⟩ := admits_append.mp (admits_append.mp (admits_append.mp hE).2).2
    dsimp only
    split
    · exact sound_fault _
    · next name _ =>
      exact sound_unless _ ((sound_evaluateAll arguments hvalues).bind fun _ hv =>
        (sound_evaluateKeywords keywords hkeywords).bind fun _ hk =>
          sound_perform fun _ _ h => (makes_scope name (Arguments.prints_of name hv.1 hk) h).1)
  | _ => exact sound_fault _

theorem sound_bind (name : String) {value : Value} (h : value.Prints H) :
    Sound H (fun _ => True) (bind name value) :=
  sound_modify fun _ hs => ⟨hs.draft, List.forall_mem_cons.mpr ⟨h, hs.environment⟩⟩

mutual

theorem sound_statement : (s : Stmt) → Admits H s.hazards → Sound H (fun _ => True) (statement s)
  | .pass _, _ => by
    rw [statement]
    exact .pure trivial
  | .importing .., _ => by
    rw [statement]
    exact .pure trivial
  | .assign _ target value, hE => by
    rw [statement]
    split
    · exact (sound_evaluate value hE).bind fun _ hv => sound_bind _ hv
    · exact sound_fault _
  | .term _ term, hE => by
    rw [statement]
    exact (sound_evaluate term hE).bind fun _ _ => .pure trivial
  | .block _ context _ body, hE => by
    rw [statement]
    exact (sound_openScope context (admits_append.mp hE).1).bind fun id _ =>
      (sound_statements body (admits_append.mp hE).2).bind fun _ _ => sound_build (Build.keeps_closeScope id)

theorem sound_statements : (body : List Stmt) → Admits H (Script.hazardsBlock body) →
    Sound H (fun _ => True) (statements body)
  | [], _ => by
    rw [statements]
    exact .pure trivial
  | s :: rest, hE => by
    rw [statements]
    exact (sound_setLocation _).bind fun _ _ =>
      (sound_atLine s.line (sound_statement s (admits_append.mp hE).1)).bind fun _ _ =>
        sound_statements rest (admits_append.mp hE).2

end

theorem sound_topLevel (s : Stmt) (hE : Admits H s.hazards) : Sound H (fun _ => True) (topLevel s) := by
  cases s with
  | block _ context _ body =>
    rw [topLevel]
    split
    · refine sound_unless _ (Preserves.get_state.bind fun s hs => sound_unless _ ?_)
      refine .bind (P := fun _ => True) (.set_state ⟨hs.draft, hs.environment⟩) fun _ _ =>
        (sound_statements body (admits_append.mp hE).2).bind fun _ _ => sound_modify fun _ ht => ?_
      exact ⟨ht.draft, ht.environment⟩
    · exact sound_fault _
  | _ => exact sound_statement _ hE

theorem sound_module {script : List Stmt} (hE : Admits H (Script.hazardsBlock script)) :
    Sound H (fun _ => True) (module script) := by
  have hall : Sound H (fun _ => True) (script.forM fun s => atLine s.line (topLevel s)) := by
    induction script with
    | nil => exact .pure trivial
    | cons s rest ih =>
      exact (sound_atLine s.line (sound_topLevel s (admits_append.mp hE).1)).bind fun _ _ =>
        ih (admits_append.mp hE).2
  refine hall.bind fun _ _ => Preserves.get_state.bind fun s _ => ?_
  split
  · exact sound_fault _
  · exact .pure trivial

end
end Replay

namespace Program

/-- A script that builds a program builds one that can be printed, but for the hazards in the script. -/
theorem ofScript_renders {script : String} {statements : List Script.Stmt} {p : Program}
    (hs : Script.parse script = .ok statements) (hp : ofScript script = .ok p) :
    (∃ text, p.text = .ok text) ∨
      ∃ hazard ∈ Script.hazardsBlock statements, ∃ e, p.text = .error e ∧ e.DueTo hazard := by
  have hmeets : ∃ d : Draft, d.Meets (printing (· ∈ Script.hazardsBlock statements)) ∧ d.program = p := by
    unfold ofScript at hp
    rw [hs] at hp
    dsimp only at hp
    cases hrun : Replay.module statements {} with
    | error e =>
      rw [hrun] at hp
      cases hp
    | ok result =>
      rw [hrun] at hp
      have hd := (Replay.sound_module (fun _ h => h) Replay.State.prints_empty hrun).2.draft
      refine ⟨_, hd, ?_⟩
      dsimp only at hp
      unfold Session.finishDraft at hp
      split at hp
      · next hfinish =>
        split at hfinish
        · cases hfinish
        · exact (Except.ok.inj hfinish).trans (Except.ok.inj hp)
      · cases hp
  obtain ⟨d, hd, rfl⟩ := hmeets
  cases htext : d.program.text with
  | ok text => exact .inl ⟨text, rfl⟩
  | error e =>
    obtain ⟨hazard, hmem, hdue⟩ := hd.renders htext
    exact .inr ⟨hazard, hmem, e, rfl, hdue⟩

/-- A script that saves a stream in buffers of the given dimensions. -/
def bufferScript (dimensions : String) : String :=
  "with program() as prog:\n    r1 = declare_stream()\n    with stream_processing():\n        r1.buffer("
    ++ dimensions ++ ").save(\"t\")\n"

theorem ofScript_renders_buffer : ∃ statements p, Script.parse (bufferScript "2, 3") = .ok statements ∧
    ofScript (bufferScript "2, 3") = .ok p ∧ Script.hazardsBlock statements = [] ∧ ∃ text, p.text = .ok text := by
  have hparses : Script.hazardsBlock <$> Script.parse (bufferScript "2, 3") = .ok [] := by decide +kernel
  have hreplays : (fun _ => ()) <$> ofScript (bufferScript "2, 3") = .ok () := by decide +kernel
  obtain ⟨statements, hs, hnone⟩ := except_map_eq_ok.mp hparses
  obtain ⟨p, hp, -⟩ := except_map_eq_ok.mp hreplays
  refine ⟨statements, p, hs, hp, hnone, ?_⟩
  obtain htext | ⟨hazard, hmem, -⟩ := ofScript_renders hs hp
  · exact htext
  · rw [hnone] at hmem
    cases hmem

/-- A numeral that is too large. -/
def overflowingScript : String := "with program() as prog:\n    v1 = declare(fixed, value=1e400)\n"

/-- Both hazards are there: the scripts build programs that cannot be printed. -/
theorem ofScript_not_renders :
    (∃ p, ofScript (bufferScript "") = .ok p ∧ p.text = .error (.unsupportedStreamOperator "buffer")) ∧
      ∃ p, ofScript overflowingScript = .ok p ∧ p.text = .error (.nonFiniteLiteral (.infinity false)) := by
  have hbuffer : text <$> ofScript (bufferScript "") = .ok (.error (.unsupportedStreamOperator "buffer")) := by
    decide +kernel
  have hreal : text <$> ofScript overflowingScript = .ok (.error (.nonFiniteLiteral (.infinity false))) := by
    decide +kernel
  exact ⟨except_map_eq_ok.mp hbuffer, except_map_eq_ok.mp hreal⟩

end Program
end Qua
