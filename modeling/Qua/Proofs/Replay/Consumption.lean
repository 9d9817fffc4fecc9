import Qua.Proofs.Replay.Parameters
import Qua.Proofs.Replay.Steps

/-!
# No argument is ignored

A call that succeeds has taken every argument it was given, each for a parameter of its own. With one more
keyword that is no parameter, or whose parameter has been given, it fails. Main statement:
`calls_consume_arguments`.
-/

namespace Qua

open Script (Term Stmt)

namespace Replay

-- ---------------------------------------------------------------------------
-- Calls
-- ---------------------------------------------------------------------------

/-- The names that the script has assigned to. -/
def State.isBound (s : State) (name : String) : Bool := (s.environment.lookup name).isSome

section

variable {s s' : State} {arguments : List Term} {keywords : List (String × Term)} {v : Value}

theorem liftFaulty_ok {result : Faulty α} {a : α} (h : liftFaulty result s = .ok (a, s')) : result = .ok a := by
  cases result with
  | ok value =>
    obtain ⟨rfl, -⟩ := pure_eq_ok.mp h
    rfl
  | error f => cases h

/-- A call that succeeds has left nothing. -/
theorem perform_consumes {call : Taking (Build α)} {given : Arguments} {r : α}
    (h : perform call given s = .ok (r, s')) :
    ∃ step left, call given = .ok (step, left) ∧ Taking.unexpected? left = none := by
  obtain ⟨⟨step, left⟩, s₁, hcall, h⟩ := bind_eq_ok.mp h
  obtain ⟨result, s₂, -, h⟩ := bind_eq_ok.mp h
  obtain ⟨_, s₃, hfinish, -⟩ := bind_eq_ok.mp h
  refine ⟨step, left, liftFaulty_ok hcall, ?_⟩
  have hleft := liftFaulty_ok hfinish
  unfold Taking.finish at hleft
  split at hleft
  · cases hleft
  · assumption

theorem perform_accepts {sig : Signature} {call : Taking (Build α)} {function : String} {values : List Value}
    {entries : List (String × Value)} {r : α} (hb : sig.Bounds 0 call)
    (h : perform call (.of function values entries) s = .ok (r, s')) :
    sig.Accepts values.length (entries.map Prod.fst) := by
  obtain ⟨step, left, hcall, hleft⟩ := perform_consumes h
  exact hb.accepts hcall hleft

theorem evaluateKeywords_names {entries : List (String × Value)}
    (h : evaluateKeywords keywords s = .ok (entries, s')) : entries.map Prod.fst = keywords.map Prod.fst := by
  induction keywords generalizing s s' entries with
  | nil =>
    obtain ⟨rfl, -⟩ := pure_eq_ok.mp h
    rfl
  | cons keyword rest ih =>
    obtain ⟨value, s₁, -, h⟩ := bind_eq_ok.mp h
    obtain ⟨entries, s₂, hrest, h⟩ := bind_eq_ok.mp h
    obtain ⟨rfl, -⟩ := pure_eq_ok.mp h
    rw [List.map_cons, List.map_cons, ih hrest]

/-- The arguments are evaluated before the call is made. -/
theorem arguments_accepted {sig : Signature} {call : List Value → List (String × Value) → Replay α} {r : α}
    (hcall : ∀ values entries s s' r, call values entries s = .ok (r, s') →
      sig.Accepts values.length (entries.map Prod.fst))
    (h : (do
      let values ← evaluateAll arguments
      let entries ← evaluateKeywords keywords
      call values entries) s = .ok (r, s')) :
    sig.Accepts arguments.length (keywords.map Prod.fst) := by
  obtain ⟨values, s₁, hvalues, h⟩ := bind_eq_ok.mp h
  obtain ⟨entries, s₂, hentries, h⟩ := bind_eq_ok.mp h
  rw [← gives_evaluateAll _ hvalues, ← evaluateKeywords_names hentries]
  exact hcall _ _ _ _ _ h

theorem callBuiltin_accepts {name : String} {values : List Value} {entries : List (String × Value)}
    (h : callBuiltin name (.of name values entries) s = .ok (v, s')) :
    (Signature.builtin name).Accepts values.length (entries.map Prod.fst) := by
  obtain ⟨state, s₁, -, h⟩ := bind_eq_ok.mp h
  split at h
  · exact perform_accepts (builtin_bounds name) h
  · cases h

theorem evaluateMethod_accepts {inProgram : Bool} {receiver : Replay Value} {name : String}
    (h : (do
      let receiver ← receiver
      let values ← evaluateAll arguments
      let entries ← evaluateKeywords keywords
      perform (method inProgram receiver name) (.of name values entries)) s = .ok (v, s')) :
    (Signature.method name).Accepts arguments.length (keywords.map Prod.fst) := by
  obtain ⟨receiver, s₁, -, h⟩ := bind_eq_ok.mp h
  exact arguments_accepted (fun _ _ _ _ _ => perform_accepts (method_bounds _ _ _)) h

/-- The signature of what is called accepts the arguments of a call that succeeds. -/
theorem evaluate_accepts {function : Term} (h : evaluate (.call function arguments keywords) s = .ok (v, s')) :
    (Signature.called s.isBound function).Accepts arguments.length (keywords.map Prod.fst) := by
  cases function with
  | name name =>
    rw [evaluate] at h
    obtain ⟨bound, s₁, -, h⟩ := bind_eq_ok.mp h
    split at h
    · cases h
    · exact arguments_accepted (fun _ _ _ _ _ => callBuiltin_accepts) h
  | «attribute» value name =>
    cases value with
    | name module =>
      rw [evaluate] at h
      obtain ⟨state, s₁, hs, hrest⟩ := bind_eq_ok.mp h
      obtain ⟨bound, s₂, hb, hrun⟩ := bind_eq_ok.mp hrest
      obtain ⟨rfl, rfl⟩ : bound = s₁.isBound module ∧ s₂ = s₁ := pure_eq_ok.mp hb
      obtain ⟨rfl, rfl⟩ : state = s ∧ s₂ = s := pure_eq_ok.mp hs
      rw [Signature.called]
      split at hrun
      · next hm =>
        rw [if_pos hm]
        exact arguments_accepted (fun _ _ _ _ _ => perform_accepts (moduleFunction_bounds _ _ _)) hrun
      · next hm =>
        rw [if_neg hm]
        exact evaluateMethod_accepts hrun
    | _ =>
      obtain ⟨state, s₁, -, h⟩ := bind_eq_ok.mp h
      exact evaluateMethod_accepts h
  | _ => cases h

/-- The signature of a scope accepts the arguments of its block; that of the program has no parameters. -/
theorem openScope_accepts {name : String} {id : Nat}
    (h : openScope (.call (.name name) arguments keywords) s = .ok (id, s')) :
    (Signature.scope name).Accepts arguments.length (keywords.map Prod.fst) := by
  obtain ⟨state, s₁, -, h⟩ := bind_eq_ok.mp h
  split at h
  · cases h
  · simp only [Term.name?] at h
    split at h
    · cases h
    · exact arguments_accepted (fun _ _ _ _ _ => perform_accepts (scope_bounds name)) h

end

-- ---------------------------------------------------------------------------
-- Scripts
-- ---------------------------------------------------------------------------

end Replay

namespace Script

mutual

/-- All calls in a term. -/
def Term.applications : Term → List Term
  | .tuple items => applicationsAll items
  | .list items => applicationsAll items
  | .dict entries => applicationsEntries entries
  | .call function arguments keywords =>
    .call function arguments keywords ::
      (function.applications ++ (applicationsAll arguments ++ applicationsKeywords keywords))
  | .attribute value _ => value.applications
  | .index value index => value.applications ++ index.applications
  | .binary _ left right => left.applications ++ right.applications
  | .unary _ operand => operand.applications
  | .name _ | .int _ | .float _ | .string _ | .bool _ | .none => []

def applicationsAll : List Term → List Term
  | [] => []
  | term :: rest => term.applications ++ applicationsAll rest

def applicationsKeywords : List (String × Term) → List Term
  | [] => []
  | (_, term) :: rest => term.applications ++ applicationsKeywords rest

def applicationsEntries : List (Term × Term) → List Term
  | [] => []
  | (key, value) :: rest => key.applications ++ (value.applications ++ applicationsEntries rest)

end

/-- The calls in the arguments of a scope. -/
def Term.argumentApplications : Term → List Term
  | .call _ arguments keywords => applicationsAll arguments ++ applicationsKeywords keywords
  | _ => []

mutual

/-- All calls in a statement, without those that open its blocks. -/
def Stmt.applications : Stmt → List Term
  | .block _ context _ body => context.argumentApplications ++ applicationsBlock body
  | .assign _ _ value => value.applications
  | .term _ term => term.applications
  | .pass _ | .importing .. => []

def applicationsBlock : List Stmt → List Term
  | [] => []
  | s :: rest => s.applications ++ applicationsBlock rest

end

mutual

/-- What the blocks of a statement are opened with. -/
def Stmt.contexts : Stmt → List Term
  | .block _ context _ body => context :: contextsBlock body
  | _ => []

def contextsBlock : List Stmt → List Term
  | [] => []
  | s :: rest => s.contexts ++ contextsBlock rest

end

/-- The arguments of a call are accepted where some names are bound. -/
def Term.Accepted : Term → Prop
  | .call function arguments keywords =>
    ∃ isBound, (Replay.Signature.called isBound function).Accepts arguments.length (keywords.map Prod.fst)
  | _ => True

/-- The arguments with which a block is opened are accepted. -/
def Term.Opens : Term → Prop
  | .call (.name scope) arguments keywords =>
    (Replay.Signature.scope scope).Accepts arguments.length (keywords.map Prod.fst)
  | _ => False

end Script

namespace Replay

/-- A run that succeeds shows that the calls are accepted. -/
abbrev Shows (calls : List Term) (m : Replay α) : Prop := Gives (fun _ => ∀ c ∈ calls, c.Accepted) m

section

variable {calls calls' : List Term} {m : Replay β} {f : β → Replay α}

theorem shows_nothing (m : Replay α) : Shows [] m := fun _ _ _ _ => List.forall_mem_nil _

theorem shows_fault (e : ReplayFault) : Shows calls (fault e : Replay α) := .throw _

theorem Shows.first (h : Shows calls m) : Shows calls (m >>= f) :=
  Gives.bind h fun _ hc _ _ _ _ => hc

theorem Shows.then (h : Shows calls m) (hf : ∀ a, Shows calls' (f a)) : Shows (calls ++ calls') (m >>= f) :=
  Gives.bind h fun a hc _ _ _ hr => List.forall_mem_append.mpr ⟨hc, hf a hr⟩

mutual

theorem shows_evaluate : (term : Term) → Shows term.applications (evaluate term)
  | .name _ | .int _ | .float _ | .string _ | .bool _ | .none => shows_nothing _
  | .tuple items | .list items => (shows_evaluateAll items).first
  | .dict entries => (shows_evaluateEntries entries).first
  | .call (.name name) arguments keywords => by
    have hvalues := shows_evaluateAll arguments
    have hentries := shows_evaluateKeywords keywords
    have hrest : Shows (Script.applicationsAll arguments ++ Script.applicationsKeywords keywords)
        (evaluate (.call (.name name) arguments keywords)) := by
      refine Gives.after fun bound => ?_
      split
      · exact shows_fault _
      · exact hvalues.then fun _ => hentries.first
    exact fun _ _ _ h => List.forall_mem_cons.mpr ⟨⟨_, evaluate_accepts h⟩, hrest h⟩
  | .call (.attribute value name) arguments keywords => by
    have hvalue := shows_evaluate value
    have hvalues := shows_evaluateAll arguments
    have hentries := shows_evaluateKeywords keywords
    have hrest : Shows (value.applications ++
        (Script.applicationsAll arguments ++ Script.applicationsKeywords keywords))
        (evaluate (.call (.attribute value name) arguments keywords)) := by
      cases value with
      | name module =>
        refine Gives.after fun s => Gives.after fun bound => ?_
        split
        · exact hvalues.then fun _ => hentries.first
        · exact Gives.after fun _ => hvalues.then fun _ => hentries.first
      | _ => exact Gives.after fun s => hvalue.then fun _ => hvalues.then fun _ => hentries.first
    exact fun _ _ _ h => List.forall_mem_cons.mpr ⟨⟨_, evaluate_accepts h⟩, hrest h⟩
  | .call (.int _) _ _ | .call (.float _) _ _ | .call (.string _) _ _ | .call (.bool _) _ _
  | .call .none _ _ | .call (.tuple _) _ _ | .call (.list _) _ _ | .call (.dict _) _ _
  | .call (.call ..) _ _ | .call (.index ..) _ _ | .call (.binary ..) _ _
  | .call (.unary ..) _ _ => shows_fault _
  | .attribute _ _ => shows_fault _
  | .index value index => (shows_evaluate value).then fun _ => (shows_evaluate index).first
  | .binary _ left right => (shows_evaluate left).then fun _ => (shows_evaluate right).first
  | .unary _ operand => (shows_evaluate operand).first

theorem shows_evaluateAll : (terms : List Term) → Shows (Script.applicationsAll terms) (evaluateAll terms)
  | [] => shows_nothing _
  | term :: rest => (shows_evaluate term).then fun _ => (shows_evaluateAll rest).first

theorem shows_evaluateKeywords : (keywords : List (String × Term)) →
    Shows (Script.applicationsKeywords keywords) (evaluateKeywords keywords)
  | [] => shows_nothing _
  | (_, term) :: rest => (shows_evaluate term).then fun _ => (shows_evaluateKeywords rest).first

theorem shows_evaluateEntries : (entries : List (Term × Term)) →
    Shows (Script.applicationsEntries entries) (evaluateEntries entries)
  | [] => shows_nothing _
  | (key, value) :: rest => (shows_evaluate key).then fun _ => (shows_evaluate value).then fun _ =>
      shows_evaluateEntries rest

end

end

-- ---------------------------------------------------------------------------
-- Statements
-- ---------------------------------------------------------------------------

/-- A run that succeeds shows that the calls and the openings of blocks are accepted. -/
def ShowsAll (calls contexts : List Term) (m : Replay α) : Prop :=
  Gives (fun _ => (∀ c ∈ calls, c.Accepted) ∧ ∀ context ∈ contexts, context.Opens) m

section

variable {calls calls' contexts contexts' : List Term} {m : Replay β} {f : β → Replay α}

theorem ShowsAll.then (h : ShowsAll calls contexts m) (hf : ∀ a, ShowsAll calls' contexts' (f a)) :
    ShowsAll (calls ++ calls') (contexts ++ contexts') (m >>= f) :=
  Gives.bind h fun a hc _ _ _ hr =>
    ⟨List.forall_mem_append.mpr ⟨hc.1, (hf a hr).1⟩, List.forall_mem_append.mpr ⟨hc.2, (hf a hr).2⟩⟩

theorem ShowsAll.first (h : ShowsAll calls contexts m) : ShowsAll calls contexts (m >>= f) :=
  Gives.bind h fun _ hc _ _ _ _ => hc

theorem Shows.all (h : Shows calls m) : ShowsAll calls [] m :=
  fun _ _ _ hm => ⟨h hm, List.forall_mem_nil _⟩

theorem showsAll_nothing (m : Replay α) : ShowsAll [] [] m := (shows_nothing m).all

theorem showsAll_fault (e : ReplayFault) : ShowsAll calls contexts (fault e : Replay α) := .throw _

theorem ShowsAll.atLine (h : ShowsAll calls contexts m) (line : Nat) :
    ShowsAll calls contexts (atLine line m) := by
  intro s r t hr
  rw [Replay.atLine] at hr
  split at hr
  · next hm =>
    obtain rfl := Except.ok.inj hr
    exact h hm
  · cases hr

theorem gives_unless {P : α → Prop} {c : Prop} [Decidable c] (e : ReplayFault) {k : PUnit → Replay α}
    (h : Gives P (k ())) : Gives P (if c then fault e >>= k else k ()) := by
  split
  · rintro _ _ _ ⟨⟩
  · exact h

theorem shows_openScope (context : Term) : Shows context.argumentApplications (openScope context) := by
  refine Gives.after fun state => gives_unless _ ?_
  cases context with
  | call function arguments keywords =>
    dsimp only
    split
    · exact shows_fault _
    · exact gives_unless _ ((shows_evaluateAll arguments).then fun _ => (shows_evaluateKeywords keywords).first)
  | _ => exact shows_fault _

theorem openScope_opens {context : Term} {id : Nat} (h : openScope context s = .ok (id, s')) :
    context.Opens := by
  obtain ⟨state, s₁, -, hrun⟩ := bind_eq_ok.mp h
  split at hrun
  · cases hrun
  · cases context with
    | call function arguments keywords =>
      cases function with
      | name name => exact openScope_accepts h
      | _ => cases hrun
    | _ => cases hrun

theorem showsAll_openScope (context : Term) :
    ShowsAll context.argumentApplications [context] (openScope context) :=
  fun _ _ _ h => ⟨shows_openScope context h, List.forall_mem_singleton.mpr (openScope_opens h)⟩

mutual

theorem showsAll_statement : (s : Stmt) → ShowsAll s.applications s.contexts (statement s)
  | .pass _ | .importing .. => showsAll_nothing _
  | .assign _ target value => by
    rw [statement]
    split
    · exact (shows_evaluate value).all.first
    · exact showsAll_fault _
  | .term _ term => by
    rw [statement]
    exact (shows_evaluate term).all.first
  | .block _ context _ body => by
    rw [statement]
    exact (showsAll_openScope context).then fun _ => (showsAll_statements body).first

theorem showsAll_statements : (body : List Stmt) →
    ShowsAll (Script.applicationsBlock body) (Script.contextsBlock body) (statements body)
  | [] => showsAll_nothing _
  | s :: rest => by
    rw [statements]
    exact Gives.after fun _ => ((showsAll_statement s).atLine s.line).then fun _ => showsAll_statements rest

end

/-- The program is opened without arguments. -/
theorem programCall_arguments {context : Term} (h : programCall? context = some false) :
    context = .call (.name "program") [] [] := by
  unfold programCall? at h
  split at h
  · next arguments keywords =>
    cases arguments <;> cases keywords <;> simp at h ⊢
  · cases h

theorem showsAll_topLevel (s : Stmt) : ShowsAll s.applications s.contexts (topLevel s) := by
  cases s with
  | block _ context _ body =>
    rw [topLevel]
    split
    · next hasArguments hprogram =>
      cases hasArguments with
      | true => rintro _ _ _ ⟨⟩
      | false =>
        obtain rfl := programCall_arguments hprogram
        have hopens : (Term.call (.name "program") [] []).Opens :=
          ⟨.inr (Nat.zero_le _), List.nodup_nil, List.forall_mem_nil _⟩
        refine gives_unless _ (Gives.after fun s => gives_unless _ (Gives.after fun _ => ?_))
        exact Gives.bind (showsAll_statements body) fun _ hc _ _ _ _ =>
          ⟨hc.1, List.forall_mem_cons.mpr ⟨hopens, hc.2⟩⟩
    · exact showsAll_fault _
  | _ => exact showsAll_statement _

theorem showsAll_module (script : List Stmt) :
    ShowsAll (Script.applicationsBlock script) (Script.contextsBlock script) (module script) := by
  have hall : ShowsAll (Script.applicationsBlock script) (Script.contextsBlock script)
      (script.forM fun s => atLine s.line (topLevel s)) := by
    induction script with
    | nil => exact showsAll_nothing _
    | cons s rest ih => exact ((showsAll_topLevel s).atLine s.line).then fun _ => ih
  exact hall.first

/-- In a script that builds a program, the arguments of all calls are accepted. -/
theorem ofScript_accepts {script : String} {stmts : List Stmt} {p : Program}
    (hs : Script.parse script = .ok stmts) (hp : Program.ofScript script = .ok p) :
    (∀ c ∈ Script.applicationsBlock stmts, c.Accepted) ∧
      ∀ context ∈ Script.contextsBlock stmts, context.Opens := by
  unfold Program.ofScript at hp
  rw [hs] at hp
  dsimp only at hp
  cases hrun : module stmts {} with
  | error e =>
    rw [hrun] at hp
    cases hp
  | ok result => exact showsAll_module stmts hrun

end

-- ---------------------------------------------------------------------------
-- All calls
-- ---------------------------------------------------------------------------

section

variable {sig : Signature} {arguments : List Term} {keywords before after : List (String × Term)}
  {name : String} {value : Term}

/-- The keyword is no parameter, or its parameter has been given by position or by keyword. -/
def Signature.Refuses (sig : Signature) (count : Nat) (keywords : List String) (name : String) : Prop :=
  name ∉ sig.parameters ∨ name ∈ sig.named.take count ∨ name ∈ keywords

theorem Signature.Refuses.not_accepts (hn : sig.Refuses count ((before ++ after).map Prod.fst) name) :
    ¬ sig.Accepts count ((before ++ (name, value) :: after).map Prod.fst) := by
  rw [List.map_append, List.map_cons]
  rw [List.map_append] at hn
  exact sig.not_accepts_insert hn

/-- No argument of a call is ignored. What succeeds has taken all arguments; the signature of what is called
or opened accepts them, each for a parameter of its own; and with one more keyword that the signature
refuses, with any value and at any place, the call or the scope fails. -/
theorem calls_consume_arguments :
    (∀ (α : Type) (call : Taking (Build α)) (given : Arguments) (s s' : State) (r : α),
      perform call given s = .ok (r, s') → ∃ step left, call given = .ok (step, left) ∧
        (∀ v ∈ left.positional, v = none) ∧ ∀ k ∈ left.keywords, k.2 = none) ∧
    (∀ (function : Term) (arguments : List Term) (before after : List (String × Term)) (s s' : State) (v : Value),
      evaluate (.call function arguments (before ++ after)) s = .ok (v, s') →
      (Signature.called s.isBound function).Accepts arguments.length ((before ++ after).map Prod.fst) ∧
        ∀ name value, (Signature.called s.isBound function).Refuses arguments.length
            ((before ++ after).map Prod.fst) name →
          ∃ e, evaluate (.call function arguments (before ++ (name, value) :: after)) s = .error e) ∧
    (∀ (scope : String) (arguments : List Term) (before after : List (String × Term)) (s s' : State) (id : Nat),
      openScope (.call (.name scope) arguments (before ++ after)) s = .ok (id, s') →
      (Signature.scope scope).Accepts arguments.length ((before ++ after).map Prod.fst) ∧
        ∀ name value, (Signature.scope scope).Refuses arguments.length ((before ++ after).map Prod.fst) name →
          ∃ e, openScope (.call (.name scope) arguments (before ++ (name, value) :: after)) s = .error e) ∧
    (∀ (script : String) (stmts : List Stmt) (p : Program), Script.parse script = .ok stmts →
      Program.ofScript script = .ok p →
      (∀ c ∈ Script.applicationsBlock stmts, c.Accepted) ∧
        ∀ context ∈ Script.contextsBlock stmts, context.Opens) := by
  refine ⟨fun α call given s s' r h => ?_, fun function arguments before after s s' v h => ?_,
    fun scope arguments before after s s' id h => ?_, fun _ _ _ => ofScript_accepts⟩
  · obtain ⟨step, left, hcall, hleft⟩ := perform_consumes h
    exact ⟨step, left, hcall, Takes.unexpected_eq_none.mp hleft⟩
  · refine ⟨evaluate_accepts h, fun name value hn => ?_⟩
    cases hmore : evaluate (.call function arguments (before ++ (name, value) :: after)) s with
    | error e => exact ⟨e, rfl⟩
    | ok result => exact absurd (evaluate_accepts hmore) hn.not_accepts
  · refine ⟨openScope_accepts h, fun name value hn => ?_⟩
    cases hmore : openScope (.call (.name scope) arguments (before ++ (name, value) :: after)) s with
    | error e => exact ⟨e, rfl⟩
    | ok result => exact absurd (openScope_accepts hmore) hn.not_accepts

end

/-- An element that is given by its keyword is not given twice, a condition not by its keyword too, and a
script with both a call and a scope. -/
theorem calls_consume_arguments_play :
    let s : State := { inProgram := true, programs := 1 }
    let script := "with program() as prog:\n    with if_(True, unsafe=True):\n        play(\"p\", element=\"q\")\n"
    (∃ step left, builtin "pause" (.of "pause" [] []) = .ok (step, left) ∧
      (∀ v ∈ left.positional, v = none) ∧ ∀ k ∈ left.keywords, k.2 = none) ∧
    (∃ e, evaluate (.call (.name "play") [.string "p"]
      [("element", .string "q"), ("element", .string "q")]) s = .error e) ∧
    (∃ e, openScope (.call (.name "if_") [.bool true] [("condition", .bool true)]) s = .error e) ∧
    ∃ stmts p, Script.parse script = .ok stmts ∧ Program.ofScript script = .ok p ∧
      ∀ c ∈ Script.applicationsBlock stmts, c.Accepted := by
  intro s script
  obtain ⟨hperform, hcall, hscope, hscript⟩ := calls_consume_arguments
  obtain ⟨_, s₁, hpause⟩ : ∃ r s₁, perform (builtin "pause") (.of "pause" [] []) s = .ok (r, s₁) := ⟨_, _, rfl⟩
  obtain ⟨v, s₂, hplay⟩ : ∃ v s₂, evaluate (.call (.name "play") [.string "p"]
      ([("element", .string "q")] ++ [])) s = .ok (v, s₂) := ⟨_, _, rfl⟩
  obtain ⟨id, s₃, hif⟩ : ∃ id s₃, openScope (.call (.name "if_") [.bool true] ([] ++ [])) s = .ok (id, s₃) :=
    ⟨_, _, rfl⟩
  have hparses : (fun _ => ()) <$> Script.parse script = .ok () := by decide +kernel
  have hreplays : (fun _ => ()) <$> Program.ofScript script = .ok () := by decide +kernel
  obtain ⟨stmts, hs, -⟩ := except_map_eq_ok.mp hparses
  obtain ⟨p, hp, -⟩ := except_map_eq_ok.mp hreplays
  exact ⟨hperform _ _ _ _ _ _ hpause, (hcall _ _ _ _ _ _ _ hplay).2 "element" _ (.inr (.inr List.mem_cons_self)),
    (hscope _ _ _ _ _ _ _ hif).2 "condition" _ (.inr (.inl List.mem_cons_self)), stmts, p, hs, hp,
    (hscript _ _ _ hs hp).1⟩

end Replay
end Qua
