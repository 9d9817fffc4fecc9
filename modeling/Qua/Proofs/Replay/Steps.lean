import Qua.Proofs.Build.Flags
import Qua.Proofs.Build.Locations
import Qua.Proofs.Script.Continued
import Qua.Replay.Run

/-!
# The steps of a replay

All that a replay does to its draft it does by the steps of calls, at the locations of its lines. A
relation between drafts that these steps respect is therefore respected by the replay of a whole script,
also by that of the same script at other lines. Fast rotations of no elements can be left out of account if
the script has no call for one (`Script.Allows`). Main statement: `simulates_topLevels`.
-/

namespace Qua

-- ---------------------------------------------------------------------------
-- Calls in a script
-- ---------------------------------------------------------------------------

namespace Script

/-- A call by the name of a function. -/
structure NamedCall where
  function : String
  /-- How many arguments are given by their positions. -/
  positional : Nat
  deriving DecidableEq

/-- The call rotates fast, and has no more arguments than the two coefficients. -/
def NamedCall.IsEmptyRotation (call : NamedCall) : Prop :=
  call.function = "fast_frame_rotation" ∧ call.positional < 3

mutual

/-- The calls by name in a term. -/
def Term.calls : Term → List NamedCall
  | .tuple items => callsAll items
  | .list items => callsAll items
  | .dict entries => callsEntries entries
  | .call (.name name) arguments keywords =>
    ⟨name, arguments.length⟩ :: (callsAll arguments ++ callsKeywords keywords)
  | .call function arguments keywords =>
    function.calls ++ (callsAll arguments ++ callsKeywords keywords)
  | .attribute value _ => value.calls
  | .index value index => value.calls ++ index.calls
  | .binary _ left right => left.calls ++ right.calls
  | .unary _ operand => operand.calls
  | .name _ | .int _ | .float _ | .string _ | .bool _ | .none => []

def callsAll : List Term → List NamedCall
  | [] => []
  | term :: rest => term.calls ++ callsAll rest

def callsKeywords : List (String × Term) → List NamedCall
  | [] => []
  | (_, term) :: rest => term.calls ++ callsKeywords rest

def callsEntries : List (Term × Term) → List NamedCall
  | [] => []
  | (key, value) :: rest => key.calls ++ (value.calls ++ callsEntries rest)

end

mutual

/-- The calls by name in a statement. -/
def Stmt.calls : Stmt → List NamedCall
  | .block _ context _ body => context.calls ++ callsBlock body
  | .assign _ _ value => value.calls
  | .term _ term => term.calls
  | .pass _ | .importing .. => []

def callsBlock : List Stmt → List NamedCall
  | [] => []
  | s :: rest => s.calls ++ callsBlock rest

end

/-- Among the calls is a fast rotation of no elements only if that is allowed. -/
def Allows (E : Prop) (calls : List NamedCall) : Prop := ∀ call ∈ calls, call.IsEmptyRotation → E

theorem allows_append {E : Prop} {calls calls' : List NamedCall} :
    Allows E (calls ++ calls') ↔ Allows E calls ∧ Allows E calls' :=
  List.forall_mem_append

theorem allows_cons {E : Prop} {call : NamedCall} {calls : List NamedCall} :
    Allows E (call :: calls) ↔ (call.IsEmptyRotation → E) ∧ Allows E calls :=
  List.forall_mem_cons

theorem allows_true (calls : List NamedCall) : Allows True calls := fun _ _ _ => trivial

end Script

-- ---------------------------------------------------------------------------
-- Leaves as a whole
-- ---------------------------------------------------------------------------

namespace Leaf

/-- The steps of the leaf, one after the other. -/
def run (leaf : Leaf) : Build Unit := leaf.steps.forM id

theorem run_single {leaf : Leaf} (h : leaf.steps = [step]) : leaf.run = step := by
  rw [run, h]
  exact bind_pure_unit

theorem forM_map_id (step : String → Build Unit) (elements : List String) :
    (elements.map step).forM id = elements.forM step := by
  rw [List.forM_eq_forM, List.forM_eq_forM, List.forM_map]
  rfl

theorem run_each {leaf : Leaf} {step : String → Build Unit} {elements : List String}
    (h : leaf.steps = elements.map step) : leaf.run = elements.forM step := by
  rw [run, h, forM_map_id]

theorem run_fastFrameRotation (cosine sine : Expression) (elements : List String) :
    (fastFrameRotation cosine sine elements).run =
      Build.markFastFrameRotation >>= fun _ => elements.forM (Build.fastFrameRotation cosine sine) := by
  rw [← forM_map_id]
  rfl

end Leaf

/-- The steps of all calls respect the relation, and so does a change of the location. Fast rotations of no
elements may have to be allowed. -/
structure Build.Respected (E : Prop) (R : Draft → Draft → Prop) : Prop where
  request : ∀ asked : Request, Simulates R asked.step asked.step
  leaf : ∀ leaf : Leaf, leaf.Allowed E → Simulates R leaf.run leaf.run
  loopCondition : ∀ condition, Simulates R (setLoopCondition condition) (setLoopCondition condition)
  enter : ∀ entry : Entry, Simulates R entry.step entry.step
  close : ∀ number, Simulates R (closeScope number) (closeScope number)
  located : ∀ d e l l', R d e → R { d with location := l } { e with location := l' }

namespace Build.Respected

variable {E : Prop} {R : Draft → Draft → Prop} (hR : Respected E R)
include hR

theorem expression {step : Build Expression} (asked : Request)
    (ha : asked.step = Outcome.expression <$> step) : Simulates R step step :=
  .of_map (fun _ _ he => Outcome.expression.inj he) (ha ▸ hR.request asked)

theorem declare (scalarType : ScalarType) (value : Option InitialValue) (size : Option Int64) :
    Simulates R (Build.declare scalarType value size) (Build.declare scalarType value size) :=
  hR.expression (.declare scalarType value size) rfl

theorem declareInputStream (scalarType : ScalarType) (name : String) (value : Option InitialValue)
    (size : Option Int64) :
    Simulates R (Build.declareInputStream scalarType name value size)
      (Build.declareInputStream scalarType name value size) :=
  hR.expression (.declareInputStream scalarType name value size) rfl

theorem declareStream (isAdcTrace : Bool) :
    Simulates R (Build.declareStream isAdcTrace) (Build.declareStream isAdcTrace) :=
  .of_map (fun _ _ he => Outcome.stream.inj he) (hR.request (.declareStream isAdcTrace))

theorem libraryCall (library : Library) (function : String) (arguments : List LibraryArgument) :
    Simulates R (Build.libraryCall library function arguments)
      (Build.libraryCall library function arguments) :=
  hR.expression (.libraryCall library function arguments) rfl

theorem amp (values : List Expression) : Simulates R (Build.amp values) (Build.amp values) :=
  .of_map (fun _ _ he => Outcome.amp.inj he) (hR.request (.amp values))

theorem registerSave (kind : SaveKind) (tag : String) (pipeline : StreamToken) :
    Simulates R (Build.registerSave kind tag pipeline) (Build.registerSave kind tag pipeline) := by
  refine .of_map (f := fun _ : Unit => Outcome.done) (fun _ _ _ => rfl) ?_
  rw [map_eq_pure_bind]
  exact hR.request (.registerSave kind tag pipeline)

/-- The step of a call that is not a fast rotation. -/
theorem single {step : Build Unit} (leaf : Leaf) (hrun : leaf.run = step) (hg : leaf.isGenuine = true)
    (he : leaf.isEmptyRotation = false) : Simulates R step step :=
  hrun ▸ hR.leaf leaf ⟨hg, fun h => nomatch he.symm.trans h⟩

theorem plain (action : Action) (ha : action.isPlain = true) :
    Simulates R (Build.act action) (Build.act action) :=
  hR.single (.plain action) (Leaf.run_single rfl) ha rfl

theorem opening (opening : Opening) : Simulates R opening.enter opening.enter :=
  hR.enter (.block opening)

end Build.Respected

namespace Replay

open Script (Term Stmt Allows allows_append allows_cons NamedCall)

-- ---------------------------------------------------------------------------
-- Arguments after the first ones
-- ---------------------------------------------------------------------------

namespace Taking

/-- What is taken leaves the arguments from a position on. -/
def LeavesFrom (n : Nat) (m : Taking α) : Prop :=
  ∀ ⦃a v b⦄, m a = .ok (v, b) → b.positional.drop n = a.positional.drop n

variable {n position : Nat}

theorem LeavesFrom.pure (v : α) : LeavesFrom n (Pure.pure v : Taking α) := by
  rintro _ _ _ ⟨⟩
  rfl

theorem LeavesFrom.throw (f : ReplayFault) : LeavesFrom n (MonadExcept.throw f : Taking α) := by
  rintro _ _ _ ⟨⟩

theorem LeavesFrom.bind {m : Taking α} {f : α → Taking β} (h : LeavesFrom n m)
    (hf : ∀ v, LeavesFrom n (f v)) : LeavesFrom n (m >>= f) := by
  intro a v b hb
  obtain ⟨u, mid, hu, hv⟩ := bind_eq_ok.mp hb
  exact (hf u hv).trans (h hu)

theorem leavesFrom_lift (m : Faulty α) : LeavesFrom n (liftM m : Taking α) := by
  intro a v b hb
  rw [(lift_eq_ok.mp hb).2]

theorem leavesFrom_takeAt (h : position < n) : LeavesFrom n (takeAt position) := by
  intro a v b hb
  rw [takeAt, bind_run, get_run] at hb
  rcases hp : a.positional[position]? with _ | _ | value
  · simp only [hp] at hb
    rw [(pure_eq_ok.mp hb).2]
  · simp only [hp] at hb
    rw [(pure_eq_ok.mp hb).2]
  · simp only [hp] at hb
    obtain ⟨-, rfl⟩ := Prod.mk.inj (Except.ok.inj hb)
    exact List.drop_set_of_lt h

theorem leavesFrom_takeKeyword (name : String) : LeavesFrom n (takeKeyword name) := by
  rintro a _ _ ⟨⟩
  rfl

theorem leavesFrom_expression (h : position < n) (name : String) :
    LeavesFrom n (expression position name) := by
  have htake : LeavesFrom n (take? position name) := by
    refine (leavesFrom_takeAt h).bind fun value => ?_
    cases value with
    | some value => exact .pure _
    | none => exact leavesFrom_takeKeyword name
  have hrequired : LeavesFrom n (required position name) := by
    refine htake.bind fun value => ?_
    cases value with
    | some value => exact .pure value
    | none => exact .bind (by rintro _ _ _ ⟨⟩; rfl) fun _ => .throw _
  exact hrequired.bind fun value => leavesFrom_lift value.toExpression

theorem mapM_eq_nil {f : α → Taking β} {values : List α} {a b : Arguments}
    (h : values.mapM f a = .ok ([], b)) : values = [] := by
  cases values with
  | nil => rfl
  | cons value values =>
    rw [List.mapM_cons] at h
    obtain ⟨_, _, -, h⟩ := bind_eq_ok.mp h
    obtain ⟨_, _, -, h⟩ := bind_eq_ok.mp h
    nomatch (pure_eq_ok.mp h).1

/-- There are no texts from a position on only if there is no argument from there on. -/
theorem texts_eq_nil {a b : Arguments} (h : texts n a = .ok ([], b)) :
    (a.positional.drop n).filterMap id = [] := by
  obtain ⟨values, _, hvalues, h⟩ := bind_eq_ok.mp h
  obtain ⟨rfl, -⟩ := Prod.mk.inj (Except.ok.inj hvalues)
  exact mapM_eq_nil h

end Taking

-- ---------------------------------------------------------------------------
-- What calls give
-- ---------------------------------------------------------------------------

/-- Every step that the call gives respects the relation. -/
abbrev GivesStep (R : Draft → Draft → Prop) (call : Taking (Build α)) : Prop :=
  Gives (fun step => Simulates R step step) call

/-- A step without a value. -/
theorem noValue_respects {step : Build Unit} (hs : Simulates R step step) :
    Simulates R (noValue step) (noValue step) :=
  hs.bind fun _ => .pure _

section
variable {E : Prop} {R : Draft → Draft → Prop} (hR : Build.Respected E R)
include hR

theorem plain_respects (action : Action) (ha : action.isPlain = true) :
    Simulates R (noValue (Build.act action)) (noValue (Build.act action)) :=
  noValue_respects (hR.plain action ha)

theorem gives_play : GivesStep R play := by
  refine .after fun _ => .after fun (pulse, amp) => .after fun element => .after fun duration =>
    .after fun _ => .after fun _ => .after fun _ => .after fun _ => .after fun _ => .after fun _ =>
      .after fun _ => .after fun _ => .after fun _ => .after fun _ => .after fun _ => .after fun _ =>
        .pure ?_
  exact noValue_respects (hR.single (.play _ _ _) (Leaf.run_single rfl) rfl rfl)

theorem gives_measure : GivesStep R measure := by
  refine .after fun _ => .after fun (pulse, amp) => ?_
  cases pulse with
  | ramp => exact .throw _
  | named pulse =>
    refine .after fun _ => .after fun _ => .after fun _ => .after fun _ => .after fun _ => .after fun _ =>
      .after fun _ => .pure ?_
    exact noValue_respects (hR.single (.measure _ _ _) (Leaf.run_single rfl) rfl rfl)

theorem gives_callLibraryFunction : GivesStep R callLibraryFunction := by
  refine .after fun library => ?_
  split
  · exact .throw _
  · exact .after fun _ => .after fun _ => .after fun _ => .after fun _ =>
      .pure ((hR.libraryCall _ _ _).map _)

theorem gives_builtin {name : String} (hn : name ≠ "fast_frame_rotation") : GivesStep R (builtin name) := by
  unfold builtin
  split
  · exact .after fun _ => .after fun _ => .after fun _ => .after fun _ =>
      .pure ((hR.declare _ _ _).map _)
  · exact .after fun _ => .after fun _ => .after fun _ => .after fun _ => .after fun _ =>
      .pure ((hR.declareInputStream _ _ _ _).map _)
  · exact .after fun _ => .pure ((hR.declareStream _).map _)
  · exact gives_play hR
  · exact gives_measure hR
  · exact .after fun _ => .pure (.pure _)
  · exact .after fun _ => .after fun _ => .pure ((hR.amp _).map _)
  · exact .after fun _ => .after fun _ => .pure (plain_respects hR _ rfl)
  · exact .after fun _ => .pure (plain_respects hR _ rfl)
  · exact .pure (plain_respects hR _ rfl)
  · exact .after fun _ => .after fun _ => .after fun _ => .after fun _ => .pure (plain_respects hR _ rfl)
  · exact .after fun _ => .after fun _ => .after fun _ => .after fun _ => .after fun _ =>
      .pure (plain_respects hR _ rfl)
  · exact .after fun _ => .after fun _ => .after fun _ => .pure (plain_respects hR _ rfl)
  · exact .after fun _ => .pure (plain_respects hR _ rfl)
  · exact .after fun elements => .pure (noValue_respects
      (hR.single (.resetFrame elements) (Leaf.run_each rfl) rfl rfl))
  · exact .after fun angle => .after fun elements => .pure (noValue_respects
      (hR.single (.frameRotation angle elements) (Leaf.run_each rfl) rfl rfl))
  · exact .after fun angle => .after fun elements => .pure (noValue_respects
      (hR.single (.frameRotation2pi angle elements) (Leaf.run_each rfl) rfl rfl))
  · exact absurd rfl hn
  · exact .after fun _ => .after fun _ => .after fun _ => .pure (plain_respects hR _ rfl)
  · exact .after fun _ => .after fun _ => .after fun _ => .after fun _ => .after fun _ => .after fun _ =>
      .after fun _ => .pure (noValue_respects
        (hR.single (.waitForTrigger _ _ _ _) (Leaf.run_single rfl) rfl rfl))
  · exact .after fun _ => .after fun _ =>
      .pure (noValue_respects (hR.single (.assign _ _) (Leaf.run_single rfl) rfl rfl))
  · exact .after fun _ => .after fun _ => .after fun _ =>
      .pure (noValue_respects (hR.single (.save _ _) (Leaf.run_single rfl) rfl rfl))
  · exact .after fun _ => .pure (plain_respects hR _ rfl)
  · exact gives_callLibraryFunction hR
  · exact .after fun _ => .pure (noValue_respects (hR.loopCondition _))
  · exact .throw _

/-- The step of a fast rotation, which has no elements if no arguments follow the coefficients. -/
theorem fastRotation_respects {function : String} {arguments : List Value} {keywords : List (String × Value)}
    (hE : arguments.length < 3 → E)
    (h : builtin "fast_frame_rotation" (.of function arguments keywords) = .ok (step, left)) :
    Simulates R step step := by
  obtain ⟨cosine, a, ha, h⟩ := bind_eq_ok.mp h
  obtain ⟨sine, b, hb, h⟩ := bind_eq_ok.mp h
  obtain ⟨elements, c, hc, h⟩ := bind_eq_ok.mp h
  obtain ⟨rfl, -⟩ := pure_eq_ok.mp h
  refine noValue_respects ?_
  rw [← Leaf.run_fastFrameRotation]
  refine hR.leaf _ ⟨rfl, fun he => hE ?_⟩
  cases elements with
  | cons element elements => nomatch he
  | nil =>
    have hnone := Taking.texts_eq_nil hc
    rw [Taking.leavesFrom_expression (by decide) _ hb, Taking.leavesFrom_expression (by decide) _ ha] at hnone
    have hlength : (arguments.drop 2).length = 0 := by
      simpa [Arguments.of, ← List.map_drop] using congrArg List.length hnone
    rw [List.length_drop] at hlength
    omega

theorem gives_callStream (inProgram : Bool) (name : String) (stream : StreamToken) :
    GivesStep R (callStream inProgram name stream) := by
  unfold callStream
  split
  · refine .after fun tag => ?_
    split
    · exact .pure (noValue_respects (hR.registerSave _ _ _))
    · exact .throw _
  · exact .after fun _ => .pure (.pure _)

theorem gives_method (inProgram : Bool) (receiver : Value) (name : String) :
    GivesStep R (method inProgram receiver name) := by
  unfold method
  split
  · split
    · exact .after fun _ => .pure (.pure _)
    · exact .throw _
  · split
    · exact .pure (.pure _)
    · exact gives_callStream hR _ _ _
  · exact gives_callStream hR _ _ _
  · exact .throw _

theorem gives_moduleFunction (inProgram : Bool) (module name : String) :
    GivesStep R (moduleFunction inProgram module name) := by
  unfold moduleFunction
  split
  · split
    · exact .after fun _ => .after fun _ => .pure ((hR.libraryCall _ _ _).map _)
    · exact .after fun _ => .throw _
  · split
    · exact .after fun _ => .pure (.pure _)
    · exact .after fun _ => .pure (.pure _)

theorem gives_scope (name : String) : GivesStep R (scope name) := by
  unfold scope
  split
  · exact .after fun _ => .after fun _ => .pure (hR.enter (.conditional _ _))
  · exact .map fun condition => hR.enter (.elif condition)
  · exact .pure (hR.enter .otherwise)
  · exact .after fun _ => .after fun _ => .pure (hR.enter (.switch _ _))
  · exact .map fun value => hR.enter (.case value)
  · exact .pure (hR.enter .default)
  · refine .after fun _ => ?_
    split
    · exact .pure (hR.enter .loop)
    · exact .after fun _ => .after fun _ => .after fun _ => .after fun _ =>
        .pure (hR.opening (.counted _ _ _ _))
  · exact .pure (hR.enter (.loopPart .init))
  · exact .pure (hR.enter (.loopPart .update))
  · exact .pure (hR.enter (.loopPart .body))
  · refine .after fun condition => ?_
    cases condition with
    | some condition => exact .after fun _ => .pure (hR.opening (.whileLoop _))
    | none => exact .pure (hR.opening .infiniteLoop)
  · exact .pure (hR.opening .infiniteLoop)
  · exact .after fun _ => .after fun _ => .after fun (_, _) => .after fun _ =>
      .pure (hR.opening (.forEach _ _))
  · exact .pure (hR.opening .strictTiming)
  · exact .pure (hR.enter .results)
  · exact .throw _

end

-- ---------------------------------------------------------------------------
-- Terms
-- ---------------------------------------------------------------------------

/-- States with related drafts, and all else the same. -/
def State.Related (R : Draft → Draft → Prop) (s t : State) : Prop :=
  R s.draft t.draft ∧ t = { s with draft := t.draft }

/-- The replay respects the relation of drafts. -/
abbrev Respects (R : Draft → Draft → Prop) (m : Replay α) : Prop := Simulates (State.Related R) m m

section
variable {E : Prop} {R : Draft → Draft → Prop}

theorem respects_fault (f : ReplayFault) : Respects R (fault f : Replay α) := .throw _ _

theorem respects_liftFaulty (result : Faulty α) : Respects R (liftFaulty result) := by
  cases result with
  | ok value => exact .pure value
  | error f => exact respects_fault f

theorem respects_build {step : Build α} (h : Simulates R step step) : Respects R (build step) := by
  rintro s t ⟨hdraft, ht⟩ a s' ha
  unfold build at ha ⊢
  cases hs : step s.draft with
  | error e =>
    rw [hs] at ha
    nomatch ha
  | ok result =>
    obtain ⟨b, d⟩ := result
    rw [hs] at ha
    obtain ⟨rfl, rfl⟩ := Prod.mk.inj (Except.ok.inj ha)
    obtain ⟨e, he, hde⟩ := h hdraft hs
    refine ⟨{ t with draft := e }, by rw [he], hde, ?_⟩
    rw [ht]

theorem respects_lifted {result : Faulty α} {f : α → Replay β}
    (h : ∀ a, result = .ok a → Respects R (f a)) : Respects R (liftFaulty result >>= f) := by
  cases result with
  | ok a => exact h a rfl
  | error e =>
    intro s t hst b s' hb
    nomatch hb

theorem respects_perform {call : Taking (Build α)} {arguments : Arguments}
    (h : ∀ step left, call arguments = .ok (step, left) → Simulates R step step) :
    Respects R (perform call arguments) :=
  respects_lifted fun (_, _) hc => .bind (respects_build (h _ _ hc)) fun _ =>
    .bind (respects_liftFaulty _) fun _ => .pure _

theorem simulates_get {f f' : State → Replay α}
    (h : ∀ s t, s.Related R t → Simulates (State.Related R) (f s) (f' t)) :
    Simulates (State.Related R) (get >>= f) (get >>= f') :=
  fun s t hst _ _ ha => h s t hst hst ha

/-- What is read of the state besides the draft. -/
theorem respects_get {f : State → Replay α}
    (hf : ∀ (s : State) (d : Draft), f { s with draft := d } = f s) (h : ∀ s, Respects R (f s)) :
    Respects R (get >>= f) := by
  refine simulates_get fun s t hst => ?_
  have hft : f t = f s := by rw [hst.2, hf]
  rw [hft]
  exact h s

theorem simulates_set {s t : State} (h : s.Related R t) :
    Simulates (State.Related R) (set s : Replay Unit) (set t) := by
  rintro _ _ _ _ _ ⟨⟩
  exact ⟨t, rfl, h⟩

theorem respects_modify {f : State → State} (hf : ∀ s t, s.Related R t → (f s).Related R (f t)) :
    Respects R (modify f : Replay Unit) :=
  simulates_get fun s t h => simulates_set (hf s t h)

theorem respects_isBound (name : String) : Respects R (isBound name) :=
  respects_get (fun _ _ => rfl) fun _ => .pure _

theorem respects_lookup (name : String) : Respects R (lookup name) := by
  refine respects_get (fun _ _ => rfl) fun s => ?_
  split
  · exact .pure _
  · split
    · exact .pure _
    · split
      · exact .pure _
      · exact respects_fault _

theorem respects_callBuiltin (hR : Build.Respected E R) {name : String} {arguments : List Value}
    (hE : NamedCall.IsEmptyRotation ⟨name, arguments.length⟩ → E) (keywords : List (String × Value)) :
    Respects R (callBuiltin name (.of name arguments keywords)) := by
  refine respects_get (fun _ _ => rfl) fun s => ?_
  split
  · refine respects_perform fun _ _ h => ?_
    by_cases hn : name = "fast_frame_rotation"
    · subst hn
      exact fastRotation_respects hR (fun hlength => hE ⟨rfl, hlength⟩) h
    · exact gives_builtin hR hn h
  · exact respects_fault _

/-- There are as many values as terms. -/
theorem gives_evaluateAll :
    (terms : List Term) → Gives (fun values => values.length = terms.length) (evaluateAll terms)
  | [] => .pure rfl
  | _ :: rest => .after fun _ => (gives_evaluateAll rest).bind fun _ h => .pure (congrArg Nat.succ h)

mutual

theorem respects_evaluate (hR : Build.Respected E R) :
    (t : Term) → Allows E t.calls → Respects R (evaluate t)
  | .name name, _ => respects_lookup name
  | .int n, _ => respects_liftFaulty _
  | .float _, _ => .pure _
  | .string _, _ => .pure _
  | .bool _, _ => .pure _
  | .none, _ => .pure _
  | .tuple items, hE => (respects_evaluateAll hR items hE).bind fun _ => .pure _
  | .list items, hE => (respects_evaluateAll hR items hE).bind fun _ => .pure _
  | .dict entries, hE => (respects_evaluateEntries hR entries hE).bind fun _ => .pure _
  | .call (.name name) arguments keywords, hE => by
    obtain ⟨hcall, hE⟩ := allows_cons.mp hE
    obtain ⟨ha, hk⟩ := allows_append.mp hE
    have harguments := respects_evaluateAll hR arguments ha
    have hkeywords := respects_evaluateKeywords hR keywords hk
    rw [evaluate]
    refine (respects_isBound name).bind fun isBound => ?_
    split
    · exact respects_fault _
    · exact harguments.bind_gives (gives_evaluateAll arguments) fun values hlength =>
        hkeywords.bind fun _ => respects_callBuiltin hR (hlength ▸ hcall) _
  | .call (.attribute value name) arguments keywords, hE => by
    obtain ⟨hv, hE⟩ := allows_append.mp hE
    obtain ⟨ha, hk⟩ := allows_append.mp hE
    have hvalue := respects_evaluate hR value hv
    have harguments := respects_evaluateAll hR arguments ha
    have hkeywords := respects_evaluateKeywords hR keywords hk
    have hmethod {receiver : Replay Value} (h : Respects R receiver) : Respects R (do
        let inProgram := (← get).inProgram
        let receiver ← receiver
        let arguments ← evaluateAll arguments
        let keywords ← evaluateKeywords keywords
        perform (method inProgram receiver name) (.of name arguments keywords)) :=
      respects_get (fun _ _ => rfl) fun _ => h.bind fun _ => harguments.bind fun _ =>
        hkeywords.bind fun _ => respects_perform fun _ _ hc => gives_method hR _ _ _ hc
    cases value with
    | name module =>
      refine respects_get (fun _ _ => rfl) fun s => (respects_isBound module).bind fun isBound => ?_
      split
      · exact harguments.bind fun _ => hkeywords.bind fun _ =>
          respects_perform fun _ _ hc => gives_moduleFunction hR _ _ _ hc
      · exact (respects_lookup module).bind fun _ => harguments.bind fun _ => hkeywords.bind fun _ =>
          respects_perform fun _ _ hc => gives_method hR _ _ _ hc
    | _ => exact hmethod hvalue
  | .call (.int _) _ _, _ | .call (.float _) _ _, _ | .call (.string _) _ _, _ | .call (.bool _) _ _, _
  | .call .none _ _, _ | .call (.tuple _) _ _, _ | .call (.list _) _ _, _ | .call (.dict _) _ _, _
  | .call (.call ..) _ _, _ | .call (.index ..) _ _, _ | .call (.binary ..) _ _, _
  | .call (.unary ..) _ _, _ => respects_fault _
  | .attribute _ _, _ => respects_fault _
  | .index value index, hE =>
    (respects_evaluate hR value (allows_append.mp hE).1).bind fun _ =>
      (respects_evaluate hR index (allows_append.mp hE).2).bind fun _ => respects_liftFaulty _
  | .binary _ left right, hE =>
    (respects_evaluate hR left (allows_append.mp hE).1).bind fun _ =>
      (respects_evaluate hR right (allows_append.mp hE).2).bind fun _ => respects_liftFaulty _
  | .unary _ operand, hE => (respects_evaluate hR operand hE).bind fun _ => respects_liftFaulty _

theorem respects_evaluateAll (hR : Build.Respected E R) :
    (terms : List Term) → Allows E (Script.callsAll terms) → Respects R (evaluateAll terms)
  | [], _ => .pure _
  | term :: rest, hE =>
    (respects_evaluate hR term (allows_append.mp hE).1).bind fun _ =>
      (respects_evaluateAll hR rest (allows_append.mp hE).2).bind fun _ => .pure _

theorem respects_evaluateKeywords (hR : Build.Respected E R) : (keywords : List (String × Term)) →
    Allows E (Script.callsKeywords keywords) → Respects R (evaluateKeywords keywords)
  | [], _ => .pure _
  | (_, term) :: rest, hE =>
    (respects_evaluate hR term (allows_append.mp hE).1).bind fun _ =>
      (respects_evaluateKeywords hR rest (allows_append.mp hE).2).bind fun _ => .pure _

theorem respects_evaluateEntries (hR : Build.Respected E R) : (entries : List (Term × Term)) →
    Allows E (Script.callsEntries entries) → Respects R (evaluateEntries entries)
  | [], _ => .pure _
  | (key, value) :: rest, hE =>
    have hrest := allows_append.mp (allows_append.mp hE).2
    (respects_evaluate hR key (allows_append.mp hE).1).bind fun _ =>
      (respects_evaluate hR value hrest.1).bind fun _ => respects_evaluateEntries hR rest hrest.2

end

-- ---------------------------------------------------------------------------
-- Statements
-- ---------------------------------------------------------------------------

theorem simulates_setLocation (hR : Build.Respected E R) (l l' : String) :
    Simulates (State.Related R) (setLocation l) (setLocation l') := by
  rintro s t ⟨hst, ht⟩ _ _ ⟨⟩
  refine ⟨_, rfl, hR.located _ _ l l' hst, ?_⟩
  rw [ht]

theorem simulates_atLine {m m' : Replay α} (h : Simulates (State.Related R) m m') (line line' : Nat) :
    Simulates (State.Related R) (atLine line m) (atLine line' m') := by
  intro s t hst a s' ha
  unfold atLine at ha ⊢
  cases hm : m s with
  | error e =>
    rw [hm] at ha
    nomatch ha
  | ok result =>
    rw [hm] at ha
    obtain rfl := Except.ok.inj ha
    obtain ⟨t', ht, hst'⟩ := h hst hm
    exact ⟨t', by rw [ht], hst'⟩

/-- A fault, or else the rest. -/
theorem simulates_unless {c : Prop} [Decidable c] (f : ReplayFault) {k k' : PUnit → Replay α}
    (h : Simulates (State.Related R) (k ()) (k' ())) :
    Simulates (State.Related R) (if c then fault f >>= k else k ())
      (if c then fault f >>= k' else k' ()) := by
  split
  · rintro _ _ _ _ _ ⟨⟩
  · exact h

theorem respects_openScope (hR : Build.Respected E R) (context : Term) (hE : Allows E context.calls) :
    Respects R (openScope context) := by
  refine respects_get (fun _ _ => rfl) fun s => simulates_unless _ ?_
  cases context with
  | call function arguments keywords =>
    dsimp only
    cases function with
    | name name =>
      obtain ⟨ha, hk⟩ := allows_append.mp (allows_cons.mp hE).2
      exact simulates_unless _ ((respects_evaluateAll hR _ ha).bind fun _ =>
        (respects_evaluateKeywords hR _ hk).bind fun _ =>
          respects_perform fun _ _ hc => gives_scope hR name hc)
    | _ => exact respects_fault _
  | _ => exact respects_fault _

theorem respects_bind (name : String) (value : Value) : Respects R (bind name value) := by
  refine respects_modify fun s t h => ⟨h.1, ?_⟩
  rw [h.2]

mutual

theorem simulates_statement (hR : Build.Respected E R) : {s s' : Stmt} → Script.Alike s s' →
    Allows E s.calls → Simulates (State.Related R) (statement s) (statement s')
  | _, _, .pass, _ => .pure _
  | _, _, .importing, _ => .pure _
  | .assign _ target _, _, .assign, hE => by
    rw [statement, statement]
    cases target.name? with
    | some name => exact (respects_evaluate hR _ hE).bind fun value => respects_bind name value
    | none => exact respects_fault _
  | _, _, .term, hE => (respects_evaluate hR _ hE).bind fun _ => .pure _
  | _, _, .block h, hE =>
    (respects_openScope hR _ (allows_append.mp hE).1).bind fun id =>
      (simulates_statements hR h (allows_append.mp hE).2).bind fun _ => respects_build (hR.close id)

theorem simulates_statements (hR : Build.Respected E R) : {ss ss' : List Stmt} → Script.AllAlike ss ss' →
    Allows E (Script.callsBlock ss) → Simulates (State.Related R) (statements ss) (statements ss')
  | _, _, .nil, _ => .pure _
  | _, _, .cons h hs, hE => (simulates_setLocation hR _ _).bind fun _ =>
    (simulates_atLine (simulates_statement hR h (allows_append.mp hE).1) _ _).bind fun _ =>
      simulates_statements hR hs (allows_append.mp hE).2

end

theorem simulates_topLevel (hR : Build.Respected E R) (h : Script.Alike s s') (hE : Allows E s.calls) :
    Simulates (State.Related R) (topLevel s) (topLevel s') := by
  cases h with
  | @block _ _ _ context _ _ h =>
    rw [topLevel, topLevel]
    cases programCall? context with
    | none => exact respects_fault _
    | some hasArguments =>
      refine simulates_unless _ (simulates_get fun s t hst => ?_)
      have hprograms : t.programs = s.programs := by rw [hst.2]
      rw [hprograms]
      refine simulates_unless _ ((simulates_set ?_).bind fun _ =>
        (simulates_statements hR h (allows_append.mp hE).2).bind fun _ =>
          respects_modify fun u v huv => ⟨huv.1, ?_⟩)
      · refine ⟨hst.1, ?_⟩
        rw [hst.2]
      · rw [huv.2]
  | assign => exact simulates_statement hR .assign hE
  | term => exact simulates_statement hR .term hE
  | pass => exact simulates_statement hR .pass hE
  | importing => exact simulates_statement hR .importing hE

theorem simulates_topLevels (hR : Build.Respected E R) (h : Script.AllAlike ss ss')
    (hE : Allows E (Script.callsBlock ss)) :
    Simulates (State.Related R) (ss.forM fun s => atLine s.line (topLevel s))
      (ss'.forM fun s => atLine s.line (topLevel s)) := by
  induction ss generalizing ss' with
  | nil =>
    cases h
    exact .pure _
  | cons s ss ih =>
    cases h with
    | cons h hs =>
      exact (simulates_atLine (simulates_topLevel hR h (allows_append.mp hE).1) _ _).bind fun _ =>
        ih hs (allows_append.mp hE).2

end

end Replay
end Qua
