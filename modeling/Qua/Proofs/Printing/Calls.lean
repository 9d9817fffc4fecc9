import Qua.Proofs.Printing.Values
import Qua.Proofs.Replay.Steps

/-!
# Calls that keep a draft printable

A call whose arguments can be printed gives a step that keeps the draft printable, and whose value can be
printed. The exception is the call for a buffer, which can be one without dimensions.
-/

namespace Qua.Replay

open Taking (LeavesFrom)

section
variable {H : Hazard → Prop}

/-- All arguments that have not been taken can be printed. -/
structure Arguments.Prints (H : Hazard → Prop) (a : Arguments) : Prop where
  positional : ∀ given ∈ a.positional, ∀ v ∈ given, v.Prints H
  keywords : ∀ given ∈ a.keywords, ∀ v ∈ given.2, v.Prints H

theorem Arguments.prints_of (function : String) {values : List Value} {keywords : List (String × Value)}
    (hv : ∀ v ∈ values, v.Prints H) (hk : ∀ k ∈ keywords, k.2.Prints H) :
    (Arguments.of function values keywords).Prints H := by
  constructor
  · refine List.forall_mem_map.mpr fun v hm => ?_
    rintro _ ⟨⟩
    exact hv v hm
  · refine List.forall_mem_map.mpr fun k hm => ?_
    rintro _ ⟨⟩
    exact hk k hm

namespace Taking

/-- From arguments that can be printed, what is taken has the property. -/
abbrev Sound (H : Hazard → Prop) (P : α → Prop) (m : Taking α) : Prop := Preserves (Arguments.Prints H) P m

/-- From arguments that can be printed, the call makes steps that keep a draft printable. -/
abbrev Makes (H : Hazard → Prop) (P : α → Prop) (call : Taking (Build α)) : Prop :=
  Sound H (Build.Sound (printing H) P) call

-- ---------------------------------------------------------------------------
-- Taking arguments
-- ---------------------------------------------------------------------------

theorem forall_none {P : Value → Prop} : ∀ v ∈ (none : Option Value), P v :=
  fun _ hv => absurd hv (Option.not_mem_none _)

theorem sound_takeAt (position : Nat) : Sound H (fun given => ∀ v ∈ given, v.Prints H) (takeAt position) := by
  intro a given left ha h
  rw [takeAt, bind_run, get_run] at h
  rcases hp : a.positional[position]? with _ | _ | value
  · simp only [hp] at h
    obtain ⟨rfl, rfl⟩ := pure_eq_ok.mp h
    exact ⟨forall_none, ha⟩
  · simp only [hp] at h
    obtain ⟨rfl, rfl⟩ := pure_eq_ok.mp h
    exact ⟨forall_none, ha⟩
  · simp only [hp] at h
    obtain ⟨rfl, rfl⟩ := Prod.mk.inj (Except.ok.inj h)
    refine ⟨ha.positional _ (List.mem_of_getElem? hp), fun given hg => ?_, ha.keywords⟩
    obtain hg | rfl := List.mem_or_eq_of_mem_set hg
    · exact ha.positional given hg
    · exact forall_none

/-- The value of a keyword is one of those that are given. -/
theorem forall_splitKeyword {P : Value → Prop} (name : String) {keywords : List (String × Option Value)}
    (h : ∀ given ∈ keywords, ∀ v ∈ given.2, P v) :
    (∀ v ∈ (splitKeyword name keywords).1, P v) ∧
      ∀ given ∈ (splitKeyword name keywords).2, ∀ v ∈ given.2, P v := by
  induction keywords with
  | nil => exact ⟨forall_none, List.forall_mem_nil _⟩
  | cons given keywords ih =>
    obtain ⟨hgiven, hrest⟩ := List.forall_mem_cons.mp h
    rw [splitKeyword]
    split
    · exact ⟨hgiven, List.forall_mem_cons.mpr ⟨forall_none, hrest⟩⟩
    · obtain ⟨hfound, hleft⟩ := ih hrest
      exact ⟨hfound, List.forall_mem_cons.mpr ⟨hgiven, hleft⟩⟩

theorem sound_takeKeyword (name : String) :
    Sound H (fun given => ∀ v ∈ given, v.Prints H) (takeKeyword name) := by
  rintro a _ _ ha ⟨⟩
  obtain ⟨hfound, hleft⟩ := forall_splitKeyword name ha.keywords
  exact ⟨hfound, ha.positional, hleft⟩

theorem sound_take? (position : Nat) (name : String) :
    Sound H (fun given => ∀ v ∈ given, v.Prints H) (take? position name) := by
  refine (sound_takeAt position).bind fun given hg => ?_
  cases given with
  | some v => exact .pure hg
  | none => exact sound_takeKeyword name

theorem sound_function : Sound H (fun _ => True) Taking.function := Preserves.get_state.bind fun _ _ => .pure trivial

theorem sound_required (position : Nat) (name : String) :
    Sound H (Value.Prints H) (required position name) := by
  refine (sound_take? position name).bind fun given hg => ?_
  cases given with
  | some v => exact .pure (hg v rfl)
  | none => exact sound_function.bind fun _ _ => .throw _

theorem forall_filter {P : Value → Prop} {p : Value → Bool} {given : Option Value} (h : ∀ v ∈ given, P v) :
    ∀ v ∈ given.filter p, P v :=
  fun v hv => h v (Option.mem_filter_iff.mp hv).1

theorem sound_optional (position : Nat) (name : String) :
    Sound H (fun given => ∀ v ∈ given, v.Prints H) (optional position name) :=
  (sound_take? position name).bind fun _ hg => .pure (forall_filter hg)

theorem sound_keyword (name : String) : Sound H (fun given => ∀ v ∈ given, v.Prints H) (keyword name) :=
  (sound_takeKeyword name).bind fun _ hg => .pure (forall_filter hg)

/-- What is read of a value that can be printed, if one is given. -/
theorem sound_optionalAs {Q : β → Prop} {read : Value → Faulty β} {given : Option Value}
    (hg : ∀ v ∈ given, v.Prints H) (hr : ∀ v b, v.Prints H → read v = .ok b → Q b) :
    Sound H (fun b => ∀ x ∈ b, Q x) (optionalAs read given) :=
  .mapM_option fun v hv => .lift fun b hb => hr v b (hg v hv) hb

theorem sound_rest (start : Nat) : Sound H (fun values => ∀ v ∈ values, v.Prints H) (rest start) := by
  rintro a _ _ ha ⟨⟩
  refine ⟨fun v hv => ?_, fun given hg => ?_, ha.keywords⟩
  · obtain ⟨given, hmem, rfl⟩ := List.mem_filterMap.mp hv
    exact ha.positional _ (List.mem_of_mem_drop hmem) v rfl
  · obtain hg | hg := List.mem_append.mp hg
    · exact ha.positional given (List.mem_of_mem_take hg)
    · obtain ⟨_, -, rfl⟩ := List.mem_map.mp hg
      exact forall_none

theorem sound_expression (position : Nat) (name : String) :
    Sound H (Expression.Prints H) (expression position name) :=
  (sound_required position name).bind fun _ hv => .lift fun _ he => hv.toExpression he

/-- An expression that may be missing. -/
theorem sound_readExpression {given : Option Value} (hg : ∀ v ∈ given, v.Prints H) :
    Sound H (fun e => ∀ x ∈ e, x.Prints H) (optionalAs Value.toExpression given) :=
  sound_optionalAs hg fun _ _ hv he => hv.toExpression he

-- Numbers, texts and choices are never hazards.

theorem sound_lift (m : Faulty α) : Sound H (fun _ => True) (liftM m : Taking α) := .lift fun _ _ => trivial

theorem sound_readAny (read : Value → Faulty β) (given : Option Value) :
    Sound H (fun _ => True) (optionalAs read given) :=
  (Preserves.mapM_option (Q := fun _ => True) fun _ _ => sound_lift _).mono fun _ _ => trivial

theorem sound_flag (position : Nat) (name : String) : Sound H (fun _ => True) (flag position name) :=
  (sound_optional position name).bind fun given _ => (sound_readAny _ given).bind fun _ _ => .pure trivial

theorem sound_text (position : Nat) (name : String) : Sound H (fun _ => True) (text position name) :=
  (sound_required position name).bind fun _ _ => sound_lift _

theorem sound_int (position : Nat) (name : String) : Sound H (fun _ => True) (int position name) :=
  (sound_required position name).bind fun _ _ => sound_lift _

theorem sound_texts (start : Nat) : Sound H (fun _ => True) (texts start) :=
  (sound_rest start).bind fun _ _ =>
    (Preserves.mapM (Q := fun _ => True) fun _ _ => sound_lift _).mono fun _ _ => trivial

theorem sound_choice (ofName? : String → Option α) (position : Nat) (name : String) :
    Sound H (fun _ => True) (choice ofName? position name) := by
  refine (sound_optional position name).bind fun given _ => ?_
  cases given with
  | none => exact .pure trivial
  | some v =>
    refine (sound_lift v.toText).bind fun text _ => ?_
    cases ofName? text with
    | some choice => exact .pure trivial
    | none => exact sound_function.bind fun _ _ => .throw _

end Taking

open Taking

-- ---------------------------------------------------------------------------
-- Functions of a program
-- ---------------------------------------------------------------------------

theorem keeps_noValue {step : Build Unit} (h : Build.Keeps (printing H) step) :
    Build.Sound (printing H) (Value.Prints H) (noValue step) :=
  h.bind fun _ _ => .pure trivial

theorem sound_initialValue (position : Nat) :
    Sound H (fun value => ∀ v ∈ value, ∀ l ∈ v.literals, l.Prints H) (initialValue position) :=
  (sound_optional position _).bind fun _ hg => sound_optionalAs hg fun _ _ hv hx => hv.toInitialValue hx

theorem sound_size (position : Nat) : Sound H (fun _ => True) (size position) :=
  (sound_optional position _).bind fun given _ => sound_readAny _ given

theorem makes_declare : Makes H (Value.Prints H) declare :=
  (sound_required 0 _).bind fun _ _ => (sound_lift _).bind fun t _ => (sound_initialValue 1).bind fun _ hvalue =>
    (sound_size 2).bind fun size _ => .pure ((Build.sound_declareNamed t size none hvalue).map fun _ he => he)

theorem makes_declareInputStream : Makes H (Value.Prints H) declareInputStream :=
  (sound_required 0 _).bind fun _ _ => (sound_lift _).bind fun t _ => (sound_text 1 _).bind fun name _ =>
    (sound_initialValue 2).bind fun _ hvalue => (sound_size 3).bind fun size _ =>
      .pure ((Build.sound_declareNamed t size (some name) hvalue).map fun _ he => he)

theorem prints_chirpRate {v : Value} {rate : ChirpRate} (hv : v.Prints H) (h : chirpRate v = .ok rate) :
    rate.Prints H := by
  unfold chirpRate at h
  split at h <;> obtain ⟨_, he, rfl⟩ := except_map_eq_ok.mp h
  · trivial
  · exact hv.toExpression he

theorem prints_chirp {v : Value} {options : ChirpOptions} (hv : v.Prints H) (h : chirp v = .ok options) :
    options.rate.Prints H := by
  obtain ⟨items, hitems, h⟩ := except_bind_eq_ok.mp h
  split at h
  · next rate times units =>
    have hprints : rate.Prints H := hv.toItems hitems rate List.mem_cons_self
    obtain ⟨read, hrate, h⟩ := except_bind_eq_ok.mp h
    have hrest : ∀ times : Faulty (Option (List Int64)), ((do
        let times ← times
        let units ← units.toText
        return ⟨read, times, units⟩ : Faulty ChirpOptions) = .ok options) → options.rate.Prints H := by
      intro times h
      obtain ⟨times, -, h⟩ := except_bind_eq_ok.mp h
      obtain ⟨units, -, h⟩ := except_bind_eq_ok.mp h
      obtain rfl := Except.ok.inj h
      exact prints_chirpRate hprints hrate
    split at h
    · exact hrest (pure none) h
    · exact hrest (some <$> times.toInts) h
  · cases h

theorem makes_play : Makes H (Value.Prints H) play := by
  refine (sound_required 0 _).bind fun v hv => Preserves.bind (.lift fun _ hp => hv.toPulse hp) fun _ hp =>
    (sound_text 1 _).bind fun element _ =>
    (sound_optional 2 _).bind fun _ hg => (sound_readExpression hg).bind fun duration hduration =>
    (sound_optional 3 _).bind fun _ hg => (sound_readExpression hg).bind fun condition hcondition =>
    (sound_optional 4 _).bind fun _ hg =>
    (sound_optionalAs hg fun _ _ hv hc => prints_chirp hv hc).bind fun chirp hchirp =>
    (sound_optional 5 _).bind fun _ hg => (sound_readExpression hg).bind fun truncate htruncate =>
    (sound_optional 6 _).bind fun _ _ => (sound_readAny _ _).bind fun timestamps _ =>
    (sound_flag 7 _).bind fun _ _ => (sound_optional 8 _).bind fun _ _ => (sound_readAny _ _).bind fun target _ =>
    .pure ?_
  exact keeps_noValue (Build.keeps_play _ hp.1 ⟨hp.2, hduration, hcondition, hchirp, htruncate⟩)

theorem makes_measure : Makes H (Value.Prints H) measure := by
  refine (sound_required 0 _).bind fun v hv => Preserves.bind (.lift fun _ hp => hv.toPulse hp) fun pulse hp => ?_
  obtain ⟨pulse, amp⟩ := pulse
  cases pulse with
  | ramp => exact .throw _
  | named pulse =>
    refine (sound_text 1 _).bind fun element _ =>
      (sound_optional 2 _).bind fun _ _ => (sound_readAny _ _).bind fun stream _ =>
      (sound_keyword _).bind fun _ _ => (sound_readAny _ _).bind fun timestamps _ =>
      (sound_rest 3).bind fun values hvalues =>
      Preserves.bind (.mapM fun v hm => .lift fun _ hq => (hvalues v hm).toProcess hq) fun processes hprocesses =>
      .pure (keeps_noValue (Build.keeps_measure _ _ ⟨hp.2, ?_⟩))
    exact List.forall_mem_flatMap.mpr hprocesses

theorem makes_amp : Makes H (Value.Prints H) amp :=
  (sound_rest 0).bind fun _ hvalues =>
    Preserves.bind (.mapM fun v hm => .lift fun _ he => (hvalues v hm).toExpression he) fun _ hes =>
      .pure ((Build.sound_amp hes).map fun _ h => h)

theorem makes_callLibraryFunction : Makes H (Value.Prints H) callLibraryFunction := by
  refine (sound_text 0 _).bind fun library _ => ?_
  split
  · exact .throw _
  · exact (sound_text 1 _).bind fun name _ => (sound_required 2 _).bind fun v hv =>
      Preserves.bind (.lift fun _ hi => hv.toItems hi) fun items hitems =>
      Preserves.bind (.mapM fun v hm => .lift fun _ ha => (hitems v hm).toLibraryArgument ha) fun arguments ha =>
        .pure ((Build.sound_libraryCall _ name ha).map fun _ h => h)

/-- An action of one expression. -/
theorem keeps_single {a : Action} {e : Expression} (he : e.Prints H) (ha : a.expressions = [e]) :
    Build.Sound (printing H) (Value.Prints H) (noValue (Build.act a)) :=
  keeps_noValue (Build.keeps_act fun e' h => by
    rw [ha] at h
    obtain rfl := List.mem_singleton.mp h
    exact he)

/-- An action without expressions. -/
theorem keeps_plain {a : Action} (ha : a.expressions = []) :
    Build.Sound (printing H) (Value.Prints H) (noValue (Build.act a)) :=
  keeps_noValue (Build.keeps_act fun e h => by
    rw [ha] at h
    cases h)

theorem makes_builtin (name : String) : Makes H (Value.Prints H) (builtin name) := by
  unfold builtin
  split
  · exact makes_declare
  · exact makes_declareInputStream
  · exact (sound_flag 0 _).bind fun isAdcTrace _ =>
      .pure ((Build.keeps_declareStream isAdcTrace).map fun _ _ => trivial)
  · exact makes_play
  · exact makes_measure
  · exact (sound_expression 0 _).bind fun rate hrate =>
      .pure (.pure ⟨List.forall_mem_singleton.mpr hrate, List.forall_mem_nil _⟩)
  · exact makes_amp
  · exact (sound_expression 0 _).bind fun _ he => (sound_texts 1).bind fun _ _ => .pure (keeps_single he rfl)
  · exact (sound_texts 0).bind fun _ _ => .pure (keeps_plain rfl)
  · exact .pure (keeps_plain rfl)
  · exact (sound_text 0 _).bind fun _ _ => (sound_expression 1 _).bind fun _ he =>
      (sound_choice _ 2 _).bind fun _ _ => (sound_flag 3 _).bind fun _ _ => .pure (keeps_single he rfl)
  · refine (sound_text 0 _).bind fun _ _ => (sound_expression 1 _).bind fun _ h00 =>
      (sound_expression 2 _).bind fun _ h01 => (sound_expression 3 _).bind fun _ h10 =>
      (sound_expression 4 _).bind fun _ h11 => .pure (keeps_noValue (Build.keeps_act ?_))
    simp only [printing, Action.expressions, Matrix.toList, List.forall_mem_cons]
    exact ⟨h00, h01, h10, h11, List.forall_mem_nil _⟩
  · exact (sound_text 0 _).bind fun _ _ => (sound_text 1 _).bind fun _ _ =>
      (sound_expression 2 _).bind fun _ he => .pure (keeps_single he rfl)
  · exact (sound_text 0 _).bind fun _ _ => .pure (keeps_plain rfl)
  · exact (sound_texts 0).bind fun _ _ => .pure (keeps_noValue (.forM fun e _ => Build.keeps_resetFrame e))
  · exact (sound_expression 0 _).bind fun _ he => (sound_texts 1).bind fun _ _ =>
      .pure (keeps_noValue (.forM fun e _ => Build.keeps_frameRotation2pi (Build.prints_inTurns he) e))
  · exact (sound_expression 0 _).bind fun _ he => (sound_texts 1).bind fun _ _ =>
      .pure (keeps_noValue (.forM fun e _ => Build.keeps_frameRotation2pi he e))
  · exact (sound_expression 0 _).bind fun _ hc => (sound_expression 1 _).bind fun _ hs =>
      (sound_texts 2).bind fun _ _ => .pure (keeps_noValue ((Build.keeps_modifyMetadata _).bind fun _ _ =>
        .forM fun e _ => Build.keeps_fastFrameRotation hc hs e))
  · exact (sound_text 0 _).bind fun _ _ => (sound_optional 1 _).bind fun _ _ => (sound_readAny _ _).bind fun _ _ =>
      .pure (keeps_plain rfl)
  · exact (sound_keyword _).bind fun _ _ => (sound_readAny _ _).bind fun _ _ =>
      (sound_keyword _).bind fun _ _ => (sound_readAny _ _).bind fun _ _ =>
      (sound_keyword _).bind fun _ _ => (sound_readAny _ _).bind fun _ _ => (sound_texts 0).bind fun _ _ =>
      .pure (keeps_noValue (Build.keeps_waitForTrigger _ _ _ _))
  · exact (sound_expression 0 _).bind fun _ ht => (sound_expression 1 _).bind fun _ hv =>
      .pure (keeps_noValue (Build.keeps_assign ht hv))
  · exact (sound_expression 0 _).bind fun _ hs => (sound_required 1 _).bind fun _ _ => (sound_lift _).bind fun _ _ =>
      .pure (keeps_noValue (Build.keeps_save hs _))
  · exact (sound_expression 0 _).bind fun _ he => .pure (keeps_single he rfl)
  · exact makes_callLibraryFunction
  · exact (sound_expression 0 _).bind fun _ hc => .pure (keeps_noValue (Build.keeps_setLoopCondition hc))
  · exact .throw _

-- ---------------------------------------------------------------------------
-- Scopes
-- ---------------------------------------------------------------------------

theorem prints_forEachArguments {targets values : Value} {targets' : List Value} {values' : List ForEachValues}
    (ht : targets.Prints H) (hv : values.Prints H)
    (h : forEachArguments targets values = .ok (targets', values')) :
    (∀ v ∈ targets', v.Prints H) ∧ ∀ v ∈ values', v.Prints H := by
  have hmany {items : List Value} (hitems : Value.AllPrint H items) (h : (do
      let values ← values.toItems
      let values ← values.mapM Value.toForEachValues
      return (items, values) : Faulty (List Value × List ForEachValues)) = .ok (targets', values')) :
      (∀ v ∈ targets', v.Prints H) ∧ ∀ v ∈ values', v.Prints H := by
    obtain ⟨given, hgiven, h⟩ := except_bind_eq_ok.mp h
    obtain ⟨read, hread, h⟩ := except_bind_eq_ok.mp h
    obtain ⟨rfl, rfl⟩ := Prod.mk.inj (Except.ok.inj h)
    exact ⟨Value.allPrint_iff.mp hitems,
      except_mapM_forall hread fun v hm _ hr => (hv.toItems hgiven v hm).toForEachValues hr⟩
  unfold forEachArguments at h
  split at h
  · exact hmany ht h
  · exact hmany ht h
  · obtain ⟨read, hread, h⟩ := except_bind_eq_ok.mp h
    obtain ⟨rfl, rfl⟩ := Prod.mk.inj (Except.ok.inj h)
    exact ⟨List.forall_mem_singleton.mpr ht, List.forall_mem_singleton.mpr (hv.toForEachValues hread)⟩

theorem makes_forEach : Makes H (fun _ => True) forEach :=
  (sound_required 0 _).bind fun _ ht => (sound_required 1 _).bind fun _ hv =>
    Preserves.bind (.lift fun _ h => prints_forEachArguments ht hv h) fun _ hread =>
    Preserves.bind (.mapM (Q := fun _ => True) fun _ _ => sound_lift _) fun targets _ =>
      .pure (Build.keeps_openForEach targets hread.2)

theorem makes_countedLoop : Makes H (fun _ => True) countedLoop := by
  refine Preserves.get_state.bind fun a _ => ?_
  split
  · exact .pure Build.keeps_openLoop
  · exact (sound_expression 0 _).bind fun _ ht => (sound_expression 1 _).bind fun _ hi =>
      (sound_expression 2 _).bind fun _ hc => (sound_expression 3 _).bind fun _ hu =>
        .pure (Build.keeps_openFor ht hi hc hu)

theorem makes_scope (name : String) : Makes H (fun _ => True) (scope name) := by
  have hforever : Build.Keeps (printing H) Build.openInfiniteLoop :=
    Build.keeps_openWhile (Literal.renders_bool true)
  unfold scope
  split
  · exact (sound_expression 0 _).bind fun _ hc => (sound_flag 1 _).bind fun isUnsafe _ =>
      .pure (Build.keeps_openIf hc isUnsafe)
  · exact (sound_expression 0 _).map fun _ hc => Build.keeps_openElif hc
  · exact .pure Build.keeps_openElse
  · exact (sound_expression 0 _).bind fun _ hv => (sound_flag 1 _).bind fun isUnsafe _ =>
      .pure (Build.keeps_openSwitch hv isUnsafe)
  · exact (sound_expression 0 _).map fun _ hv => Build.keeps_openCase hv
  · exact .pure Build.keeps_openDefault
  · exact makes_countedLoop
  · exact .pure (Build.keeps_openLoopPart .init)
  · exact .pure (Build.keeps_openLoopPart .update)
  · exact .pure (Build.keeps_openLoopPart .body)
  · refine (sound_optional 0 _).bind fun given hg => ?_
    cases given with
    | some v =>
      exact Preserves.bind (.lift fun _ he => (hg v rfl).toExpression he) fun _ hc => .pure (Build.keeps_openWhile hc)
    | none => exact .pure hforever
  · exact .pure hforever
  · exact makes_forEach
  · exact .pure Build.keeps_openStrictTiming
  · exact .pure Build.keeps_openResults
  · exact .throw _

-- ---------------------------------------------------------------------------
-- Measure processes
-- ---------------------------------------------------------------------------

/-- The expressions of the process can be printed. -/
abbrev PrintsProcess (H : Hazard → Prop) (process : MeasureProcess) : Prop :=
  ∀ e ∈ process.expressions, e.Prints H

theorem sound_analog (kind : AnalogKind) (weights : IntegrationWeights) {m : Except ExpressionError ProcessTarget}
    (h : ∀ t, m = .ok t → t.expression.Prints H) :
    Sound H (PrintsProcess H) ((fun t => MeasureProcess.analog ⟨kind, weights, t⟩) <$> Replay.ofExpression m) := by
  refine Preserves.map (P := fun t => t.expression.Prints H) (.lift fun t ht => ?_) fun t ht => ?_
  · exact h t (Value.ofExpression_eq_ok ht)
  · exact List.forall_mem_singleton.mpr ht

theorem prints_fullOf {target : Expression} {t : ProcessTarget} (ht : target.Prints H)
    (h : ProcessTarget.fullOf target = .ok t) : t.expression.Prints H := by
  unfold ProcessTarget.fullOf at h
  split at h
  · obtain rfl := Except.ok.inj h
    exact ht
  · obtain rfl := Except.ok.inj h
    exact ht
  · cases h

/-- Results that are more than one go to an array, which is printed as its name. -/
theorem prints_chunks {target : Expression} {make : String → ProcessTarget} {t : ProcessTarget}
    (hmake : ∀ name, (make name).expression = .array name)
    (h : make <$> ProcessTarget.arrayOf target = .ok t) : t.expression.Prints H := by
  obtain ⟨name, -, rfl⟩ := except_map_eq_ok.mp h
  rw [hmake]
  exact Expression.renders_array name

theorem sound_output (position : Nat) : Sound H (fun _ => True) (output position) :=
  (sound_optional position _).bind fun given _ => (sound_readAny _ given).bind fun _ _ => .pure trivial

theorem sound_singleProcess (kind : AnalogKind) (module name : String) :
    Sound H (PrintsProcess H) (singleProcess kind module name) := by
  refine (sound_text 0 _).bind fun weights _ => (sound_expression 1 _).bind fun target ht => ?_
  dsimp only
  split
  · exact (sound_output 2).bind fun _ _ => sound_analog kind _ fun _ h => prints_fullOf ht h
  · exact (sound_int 2 _).bind fun _ _ => (sound_output 3).bind fun _ _ =>
      sound_analog kind _ fun _ h => prints_chunks (fun _ => rfl) h
  · exact (sound_int 2 _).bind fun _ _ => (sound_output 3).bind fun _ _ =>
      sound_analog kind _ fun _ h => prints_chunks (fun _ => rfl) h
  · exact (sound_int 2 _).bind fun _ _ => (sound_int 3 _).bind fun _ _ => (sound_output 4).bind fun _ _ =>
      sound_analog kind _ fun _ h => prints_chunks (fun _ => rfl) h
  · exact .throw _

theorem sound_dualProcess (kind : AnalogKind) (name : String) :
    Sound H (PrintsProcess H) (dualProcess kind name) := by
  refine (sound_text 0 _).bind fun _ _ => (sound_text 1 _).bind fun _ _ => (sound_text 2 _).bind fun _ _ =>
    (sound_text 3 _).bind fun _ _ => ?_
  dsimp only
  split
  · exact (sound_expression 4 _).bind fun _ ht => sound_analog kind _ fun _ h => prints_fullOf ht h
  · exact (sound_int 4 _).bind fun _ _ => (sound_expression 5 _).bind fun _ _ =>
      sound_analog kind _ fun _ h => prints_chunks (fun _ => rfl) h
  · exact (sound_int 4 _).bind fun _ _ => (sound_expression 5 _).bind fun _ _ =>
      sound_analog kind _ fun _ h => prints_chunks (fun _ => rfl) h
  · exact (sound_int 4 _).bind fun _ _ => (sound_int 5 _).bind fun _ _ => (sound_expression 6 _).bind fun _ _ =>
      sound_analog kind _ fun _ h => prints_chunks (fun _ => rfl) h
  · exact .throw _

theorem sound_timeTagging (name : String) : Sound H (PrintsProcess H) (timeTagging name) := by
  refine (sound_expression 0 _).bind fun target _ => (sound_int 1 _).bind fun maxTime _ =>
    (sound_optional 2 _).bind fun _ _ => (sound_readAny _ _).bind fun targetLength _ =>
    (sound_output 3).bind fun output _ => ?_
  split
  · refine .lift fun process h => ?_
    obtain ⟨array, -, h⟩ := except_bind_eq_ok.mp (Value.ofExpression_eq_ok h)
    obtain ⟨length, -, h⟩ := except_bind_eq_ok.mp h
    obtain rfl := Except.ok.inj h
    refine List.forall_mem_cons.mpr ⟨Expression.renders_array array, List.forall_mem_map.mpr fun _ _ => ?_⟩
    exact Expression.renders_named _
  · exact .throw _

theorem sound_counting (name : String) : Sound H (PrintsProcess H) (counting name) := by
  unfold counting
  split
  · refine (sound_expression 0 _).bind fun target _ => (sound_int 1 _).bind fun maxTime _ =>
      (sound_optional 2 _).bind fun _ _ => (sound_readAny _ _).bind fun outputs _ => .lift fun process h => ?_
    obtain ⟨counted, -, h⟩ := except_bind_eq_ok.mp (Value.ofExpression_eq_ok h)
    obtain rfl := Except.ok.inj h
    exact List.forall_mem_singleton.mpr (Expression.renders_named _)
  · exact .throw _

theorem sound_measureProcess (module name : String) : Sound H (PrintsProcess H) (measureProcess module name) := by
  unfold measureProcess
  split
  · exact sound_singleProcess .demod _ name
  · exact sound_singleProcess .integration _ name
  · exact sound_dualProcess .demod name
  · exact sound_dualProcess .integration name
  · exact sound_timeTagging name
  · exact sound_counting name
  · exact .throw _

/-- What a stream function is made of is never a hazard. -/
theorem makes_moduleFunction {inProgram : Bool} {module name : String} {a left : Arguments} {step : Build Value}
    (ha : a.Prints H) (h : moduleFunction inProgram module name a = .ok (step, left)) :
    Build.Sound (printing H) (Value.Prints H) step := by
  unfold moduleFunction at h
  cases hlibrary : Library.ofNamespace? module with
  | some library =>
    simp only [hlibrary] at h
    split at h
    · have hmakes : Makes H (Value.Prints H) (do
          let arguments ← rest 0
          let arguments ← arguments.mapM fun value => liftM value.toLibraryArgument
          return Value.expression <$> Build.libraryCall library name arguments) :=
        (sound_rest 0).bind fun _ hvalues =>
          Preserves.bind (.mapM fun v hm => .lift fun _ hr => (hvalues v hm).toLibraryArgument hr) fun _ hr =>
            .pure ((Build.sound_libraryCall library name hr).map fun _ he => he)
      exact (hmakes ha h).1
    · obtain ⟨_, _, -, h⟩ := bind_eq_ok.mp h
      cases h
  | none =>
    simp only [hlibrary] at h
    split at h
    · obtain ⟨function, _, -, h⟩ := bind_eq_ok.mp h
      obtain ⟨rfl, -⟩ := pure_eq_ok.mp h
      exact .pure trivial
    · obtain ⟨process, _, hp, h⟩ := bind_eq_ok.mp h
      obtain ⟨rfl, -⟩ := pure_eq_ok.mp h
      exact .pure (sound_measureProcess module name ha hp).1

-- ---------------------------------------------------------------------------
-- Methods
-- ---------------------------------------------------------------------------

/-- A buffer without dimensions is a call without arguments by their positions. -/
theorem prints_buffer_of {stream token : StreamToken} {a left : Arguments} (hs : stream.Prints H)
    (hb : a.positional.filterMap id = [] → H .buffer)
    (h : (do
      let dimensions ← rest 0
      let dimensions ← dimensions.mapM fun value => liftM value.toInt
      return stream.buffer dimensions : Taking StreamToken) a = .ok (token, left)) : token.Prints H := by
  obtain ⟨values, _, hvalues, h⟩ := bind_eq_ok.mp h
  obtain ⟨dimensions, _, hdimensions, h⟩ := bind_eq_ok.mp h
  obtain ⟨rfl, -⟩ := pure_eq_ok.mp h
  obtain ⟨rfl, -⟩ := Prod.mk.inj (Except.ok.inj hvalues)
  refine StreamToken.prints_buffer hs fun hnone => hb ?_
  subst hnone
  exact mapM_eq_nil hdimensions

theorem sound_streamArithmetic (operator : ArithmeticOperator) {stream : StreamToken} (hs : stream.Prints H) :
    Sound H (StreamToken.Prints H) (streamArithmetic operator stream) :=
  (sound_required 0 _).bind fun _ hv => Preserves.bind (.lift fun _ ho => hv.toOperand ho) fun _ ho =>
    .pure (StreamToken.prints_arithmetic operator hs ho)

theorem prints_streamMethod {name : String} {stream token : StreamToken} {a left : Arguments}
    (hs : stream.Prints H) (ha : a.Prints H) (hb : name = "buffer" → a.positional.filterMap id = [] → H .buffer)
    (h : streamMethod name stream a = .ok (token, left)) : token.Prints H := by
  have hint {make : Int64 → StreamToken} {position : Nat} {keyword : String} (hm : ∀ n, (make n).Prints H)
      (h : (do
        let n ← int position keyword
        return make n : Taking StreamToken) a = .ok (token, left)) : token.Prints H := by
    obtain ⟨n, _, -, h⟩ := bind_eq_ok.mp h
    obtain ⟨rfl, -⟩ := pure_eq_ok.mp h
    exact hm n
  unfold streamMethod at h
  split at h
  · obtain ⟨rfl, -⟩ := pure_eq_ok.mp h
    exact StreamToken.prints_average hs
  · exact prints_buffer_of hs (hb rfl) h
  · obtain ⟨length, _, -, h⟩ := bind_eq_ok.mp h
    obtain ⟨skipped, _, -, h⟩ := bind_eq_ok.mp h
    obtain ⟨rfl, -⟩ := pure_eq_ok.mp h
    exact StreamToken.prints_bufferAndSkip hs length skipped
  · obtain ⟨v, _, -, h⟩ := bind_eq_ok.mp h
    split at h
    · obtain ⟨rfl, -⟩ := pure_eq_ok.mp h
      exact StreamToken.prints_map hs _
    · cases h
  · obtain ⟨rfl, -⟩ := pure_eq_ok.mp h
    exact StreamToken.prints_flatten hs
  · exact hint (StreamToken.prints_skip hs) h
  · exact hint (StreamToken.prints_skipLast hs) h
  · exact hint (StreamToken.prints_take hs) h
  · obtain ⟨v, _, -, h⟩ := bind_eq_ok.mp h
    obtain ⟨items, _, -, h⟩ := bind_eq_ok.mp h
    obtain ⟨bins, _, -, h⟩ := bind_eq_ok.mp h
    obtain ⟨rfl, -⟩ := pure_eq_ok.mp h
    exact StreamToken.prints_histogram hs bins
  · obtain ⟨v, _, hv, h⟩ := bind_eq_ok.mp h
    have hprints := (sound_required 0 _ ha hv).1
    split at h
    · obtain ⟨rfl, -⟩ := pure_eq_ok.mp h
      exact StreamToken.prints_zip hs (StreamToken.prints_source _)
    · obtain ⟨rfl, -⟩ := pure_eq_ok.mp h
      exact StreamToken.prints_zip hs hprints
    · cases h
  · exact (sound_streamArithmetic .add hs ha h).1
  · exact (sound_streamArithmetic .subtract hs ha h).1
  · exact (sound_streamArithmetic .multiply hs ha h).1
  · exact (sound_streamArithmetic .divide hs ha h).1
  · split at h
    · obtain ⟨function, _, -, h⟩ := bind_eq_ok.mp h
      obtain ⟨rfl, -⟩ := pure_eq_ok.mp h
      exact StreamToken.prints_map hs function
    · cases h

theorem makes_callStream {inProgram : Bool} {name : String} {stream : StreamToken} {a left : Arguments}
    {step : Build Value} (hs : stream.Prints H) (ha : a.Prints H)
    (hb : name = "buffer" → a.positional.filterMap id = [] → H .buffer)
    (h : callStream inProgram name stream a = .ok (step, left)) :
    Build.Sound (printing H) (Value.Prints H) step := by
  unfold callStream at h
  cases hsave : saveMethod? name with
  | some kind =>
    simp only [hsave] at h
    obtain ⟨tag, _, -, h⟩ := bind_eq_ok.mp h
    split at h
    · obtain ⟨rfl, -⟩ := pure_eq_ok.mp h
      exact keeps_noValue (Build.keeps_registerSave kind tag hs)
    · cases h
  | none =>
    simp only [hsave] at h
    obtain ⟨token, _, ht, h⟩ := bind_eq_ok.mp h
    obtain ⟨rfl, -⟩ := pure_eq_ok.mp h
    exact .pure (prints_streamMethod hs ha hb ht)

theorem makes_method {inProgram : Bool} {receiver : Value} {name : String} {a left : Arguments}
    {step : Build Value} (hr : receiver.Prints H) (ha : a.Prints H)
    (hb : name = "buffer" → a.positional.filterMap id = [] → H .buffer)
    (h : method inProgram receiver name a = .ok (step, left)) :
    Build.Sound (printing H) (Value.Prints H) step := by
  unfold method at h
  split at h
  · split at h
    · obtain ⟨length, _, hl, h⟩ := bind_eq_ok.mp h
      obtain ⟨rfl, -⟩ := pure_eq_ok.mp h
      exact .pure (Expression.renders_lengthOf (Value.ofExpression_eq_ok (lift_eq_ok.mp hl).1))
    · cases h
  · next source =>
    cases hsource : sourceMethod? source name with
    | some read =>
      simp only [hsource] at h
      obtain ⟨rfl, -⟩ := pure_eq_ok.mp h
      exact .pure trivial
    | none =>
      simp only [hsource] at h
      exact makes_callStream (StreamToken.prints_source source) ha hb h
  · exact makes_callStream hr ha hb h
  · cases h

end
end Qua.Replay
