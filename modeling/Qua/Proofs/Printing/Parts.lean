import Qua.Program.Listing
import Qua.Proofs.Build.Heads
import Qua.Proofs.Build.Operands

/-!
# What can be printed

Two things in a script have no text once they are in a program: a real that is not finite, and a buffer
without dimensions. A program whose parts fail to be printed for no other reason fails to be printed for no
other reason. Main statement: `Program.renders`.
-/

namespace Qua

/-- What a script can hold that has no text in a program. -/
inductive Hazard
  /-- A numeral that is too large for a real. -/
  | real
  /-- A buffer without dimensions. -/
  | buffer
  deriving DecidableEq, Repr

/-- The error for which a hazard is the reason. -/
inductive RenderError.DueTo : RenderError → Hazard → Prop
  | real (x : Binary64) : DueTo (.nonFiniteLiteral x) .real
  | buffer : DueTo (.unsupportedStreamOperator "buffer") .buffer

/-- All errors are due to hazards that there are. -/
def Renders {α : Type} (H : Hazard → Prop) (m : Except RenderError α) : Prop :=
  ∀ ⦃e⦄, m = .error e → ∃ h, H h ∧ e.DueTo h

section
variable {α β : Type} {H : Hazard → Prop}

namespace Renders

theorem ok (a : α) : Renders H (.ok a) := by
  rintro _ ⟨⟩

theorem bind {m : Except RenderError α} {f : α → Except RenderError β} (h : Renders H m)
    (hf : ∀ a, m = .ok a → Renders H (f a)) : Renders H (m >>= f) := by
  intro e he
  obtain he | ⟨a, ha, he⟩ := except_bind_eq_error.mp he
  · exact h he
  · exact hf a ha he

/-- Only the first part can fail. -/
theorem map {m : Except RenderError α} (h : Renders H m) (f : α → β) : Renders H (f <$> m) := by
  cases m with
  | ok a => exact ok _
  | error e =>
    rintro _ ⟨⟩
    exact h rfl

theorem mapM {f : α → Except RenderError β} {as : List α} (h : ∀ a ∈ as, Renders H (f a)) :
    Renders H (as.mapM f) := by
  induction as with
  | nil => exact ok []
  | cons a as ih =>
    obtain ⟨ha, has⟩ := List.forall_mem_cons.mp h
    rw [List.mapM_cons]
    exact ha.bind fun _ _ => (ih has).bind fun _ _ => ok _

end Renders

-- ---------------------------------------------------------------------------
-- Expressions
-- ---------------------------------------------------------------------------

theorem renders_real {x : Binary64} (h : x.isFinite = false → H .real) : Renders H (renderReal x) := by
  unfold renderReal
  split
  · exact .ok _
  · next hx =>
    rintro _ ⟨⟩
    exact ⟨.real, h (by simpa using hx), .real x⟩

/-- The literal can be printed, as far as hazards allow. -/
abbrev Literal.Prints (H : Hazard → Prop) (l : Literal) : Prop := Renders H l.render

/-- The expression can be printed, as far as hazards allow. -/
abbrev Expression.Prints (H : Hazard → Prop) (e : Expression) : Prop := Renders H e.render

namespace Literal

theorem renders_int (n : Int32) : Renders H (Literal.int n).render := .ok _

theorem renders_bool (b : Bool) : Renders H (Literal.bool b).render := .ok _

theorem renders_ofInt {n : Int} {l : Literal} (h : ofInt n = .ok l) : Renders H l.render := by
  unfold ofInt at h
  split at h
  · obtain rfl := Except.ok.inj h
    exact renders_int _
  · cases h

end Literal

namespace Expression

variable {e left right : Expression}

theorem renders_named (name : String) : Renders H (Expression.named name).render := .ok _

theorem renders_array (name : String) : Renders H (Expression.array name).render := .ok _

theorem renders_binary (op : BinaryOperator) (hl : Renders H left.render) (hr : Renders H right.render) :
    Renders H (Expression.binary op left right).render := by
  rw [render]
  exact hl.bind fun _ _ => hr.bind fun _ _ => .ok _

theorem renders_arguments {es : List Expression} (h : ∀ e ∈ es, Renders H e.render) :
    Renders H (renderArguments es) := by
  induction es with
  | nil => exact .ok _
  | cons e es ih =>
    obtain ⟨he, hes⟩ := List.forall_mem_cons.mp h
    cases es with
    | nil => exact he
    | cons e' es =>
      rw [renderArguments]
      exact he.bind fun _ _ => (ih hes).bind fun _ _ => .ok _
      simp

/-- Calls that a library has an arity for are supported by it. -/
theorem renders_call {library : Library} {function : String} {es : List Expression}
    (ha : library.arity? function = some n) (h : ∀ e ∈ es, Renders H e.render) :
    Renders H (Expression.call library function es).render := by
  have hsupports : library.supports function = true := by
    rw [Library.supports, ha]
    rfl
  rw [render, if_pos hsupports]
  exact (renders_arguments h).bind fun _ _ => .ok _

theorem renders_index {whole i e : Expression} (hi : Renders H i.render) (h : whole.index i = .ok e) :
    Renders H e.render := by
  unfold index at h
  split at h
  · split at h
    · obtain rfl := Except.ok.inj h
      rw [render]
      exact hi.bind fun _ _ => .ok _
    · cases h
  · cases h

theorem renders_lengthOf {whole e : Expression} (h : whole.lengthOf = .ok e) : Renders H e.render := by
  unfold lengthOf at h
  split at h
  · obtain rfl := Except.ok.inj h
    exact .ok _
  · cases h

end Expression

theorem renders_joined (separator : String) {es : List Expression} (h : ∀ e ∈ es, Renders H e.render) :
    Renders H (renderJoined separator es) :=
  (Renders.mapM h).map _

theorem Declaration.renders {x : Declaration} (h : ∀ l ∈ x.value, Renders H l.render) :
    Renders H x.render := by
  have hvalue : Renders H x.renderValue := by
    unfold renderValue
    split
    · exact .ok _
    · next hv => exact (h _ (by simp [hv])).bind fun _ _ => .ok _
    · exact .ok _
    · exact (Renders.mapM h).bind fun _ _ => .ok _
  exact hvalue.bind fun _ _ => .ok _

-- ---------------------------------------------------------------------------
-- Actions
-- ---------------------------------------------------------------------------

theorem ProcessTarget.renders {target : ProcessTarget} (h : Renders H target.expression.render) :
    Renders H (MeasureProcess.targetParts target) := by
  cases target with
  | full target => exact Renders.bind h fun _ _ => .ok _
  | sliced | accumulated | movingWindow => exact .ok _

theorem MeasureProcess.renders {process : MeasureProcess}
    (h : ∀ e ∈ process.expressions, Renders H e.render) : Renders H process.render := by
  cases process with
  | analog process =>
    refine Renders.bind (ProcessTarget.renders (h _ List.mem_cons_self)) fun _ _ => ?_
    cases process.weights <;> exact .ok _
  | timeTagging | counting => exact .ok _

theorem Pulse.renders {pulse : Pulse} (h : ∀ e ∈ pulse.expressions, Renders H e.render) :
    Renders H pulse.render := by
  cases pulse with
  | named => exact .ok _
  | ramp rate => exact Renders.bind (h rate List.mem_cons_self) fun _ _ => .ok _

theorem Amp.renders {amp : Amp} (h : ∀ e ∈ amp.expressions, Renders H e.render) :
    Renders H amp.render := by
  cases amp with
  | scalar value => exact Renders.bind (h value List.mem_cons_self) fun _ _ => .ok _
  | matrix values => exact (renders_joined _ h).bind fun _ _ => .ok _

theorem Amp.renders_optional {amp : Option Amp}
    (h : ∀ e ∈ amp.toList.flatMap Amp.expressions, Renders H e.render) : Renders H (renderOptional amp) := by
  cases amp with
  | none => exact .ok _
  | some amp => exact Renders.bind (Amp.renders (by simpa using h)) fun _ _ => .ok _

theorem renders_keyword (name : String) {value : Option Expression}
    (h : ∀ e ∈ value.toList, Renders H e.render) : Renders H (renderKeyword name value) := by
  cases value with
  | none => exact .ok _
  | some value => exact Renders.bind (h value (by simp)) fun _ _ => .ok _

theorem Chirp.renders {chirp : Chirp} (h : Renders H chirp.rate.render) : Renders H chirp.render :=
  h.bind fun _ _ => .ok _

theorem Play.renders {p : Play} (h : ∀ e ∈ (Action.play p).expressions, Renders H e.render) :
    Renders H p.render := by
  simp only [Action.expressions, List.forall_mem_append] at h
  obtain ⟨⟨⟨⟨⟨hpulse, hamp⟩, hduration⟩, hcondition⟩, hchirp⟩, htruncate⟩ := h
  refine (Pulse.renders hpulse).bind fun _ _ => (Amp.renders_optional hamp).bind fun _ _ =>
    (renders_keyword _ hduration).bind fun _ _ => (renders_keyword _ hcondition).bind fun _ _ => ?_
  cases hc : p.chirp with
  | none => exact (renders_keyword _ htruncate).bind fun _ _ => .ok _
  | some chirp =>
    have hrate : Renders H chirp.rate.render := hchirp _ (by simp [hc])
    exact (Chirp.renders hrate).bind fun _ _ => (renders_keyword _ htruncate).bind fun _ _ => .ok _

theorem Measure.renders {m : Measure} (h : ∀ e ∈ (Action.measure m).expressions, Renders H e.render) :
    Renders H m.render := by
  obtain ⟨hamp, hprocesses⟩ := List.forall_mem_append.mp h
  refine (Amp.renders_optional hamp).bind fun _ _ => Renders.bind (.mapM fun process hp => ?_) fun _ _ => .ok _
  exact MeasureProcess.renders fun e he => hprocesses e (List.mem_flatMap.mpr ⟨process, hp, he⟩)

/-- An action can be printed if its expressions can. -/
theorem Action.renders {a : Action} (h : ∀ e ∈ a.expressions, Renders H e.render) : Renders H a.render := by
  cases a with
  | play p => exact Play.renders h
  | measure m => exact Measure.renders h
  | wait duration | updateFrequency _ duration | setDcOffset _ _ duration | advanceInputStream duration
  | zRotation duration | save duration =>
    exact Renders.bind (h duration List.mem_cons_self) fun _ _ => .ok _
  | assign target value | fastFrameRotation target value =>
    exact Renders.bind (h target List.mem_cons_self) fun _ _ =>
      Renders.bind (h value (List.mem_cons_of_mem _ List.mem_cons_self)) fun _ _ => .ok _
  | updateCorrection element correction => exact Renders.bind (.mapM h) fun _ _ => .ok _
  | align | pause | resetPhase | resetFrame | rampToZero | waitForTrigger => exact .ok _

-- ---------------------------------------------------------------------------
-- Demands
-- ---------------------------------------------------------------------------

/-- Every part can be printed, as far as hazards allow. Saves that follow from the body are not printed. -/
def printing (H : Hazard → Prop) : Demands where
  declaration x := ∀ l ∈ x.value, Renders H l.render
  action a := ∀ e ∈ a.expressions, Renders H e.render
  expression e := Renders H e.render
  iterators _ := True
  save entry := entry.auto = false → Renders H entry.pipeline.render
  case hv hl := Expression.renders_binary .eq hv hl

end
end Qua
