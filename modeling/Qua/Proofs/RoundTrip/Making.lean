import Qua.Proofs.Build.Heads
import Qua.Proofs.RoundTrip.Grounding
import Qua.Proofs.RoundTrip.Regular

/-!
# What calls make

From operands over the variables and arrays of a session a call makes expressions, iterators and actions that
are over them too, with the arrays and streams that it declares for them. All is said over the draft that the
session ends with, to which later drafts lead (`Build.Makes`). Main statements: `Leaf.upholds`,
`Entry.upholds`.
-/

namespace Qua

open Build (Along Course IsPlace IsSavable useTag)
open Draft (Widens)

/-- What the step gives has the property, if the draft that it leaves leads to the last one. -/
def Build.Makes (last : Draft) (P : α → Prop) (m : Build α) : Prop :=
  ∀ ⦃d a t⦄, m d = .ok (a, t) → t.Widens last → P a

section

variable {last : Draft} {P : α → Prop} {Q : β → Prop}

namespace Build.Makes

theorem pure (h : P a) : Makes last P (Pure.pure a : Build α) := by
  intro d b t hb _
  obtain ⟨rfl, -⟩ := pure_eq_ok.mp hb
  exact h

theorem throw (e : BuildError) : Makes last P (MonadExcept.throw e : Build α) := by
  rintro d a t ⟨⟩

theorem bind {m : Build α} {f : α → Build β} (hm : Makes last P m) (hw : ∀ a, Along Widens (f a))
    (hf : ∀ a, P a → Makes last Q (f a)) : Makes last Q (m >>= f) := by
  intro d b t hb ht
  obtain ⟨a, s, hs, hb⟩ := bind_eq_ok.mp hb
  exact hf a (hm hs ((hw a hb).trans ht)) hb ht

theorem map {m : Build α} {f : α → β} (hm : Makes last P m) (hf : ∀ a, P a → Q (f a)) :
    Makes last Q (f <$> m) := by
  intro d b t hb ht
  obtain ⟨a, rfl, ha⟩ := map_eq_ok.mp hb
  exact hf a (hm ha ht)

theorem mapM {f : α → Build β} {as : List α} (hw : ∀ a, Along Widens (f a)) (hf : ∀ a ∈ as, Makes last Q (f a)) :
    Makes last (fun bs => bs.length = as.length ∧ ∀ b ∈ bs, Q b) (as.mapM f) := by
  induction as with
  | nil =>
    rw [List.mapM_nil]
    exact .pure ⟨rfl, List.forall_mem_nil _⟩
  | cons a as ih =>
    obtain ⟨hfa, hfas⟩ := List.forall_mem_cons.mp hf
    rw [List.mapM_cons]
    refine hfa.bind (fun b => Draft.widens.along_bind (Draft.widens.along_mapM hw as) fun _ =>
      Draft.widens.along_pure _) fun b hb => ?_
    refine (ih hfas).bind (fun _ => Draft.widens.along_pure _) fun bs hbs => .pure ?_
    exact ⟨congrArg Nat.succ hbs.1, List.forall_mem_cons.mpr ⟨hb, hbs.2⟩⟩

theorem mapM_option {f : α → Build β} {a : Option α} (hf : ∀ x ∈ a, Makes last Q (f x)) :
    Makes last (fun b => ∀ y ∈ b, Q y) (a.mapM f) := by
  cases a with
  | none => exact .pure fun y hy => absurd hy (Option.not_mem_none y)
  | some x =>
    refine (hf x rfl).map fun y hy => ?_
    rintro _ ⟨⟩
    exact hy

end Build.Makes

end

section

variable {last : Draft} {permitted : Set (TagRole × String)} {own : List String} {given : List Outcome}

-- ---------------------------------------------------------------------------
-- Arrays, calls and iterators
-- ---------------------------------------------------------------------------

namespace Build

section
variable (hl : last.Identified)
include hl

theorem makes_declareNamed (scalarType : ScalarType) (value : Option InitialValue) (size : Option Int64)
    (inputStream : Option String) :
    Makes last (Expression.Over last.handles) (declareNamed scalarType value size inputStream) := by
  intro d e t h ht
  obtain ⟨-, hover⟩ := Draft.widens_declareNamed h
  exact (hover (ht.identified hl)).mono ht.handles

theorem makes_declareLiterals (literals : List Literal) :
    Makes last (Expression.Over last.handles) (declareLiterals literals) := by
  intro d e t h ht
  obtain ⟨cells, s, -, h⟩ := bind_eq_ok.mp h
  exact makes_declareNamed hl _ _ _ _ h ht

theorem makes_libraryArgument {argument : LibraryArgument}
    (ha : ∀ e ∈ argument.expressions, e.Over last.handles) :
    Makes last (Expression.Over last.handles) (libraryArgument argument) := by
  cases argument with
  | expression value => exact .pure (ha value (List.mem_singleton.mpr rfl))
  | literals values => exact makes_declareLiterals hl values

end

theorem widens_libraryArgument (argument : LibraryArgument) : Along Widens (libraryArgument argument) := by
  cases argument with
  | expression value => exact Draft.widens.along_pure value
  | literals values => exact Draft.widens.along_declareLiterals values

theorem widens_forEachArray (values : ForEachValues) : Along Widens (forEachArray values) := by
  have hname (array : Expression) : Along Widens (forEachArray (.array array)) := by
    rw [forEachArray]
    split
    · exact Draft.widens.along_pure _
    · exact along_throw _
  cases values with
  | array declared => exact hname declared
  | literals values => exact Draft.widens.along_bind (Draft.widens.along_declareLiterals values) hname

theorem makes_libraryCall (hl : last.Identified) {library : Library} {function : String}
    {arguments : List LibraryArgument}
    (ha : ∀ e ∈ arguments.flatMap LibraryArgument.expressions, e.Over last.handles) :
    Makes last (Expression.Over last.handles) (libraryCall library function arguments) := by
  unfold libraryCall
  split
  · exact .throw _
  · next expected harity =>
    split
    · rintro d a t ⟨⟩
    · next hlength =>
      refine (Makes.mapM widens_libraryArgument fun a hm => makes_libraryArgument hl fun e he =>
        ha e (List.mem_flatMap.mpr ⟨a, hm, he⟩)).bind (fun _ => Draft.widens.along_pure _) fun es hes => .pure ?_
      exact Expression.over_call (by rw [harity, hes.1, Decidable.not_not.mp hlength]) hes.2

/-- An array that a loop runs through is declared before it, or for it. -/
theorem makes_forEachArray (hl : last.Identified) {values : ForEachValues}
    (hv : ∀ e ∈ values.expressions, e.Over last.handles) :
    Makes last (fun name => (Expression.array name).Over last.handles) (forEachArray values) := by
  have hname {array : Expression} (h : array.Over last.handles) :
      Makes last (fun name => (Expression.array name).Over last.handles) (forEachArray (.array array)) := by
    cases array with
    | array name => exact .pure h
    | _ => exact .throw _
  cases values with
  | array declared => exact hname (hv declared (List.mem_singleton.mpr rfl))
  | literals values =>
    exact (makes_declareLiterals hl values).bind (fun array => widens_forEachArray (.array array)) fun _ he => hname he

theorem makes_forEachVariables {targets : List Expression} (index : Nat)
    (he : ∀ e ∈ targets, e.Over last.handles) :
    Makes last (fun names => ∀ name ∈ names, (Expression.named name).Over last.handles)
      (forEachVariables index targets) := by
  induction targets generalizing index with
  | nil => exact .pure (List.forall_mem_nil _)
  | cons e targets ih =>
    obtain ⟨hfirst, htargets⟩ := List.forall_mem_cons.mp he
    have hname {name : String} (h : (Expression.named name).Over last.handles) :
        Makes last (fun names => ∀ name ∈ names, (Expression.named name).Over last.handles) (do
          let names ← forEachVariables (index + 1) targets
          return name :: names) :=
      (ih _ htargets).bind (fun _ => Draft.widens.along_pure _) fun names hall =>
        .pure (List.forall_mem_cons.mpr ⟨h, hall⟩)
    cases e with
    | var v =>
      cases v with
      | named name => exact hname hfirst
      | io r => exact .throw _
    | _ => exact .throw _

/-- A loop over arrays has at least one, and all its variables and arrays have been declared. -/
theorem makes_iterators (hl : last.Identified) {targets : List Expression} {values : List ForEachValues}
    (he : ∀ e ∈ targets ++ values.flatMap ForEachValues.expressions, e.Over last.handles) :
    Makes last (fun is => ∀ l, (Statement.forEach is [] l).Over last.handles) (iterators targets values) := by
  obtain ⟨htargets, hvalues⟩ := List.forall_mem_append.mp he
  intro d is t h ht l
  obtain ⟨names, s, hnames, hrun⟩ := bind_eq_ok.mp h
  cases hempty : values.isEmpty with
  | true =>
    rw [hempty] at hrun
    cases hrun
  | false =>
    rw [hempty] at hrun
    obtain ⟨arrays, u, harrays, hrun⟩ := bind_eq_ok.mp hrun
    split at hrun
    · obtain ⟨_, _, hthrow, -⟩ := bind_eq_ok.mp hrun
      cases hthrow
    · next hlength =>
      obtain ⟨rfl, rfl⟩ := pure_eq_ok.mp hrun
      have hwidens := Draft.widens.along_mapM widens_forEachArray values harrays
      have hvariable := makes_forEachVariables 0 htargets hnames (hwidens.trans ht)
      obtain ⟨hsame, harray⟩ := Makes.mapM widens_forEachArray (fun v hv => makes_forEachArray hl fun e he =>
        hvalues e (List.mem_flatMap.mpr ⟨v, hv, he⟩)) harrays ht
      have hpos : 0 < values.length := by simpa [List.isEmpty_iff, List.length_pos_iff] using hempty
      refine ⟨List.ne_nil_of_length_pos ?_, fun i hi => ?_⟩
      · rw [List.length_zipWith]
        omega
      · obtain ⟨name, hn, array, ha, rfl⟩ : ∃ name ∈ names, ∃ array ∈ arrays, Iterator.mk name array = i := by
          obtain ⟨k, hk, rfl⟩ := List.mem_iff_getElem.mp hi
          rw [List.length_zipWith] at hk
          exact ⟨names[k], List.getElem_mem _, arrays[k], List.getElem_mem _, by rw [List.getElem_zipWith]⟩
        exact ⟨hvariable name hn, harray array ha⟩

/-- The chirp has the rate that is given, or an array that is declared for it. -/
theorem makes_chirp (hl : last.Identified) {options : ChirpOptions} (continues : Bool)
    (he : ∀ e ∈ options.expressions, e.Over last.handles)
    (hn : ∀ n ∈ options.times.getD [], n ≠ Int64.minValue) :
    Makes last (fun made => made.rate.Over last.handles ∧ ∀ n ∈ made.times, n ≠ Int64.minValue)
      (chirp options continues) := by
  obtain ⟨rate, times, units⟩ := options
  unfold chirp
  split
  · exact .throw _
  · cases rate with
    | expression rate => exact .pure ⟨he rate (List.mem_singleton.mpr rfl), hn⟩
    | values rates =>
      exact (makes_declareNamed hl _ _ _ _).bind (fun _ => Draft.widens.along_pure _) fun rate hr =>
        .pure ⟨hr, hn⟩

end Build

-- ---------------------------------------------------------------------------
-- Streams
-- ---------------------------------------------------------------------------

/-- The target is a stream of the script, or a tag whose use is permitted. -/
structure StreamTarget.Given (permitted : Set (TagRole × String)) (own : List String) (used : TagRole)
    (target : StreamTarget) : Prop where
  tags : ∀ use ∈ target.uses used, use ∈ permitted
  sources : ∀ source ∈ target.sources,
    source.name ∈ own ∧ source.isAdcTrace = ResultSource.isTraceName source.name

theorem StreamTarget.Given.ofTag {used : TagRole} {tag : String}
    (h : (StreamTarget.tag tag).Given permitted own used) : (used, tag) ∈ permitted :=
  h.tags (used, tag) (List.mem_singleton.mpr rfl)

theorem StreamTarget.Given.ofSource {used : TagRole} {source : ResultSource}
    (h : (StreamTarget.source source).Given permitted own used) :
    source.name ∈ own ∧ source.isAdcTrace = ResultSource.isTraceName source.name :=
  h.sources source (List.mem_singleton.mpr rfl)

namespace Build

theorem makes_useTag {used : TagRole} {tag : String} (h : (used, tag) ∈ permitted) :
    Makes last (fun source => (used = .values → source.isAdcTrace = false) →
      last.Provides permitted own (used, source.name)) (useTag used tag) := by
  intro d source t hrun ht hv
  exact .tagged (ht.shorthands (Draft.useTag_shorthands _ hrun).1) h hv

theorem widens_timestampStream (target : Option StreamTarget) : Along Widens (timestampStream target) :=
  Draft.widens.along_timestampStream target fun _ _ => Draft.widens_useTag _ _

theorem makes_timestampStream {target : Option StreamTarget}
    (h : ∀ x ∈ target, x.Given permitted own .timestamps) :
    Makes last (fun made => ∀ source ∈ made, last.Provides permitted own (.timestamps, source.name))
      (timestampStream target) := by
  cases target with
  | none => exact .pure fun source hs => absurd hs (Option.not_mem_none source)
  | some target =>
    have hgiven := h target rfl
    intro d made t hrun ht
    obtain ⟨_, s, -, hrun⟩ := bind_eq_ok.mp hrun
    rintro source rfl
    cases target with
    | tag tag =>
      obtain ⟨_, ⟨⟩, hu⟩ := map_eq_ok.mp hrun
      exact makes_useTag hgiven.ofTag hu ht fun hv => by cases hv
    | source given =>
      obtain ⟨⟨⟩, -⟩ := pure_eq_ok.mp hrun
      exact .own hgiven.ofSource.1 fun hv => by cases hv

theorem makes_measureStream {target : Option StreamTarget} (h : ∀ x ∈ target, x.Given permitted own .trace) :
    Makes last (fun made => ∀ source ∈ made, last.Provides permitted own (.trace, source.name))
      (measureStream target) := by
  cases target with
  | none => exact .pure fun source hs => absurd hs (Option.not_mem_none source)
  | some target =>
    have hgiven := h target rfl
    cases target with
    | tag tag =>
      intro d made t hrun ht
      obtain ⟨_, ⟨⟩, hu⟩ := map_eq_ok.mp hrun
      rintro source ⟨⟩
      exact makes_useTag hgiven.ofTag hu ht fun hv => by cases hv
    | source given =>
      refine .pure ?_
      rintro _ ⟨⟩
      exact .own hgiven.ofSource.1 fun hv => by cases hv

/-- Values are saved to a stream that is no trace. -/
theorem makes_saveStream {target : StreamTarget} (h : target.Given permitted own .values) :
    Makes last (fun source => source.isAdcTrace = false → last.Provides permitted own (.values, source.name))
      (saveStream target) := by
  cases target with
  | tag tag =>
    intro d source t hrun ht hv
    exact makes_useTag h.ofTag hrun ht fun _ => hv
  | source given => exact .pure fun hv => .own h.ofSource.1 fun _ => h.ofSource.2 ▸ hv

end Build

-- ---------------------------------------------------------------------------
-- Actions
-- ---------------------------------------------------------------------------

/-- What is over the variables and arrays of the last draft, and among its streams. Saves for tags follow from
the actions. -/
def Draft.grounding (permitted : Set (TagRole × String)) (own : List String) (last : Draft) : Demands where
  declaration _ := True
  action a := a.Over last.handles ∧ ∀ use ∈ a.streamUses, last.Provides permitted own use
  expression e := e.Over last.handles
  iterators is := ∀ l, (Statement.forEach is [] l).Over last.handles
  save entry := entry.auto = false → ∀ text, entry.pipeline.HasText text → entry.pipeline.IsPipeline own
  case hv hl := Expression.over_binary.mpr ⟨hv, hl⟩

/-- What is made of given operands is as the last draft has it. -/
structure Leaf.Founded (permitted : Set (TagRole × String)) (own : List String) (last : Draft) (leaf : Leaf) :
    Prop where
  expressions : ∀ e ∈ leaf.expressions, e.Over last.handles
  sources : ∀ source ∈ leaf.sources,
    source.name ∈ own ∧ source.isAdcTrace = ResultSource.isTraceName source.name
  processes : ∀ process ∈ leaf.processes, (∀ e ∈ process.expressions, e.Over last.handles) ∧
    (∀ n ∈ process.integers, n ≠ Int64.minValue) ∧ process.Placed
  integers : ∀ n ∈ leaf.integers, n ≠ Int64.minValue
  tags : ∀ use ∈ leaf.uses, use ∈ permitted
  triggered : leaf.Triggered
  genuine : leaf.isGenuine = true

theorem Leaf.ComposedOf.founded {leaf : Leaf} (h : leaf.ComposedOf given) (hg : Grounds last.handles own given)
    (hu : ∀ use ∈ leaf.uses, use ∈ permitted) : leaf.Founded permitted own last where
  expressions e he := (h.expressions e he).over hg
  sources source hs := (h.sources source hs).grounded hg
  processes process hp := (h.processes process hp).grounded hg
  integers := h.integers
  tags := hu
  triggered := h.triggered
  genuine := h.genuine

theorem Leaf.Founded.target {leaf : Leaf} {target : Option StreamTarget} {used : TagRole}
    (h : leaf.Founded permitted own last) (hu : target.toList.flatMap (StreamTarget.uses used) ⊆ leaf.uses)
    (hs : target.toList.flatMap StreamTarget.sources ⊆ leaf.sources) :
    ∀ x ∈ target, x.Given permitted own used := by
  rintro x rfl
  simp only [Option.toList_some, List.flatMap_cons, List.flatMap_nil, List.append_nil] at hu hs
  exact ⟨fun use hm => h.tags use (hu hm), fun source hm => h.sources source (hs hm)⟩

/-- The streams that have been found are those that an action writes to. -/
theorem provides_named {stream : Option ResultSource} {used : TagRole}
    (h : ∀ source ∈ stream, last.Provides permitted own (used, source.name)) :
    ∀ use ∈ (stream.map ResultSource.name).toList.map fun name => (used, name), last.Provides permitted own use := by
  cases stream with
  | none => exact List.forall_mem_nil _
  | some source => exact List.forall_mem_singleton.mpr (h source rfl)

namespace Build

theorem makes_playAction (hl : last.Identified) {pulse : Pulse} {element : String} {options : PlayOptions}
    (h : (Leaf.play pulse element options).Founded permitted own last) :
    Makes last (last.grounding permitted own).action (playAction pulse element options) := by
  intro d a t hrun ht
  obtain ⟨chirp, s, hchirp, hrun⟩ := bind_eq_ok.mp hrun
  obtain ⟨stream, u, hstream, hrun⟩ := bind_eq_ok.mp hrun
  obtain ⟨rfl, rfl⟩ := pure_eq_ok.mp hrun
  have hexpressions := h.expressions
  simp only [Leaf.expressions, List.forall_mem_append] at hexpressions
  obtain ⟨⟨⟨⟨⟨hpulse, hamp⟩, hduration⟩, hcondition⟩, hrate⟩, htruncate⟩ := hexpressions
  have hchirp : ∀ c ∈ chirp, c.rate.Over last.handles ∧ ∀ n ∈ c.times, n ≠ Int64.minValue :=
    Makes.mapM_option (fun c hc => makes_chirp hl options.continueChirp
      (fun e he => hrate e (List.mem_flatMap.mpr ⟨c, Option.mem_toList.mpr hc, he⟩))
      fun n hn => h.integers n (List.mem_flatMap.mpr ⟨c, Option.mem_toList.mpr hc, hn⟩))
      hchirp ((widens_timestampStream _ hstream).trans ht)
  have hstream := makes_timestampStream
    (h.target (List.Subset.refl _) (List.Subset.refl _)) hstream ht
  refine ⟨⟨?_, ?_, ?_⟩, ?_⟩
  · simp only [Action.expressions, List.forall_mem_append]
    exact ⟨⟨⟨⟨⟨hpulse, hamp⟩, hduration⟩, hcondition⟩,
      List.forall_mem_map.mpr fun c hc => (hchirp c (Option.mem_toList.mp hc)).1⟩, htruncate⟩
  · simp only [Action.integers, List.forall_mem_flatMap]
    exact fun c hc => (hchirp c (Option.mem_toList.mp hc)).2
  · simp [Action.Formed]
  · exact provides_named hstream

theorem makes_measureAction {pulse element : String} {options : MeasureOptions}
    (h : (Leaf.measure pulse element options).Founded permitted own last) :
    Makes last (last.grounding permitted own).action (measureAction pulse element options) := by
  intro d a t hrun ht
  obtain ⟨filled, s, hfilled, hrun⟩ := bind_eq_ok.mp hrun
  obtain ⟨stream, u, hstream, hrun⟩ := bind_eq_ok.mp hrun
  obtain ⟨rfl, rfl⟩ := pure_eq_ok.mp hrun
  have hfilled := makes_measureStream
    (h.target (List.subset_append_left _ _) (List.subset_append_left _ _)) hfilled
    ((widens_timestampStream _ hstream).trans ht)
  have hstream := makes_timestampStream
    (h.target (List.subset_append_right _ _) (List.subset_append_right _ _)) hstream ht
  refine ⟨⟨?_, ?_, fun process hp => (h.processes process hp).2.2⟩, ?_⟩
  · exact List.forall_mem_append.mpr ⟨h.expressions,
      List.forall_mem_flatMap.mpr fun process hp => (h.processes process hp).1⟩
  · exact List.forall_mem_flatMap.mpr fun process hp => (h.processes process hp).2.1
  · exact List.forall_mem_append.mpr ⟨provides_named hfilled, provides_named hstream⟩

theorem makes_triggerTarget {target : Expression} (h : target.Over last.handles) :
    Makes last (fun name => (Expression.named name).Over last.handles) (triggerTarget target) := by
  cases target with
  | var v =>
    cases v with
    | named name => exact .pure h
    | io r => exact .throw _
  | _ => exact .throw _

theorem makes_triggerAction {elements : List String} {pulse : Option String} {trigger : Option TriggerElement}
    {target : Option Expression}
    (h : (Leaf.waitForTrigger elements pulse trigger target).Founded permitted own last) :
    Makes last (last.grounding permitted own).action (triggerAction elements pulse trigger target) := by
  refine (Makes.mapM_option fun e he => makes_triggerTarget (h.expressions e (Option.mem_toList.mpr he))).bind
    (fun _ => Draft.widens.along_pure _) fun target ht => .pure ?_
  refine ⟨⟨?_, List.forall_mem_nil _, h.triggered⟩, List.forall_mem_nil _⟩
  simpa [Action.expressions] using ht

theorem makes_assignTarget {target : Expression} (h : target.Over last.handles) :
    Makes last (fun made => made.Over last.handles ∧ IsPlace made) (assignTarget target) := by
  cases target <;> first | exact .pure ⟨h, trivial⟩ | exact .throw _

theorem makes_saveSource {source : Expression} (h : source.Over last.handles) :
    Makes last (fun made => made.Over last.handles ∧ IsSavable made) (saveSource source) := by
  cases source <;> first | exact .pure ⟨h, trivial⟩ | exact .throw _

theorem grounding_assign {target value : Expression} (ht : target.Over last.handles ∧ IsPlace target)
    (hv : value.Over last.handles) : (last.grounding permitted own).action (.assign target value) :=
  ⟨⟨List.forall_mem_cons.mpr ⟨ht.1, List.forall_mem_singleton.mpr hv⟩, List.forall_mem_nil _, ht.2⟩,
    List.forall_mem_nil _⟩

theorem makes_assignAction {target value : Expression} (h : (Leaf.assign target value).Founded permitted own last) :
    Makes last (last.grounding permitted own).action (assignAction target value) := by
  obtain ⟨ht, hv⟩ := List.forall_mem_cons.mp h.expressions
  exact (makes_assignTarget ht).bind (fun _ => Draft.widens.along_pure _) fun made hm =>
    .pure (grounding_assign hm (List.forall_mem_singleton.mp hv))

theorem makes_saveAction {source : Expression} {target : StreamTarget}
    (h : (Leaf.save source target).Founded permitted own last) :
    Makes last (last.grounding permitted own).action (saveAction source target) := by
  have hgiven : target.Given permitted own .values := ⟨h.tags, h.sources⟩
  have hwidens (stream : ResultSource) : Along Widens (do
      let source ← saveSource source
      return Action.save source stream.name) :=
    Draft.widens.along_bind (Draft.widens.along_saveSource source) fun _ => Draft.widens.along_pure _
  refine (makes_saveStream hgiven).bind (fun stream => ?_) fun stream hs => ?_
  · cases stream.isAdcTrace with
    | true => exact Draft.widens.along_bind (along_throw _) fun _ => hwidens stream
    | false => exact hwidens stream
  · cases ha : stream.isAdcTrace with
    | true => rintro d a t ⟨⟩
    | false =>
      refine (makes_saveSource (List.forall_mem_singleton.mp h.expressions)).bind
        (fun _ => Draft.widens.along_pure _) fun made hm => .pure ?_
      exact ⟨⟨List.forall_mem_singleton.mpr hm.1, List.forall_mem_nil _, hm.2⟩, List.forall_mem_singleton.mpr (hs ha)⟩

end Build

end
end Qua
