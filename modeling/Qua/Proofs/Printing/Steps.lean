import Qua.Proofs.Binary64.Ceiling
import Qua.Proofs.Printing.Streams

/-!
# Steps that keep a draft printable

Steps of a build whose operands can be printed leave a draft whose parts can be printed. Nothing that a step
adds of its own is a hazard: the names, arrays of integers, streams and the factor of a rotation.
-/

namespace Qua

section
variable {H : Hazard → Prop}

-- ---------------------------------------------------------------------------
-- Literals
-- ---------------------------------------------------------------------------

namespace Literal

/-- Integers of an array of reals are exact. -/
theorem prints_number {l : Literal} {x : Binary64} (h : l.Prints H) (hx : l.number? = some x) :
    (Literal.fixed x).Prints H := by
  cases l with
  | int n =>
    obtain rfl := Option.some.inj hx
    have hlow := Int32.le_toInt n
    have hhigh := Int32.toInt_lt n
    refine renders_real fun hinf => ?_
    rw [Binary64.isFinite_ofInt (by omega)] at hinf
    cases hinf
  | fixed y =>
    obtain rfl := Option.some.inj hx
    exact h
  | bool b => cases hx

theorem prints_arrayOf {literals cells : List Literal} {scalarType : ScalarType}
    (hl : ∀ l ∈ literals, l.Prints H) (h : arrayOf literals = .ok (scalarType, cells)) :
    ∀ l ∈ cells, l.Prints H := by
  unfold arrayOf at h
  split at h
  · split at h
    · obtain ⟨-, rfl⟩ := Prod.mk.inj (Except.ok.inj h)
      exact hl
    · cases h
  · split at h <;> obtain ⟨-, rfl⟩ := Prod.mk.inj (Except.ok.inj h)
    · refine List.forall_mem_map.mpr fun x hx => ?_
      obtain ⟨l, hmem, hnumber⟩ := List.mem_filterMap.mp hx
      exact prints_number (hl l hmem) hnumber
    · exact hl

end Literal

namespace Build

-- ---------------------------------------------------------------------------
-- Declarations
-- ---------------------------------------------------------------------------

theorem mem_of_shape {value : Option InitialValue} {size : Option Int64} {dimension : UInt8} {count : UInt64}
    {cells : List Literal} (h : shape value size = .ok (dimension, count, cells)) :
    ∀ l ∈ cells, ∃ v ∈ value, l ∈ v.literals := by
  unfold shape at h
  split at h
  · split at h
    · cases h
    · split at h
      · cases h
      · obtain ⟨-, -, rfl⟩ := by simpa using h
        exact List.forall_mem_nil _
  all_goals
    obtain ⟨-, -, rfl⟩ := by simpa using h
    simp [InitialValue.literals]

theorem keeps_freshName (isArray : Bool) : Keeps (printing H) (freshName isArray) := by
  intro d _ _ hd h
  cases isArray <;> cases h <;> exact ⟨trivial, hd.of_eq rfl rfl rfl rfl⟩

theorem keeps_inputStreamName (stream : String) : Keeps (printing H) (inputStreamName stream) := by
  unfold inputStreamName
  refine .guarded _ (Preserves.get_state.bind fun d hd => .guarded _ ?_)
  rintro _ _ _ _ ⟨⟩
  exact ⟨trivial, hd.of_eq rfl rfl rfl rfl⟩

theorem sound_addDeclaration {x : Declaration} (h : ∀ l ∈ x.value, l.Prints H) :
    Sound (printing H) (Expression.Prints H) (do
      modify fun draft =>
        { draft with program := { draft.program with declarations := draft.program.declarations ++ [x] } }
      return if x.isArray then .array x.name else .named x.name) := by
  refine .bind (P := fun _ => True) (.modify_state fun d hd => ?_) fun _ _ => .pure ?_
  · exact ⟨List.forall_mem_append.mpr ⟨hd.declarations, List.forall_mem_singleton.mpr h⟩, hd.body, hd.saves,
      hd.scopes⟩
  · split
    · exact Expression.renders_array x.name
    · exact Expression.renders_named x.name

/-- A declaration can be printed if its values can. -/
theorem sound_declareNamed (scalarType : ScalarType) {value : Option InitialValue} (size : Option Int64)
    (inputStream : Option String) (h : ∀ v ∈ value, ∀ l ∈ v.literals, l.Prints H) :
    Sound (printing H) (Expression.Prints H) (declareNamed scalarType value size inputStream) := by
  unfold declareNamed
  cases hshape : shape value size with
  | error e => exact .bind (P := fun _ => False) (.throw e) fun _ hfalse => hfalse.elim
  | ok result =>
    obtain ⟨dimension, count, cells⟩ := result
    have hcells : ∀ l ∈ cells, l.Prints H := by
      intro l hl
      obtain ⟨v, hv, hlv⟩ := mem_of_shape hshape l hl
      exact h v hv l hlv
    have hnamed (name : String) := sound_addDeclaration
      (x := ⟨name, scalarType, count, dimension, inputStream.isSome, cells⟩) hcells
    cases inputStream with
    | none => exact (keeps_freshName _).bind fun name _ => hnamed name
    | some stream => exact (keeps_inputStreamName stream).bind fun name _ => hnamed name

theorem sound_declareLiterals {literals : List Literal} (h : ∀ l ∈ literals, l.Prints H) :
    Sound (printing H) (Expression.Prints H) (declareLiterals literals) := by
  refine .bind (P := fun result => ∀ l ∈ result.2, l.Prints H) ?_ fun result hcells => ?_
  · cases hcells : Literal.arrayOf literals with
    | ok result => exact .pure (Literal.prints_arrayOf h hcells)
    | error e => exact .throw _
  · refine sound_declareNamed result.1 none none ?_
    rintro _ ⟨⟩
    exact hcells

-- ---------------------------------------------------------------------------
-- Streams and saves
-- ---------------------------------------------------------------------------

theorem keeps_declareStream (isAdcTrace : Bool) : Keeps (printing H) (declareStream isAdcTrace) := by
  rintro d _ _ hd ⟨⟩
  exact ⟨trivial, hd.of_eq rfl rfl rfl rfl⟩

theorem keeps_addSave {entry : SaveEntry} (h : (printing H).save entry) :
    Keeps (printing H) (addSave entry) := by
  refine Preserves.get_state.bind fun d hd => ?_
  cases hadd : d.program.results.add? entry with
  | none => exact .throw _
  | some results =>
    obtain rfl : ⟨d.program.results.entries ++ [entry]⟩ = results := by
      unfold ResultAnalysis.add? at hadd
      split at hadd
      · cases hadd
      · exact Option.some.inj hadd
    rintro _ _ _ _ ⟨⟩
    exact ⟨trivial, hd.declarations, hd.body,
      List.forall_mem_append.mpr ⟨hd.saves, List.forall_mem_singleton.mpr h⟩, hd.scopes⟩

theorem keeps_registerSave (kind : SaveKind) (tag : String) {pipeline : StreamToken} (h : pipeline.Prints H) :
    Keeps (printing H) (registerSave kind tag pipeline) :=
  keeps_addSave fun _ => h

/-- Saves for a tag are not printed. -/
theorem keeps_autoSaveAll (tag : String) (source : ResultSource) :
    Keeps (printing H) (autoSaveAll tag source) :=
  keeps_addSave fun h => absurd h.symm Bool.false_ne_true

theorem keeps_shorthand (tag : String) (isAdcTrace : Bool) {saves : ResultSource → Build Unit}
    (h : ∀ source, Keeps (printing H) (saves source)) :
    Keeps (printing H) (shorthand tag isAdcTrace saves) := by
  refine Preserves.get_state.bind fun d hd => ?_
  split
  · exact .pure trivial
  · refine (keeps_declareStream isAdcTrace).bind fun source _ => .bind (P := fun _ => True) ?_ fun _ _ =>
      (h source).bind fun _ _ => .pure trivial
    exact .modify_state fun _ hd => hd.of_eq rfl rfl rfl rfl

theorem keeps_taggedStream (tag : String) (addTimestamps : Bool) :
    Keeps (printing H) (taggedStream tag addTimestamps) := by
  refine keeps_shorthand tag false fun source => (keeps_autoSaveAll _ _).bind fun _ _ => ?_
  split
  · exact keeps_autoSaveAll _ _
  · exact .pure trivial

theorem keeps_taggedTrace (tag : String) : Keeps (printing H) (taggedTrace tag) :=
  keeps_shorthand tag true fun _ => .forM fun _ _ =>
    (keeps_autoSaveAll _ _).bind fun _ _ => keeps_autoSaveAll _ _

theorem keeps_timestampStream (target : Option StreamTarget) : Keeps (printing H) (timestampStream target) := by
  rcases target with _ | tag | source
  · exact .pure trivial
  · exact (keeps_modifyMetadata _).bind fun _ _ => (keeps_taggedStream tag false).map fun _ _ => trivial
  · exact (keeps_modifyMetadata _).bind fun _ _ => .pure trivial

theorem keeps_measureStream (target : Option StreamTarget) : Keeps (printing H) (measureStream target) := by
  rcases target with _ | tag | source
  · exact .pure trivial
  · exact (keeps_taggedTrace tag).map fun _ _ => trivial
  · exact .pure trivial

end Build

-- ---------------------------------------------------------------------------
-- Operands of steps
-- ---------------------------------------------------------------------------

/-- Numbers of a list are printed as integers. -/
def ChirpRate.Prints (H : Hazard → Prop) : ChirpRate → Prop
  | .expression rate => rate.Prints H
  | .values _ => True

structure PlayOptions.Prints (H : Hazard → Prop) (options : PlayOptions) : Prop where
  amp : ∀ e ∈ options.amp.toList.flatMap Amp.expressions, e.Prints H
  duration : ∀ e ∈ options.duration, e.Prints H
  condition : ∀ e ∈ options.condition, e.Prints H
  chirp : ∀ chirp ∈ options.chirp, chirp.rate.Prints H
  truncate : ∀ e ∈ options.truncate, e.Prints H

structure MeasureOptions.Prints (H : Hazard → Prop) (options : MeasureOptions) : Prop where
  amp : ∀ e ∈ options.amp.toList.flatMap Amp.expressions, e.Prints H
  processes : ∀ e ∈ options.processes.flatMap MeasureProcess.expressions, e.Prints H

def LibraryArgument.Prints (H : Hazard → Prop) : LibraryArgument → Prop
  | .expression value => value.Prints H
  | .literals values => ∀ l ∈ values, l.Prints H

/-- An array is printed as its name. -/
def ForEachValues.Prints (H : Hazard → Prop) : ForEachValues → Prop
  | .array _ => True
  | .literals values => ∀ l ∈ values, l.Prints H

namespace Build

-- ---------------------------------------------------------------------------
-- Actions
-- ---------------------------------------------------------------------------

theorem sound_chirp {options : ChirpOptions} (h : options.rate.Prints H) (continues : Bool) :
    Sound (printing H) (fun chirp => chirp.rate.Prints H) (chirp options continues) := by
  obtain ⟨rate, times, units⟩ := options
  unfold chirp
  cases hunits : ChirpUnits.ofName? units with
  | none => exact .throw _
  | some units =>
    cases rate with
    | expression rate => exact .bind (P := Expression.Prints H) (.pure h) fun _ hrate => .pure hrate
    | values rates =>
      refine (sound_declareNamed .int none none ?_).bind fun _ hrate => .pure hrate
      rintro _ ⟨⟩
      exact List.forall_mem_map.mpr fun n _ => Literal.renders_int n

theorem keeps_play {pulse : Pulse} (element : String) {options : PlayOptions}
    (hp : ∀ e ∈ pulse.expressions, e.Prints H) (ho : options.Prints H) :
    Keeps (printing H) (play pulse element options) := by
  refine Preserves.bind (.mapM_option fun c hc => sound_chirp (ho.chirp c hc) _) fun chirp hchirp =>
    (keeps_timestampStream _).bind fun stream _ => keeps_act ?_
  simp only [printing, Action.expressions, List.forall_mem_append]
  refine ⟨⟨⟨⟨⟨hp, ho.amp⟩, ?_⟩, ?_⟩, ?_⟩, ?_⟩
  · simpa using ho.duration
  · simpa using ho.condition
  · simpa using hchirp
  · simpa using ho.truncate

theorem keeps_measure (pulse element : String) {options : MeasureOptions} (ho : options.Prints H) :
    Keeps (printing H) (measure pulse element options) := by
  refine (keeps_measureStream _).bind fun stream _ => (keeps_timestampStream _).bind fun timestamps _ =>
    keeps_act ?_
  exact List.forall_mem_append.mpr ⟨ho.amp, ho.processes⟩

theorem keeps_resetFrame (element : String) : Keeps (printing H) (resetFrame element) :=
  keeps_act (List.forall_mem_nil _)

theorem keeps_frameRotation2pi {angle : Expression} (h : angle.Prints H) (element : String) :
    Keeps (printing H) (frameRotation2pi angle element) :=
  keeps_act (List.forall_mem_singleton.mpr h)

/-- The factor of a rotation is finite. -/
theorem prints_inTurns {angle : Expression} (h : angle.Prints H) : (inTurns angle).Prints H := by
  have hfactor : inverseTwoPi.isFinite = true := by decide +kernel
  have hprints : (Expression.fixed inverseTwoPi).Prints H := by
    refine renders_real (x := inverseTwoPi) fun hinf => ?_
    rw [hfactor] at hinf
    cases hinf
  exact Expression.renders_binary .mul h hprints

theorem keeps_fastFrameRotation {cosine sine : Expression} (hc : cosine.Prints H) (hs : sine.Prints H)
    (element : String) : Keeps (printing H) (fastFrameRotation cosine sine element) :=
  keeps_act (List.forall_mem_cons.mpr ⟨hc, List.forall_mem_singleton.mpr hs⟩)

theorem keeps_waitForTrigger (elements : List String) (pulse : Option String) (trigger : Option TriggerElement)
    (target : Option Expression) : Keeps (printing H) (waitForTrigger elements pulse trigger target) := by
  refine Preserves.bind (P := fun _ => True) ?_ fun name _ => keeps_act ?_
  · refine (Preserves.mapM_option (Q := fun _ => True) fun e _ => ?_).mono fun _ _ => trivial
    split
    · exact .pure trivial
    · exact .throw _
  · refine List.forall_mem_map.mpr fun _ _ => Expression.renders_named _

theorem sound_assignTarget {target : Expression} (h : target.Prints H) :
    Sound (printing H) (Expression.Prints H) (assignTarget target) := by
  unfold assignTarget
  split <;> first | exact .pure h | exact .throw _

theorem keeps_assign {target value : Expression} (ht : target.Prints H) (hv : value.Prints H) :
    Keeps (printing H) (assign target value) :=
  (sound_assignTarget ht).bind fun _ ht =>
    keeps_act (List.forall_mem_cons.mpr ⟨ht, List.forall_mem_singleton.mpr hv⟩)

theorem sound_saveSource {source : Expression} (h : source.Prints H) :
    Sound (printing H) (Expression.Prints H) (saveSource source) := by
  unfold saveSource
  split <;> first | exact .pure h | exact .throw _

theorem keeps_save {source : Expression} (h : source.Prints H) (target : StreamTarget) :
    Keeps (printing H) (save source target) := by
  have hstream (stream : ResultSource) : Keeps (printing H) (do
      if stream.isAdcTrace then throw .adcTraceSave
      let source ← saveSource source
      act (.save source stream.name)) :=
    .guarded _ ((sound_saveSource h).bind fun _ hs => keeps_act (List.forall_mem_singleton.mpr hs))
  cases target with
  | tag tag => exact (keeps_taggedStream tag true).bind fun stream _ => hstream stream
  | source given => exact .bind (P := fun _ => True) (.pure trivial) fun stream _ => hstream stream

theorem sound_amp {values : List Expression} (h : ∀ e ∈ values, e.Prints H) :
    Sound (printing H) (fun amp => ∀ e ∈ amp.expressions, e.Prints H) (amp values) := by
  unfold amp
  split
  · exact .pure h
  · exact .pure h
  · exact .throw _

-- ---------------------------------------------------------------------------
-- Library calls and loops
-- ---------------------------------------------------------------------------

theorem sound_libraryArgument {argument : LibraryArgument} (h : argument.Prints H) :
    Sound (printing H) (Expression.Prints H) (libraryArgument argument) := by
  cases argument with
  | expression value => exact .pure h
  | literals values => exact sound_declareLiterals h

/-- A call that is made is one of a function that the library has. -/
theorem sound_libraryCall (library : Library) (function : String) {arguments : List LibraryArgument}
    (h : ∀ a ∈ arguments, a.Prints H) :
    Sound (printing H) (Expression.Prints H) (libraryCall library function arguments) := by
  unfold libraryCall
  cases harity : library.arity? function with
  | none => exact .throw _
  | some expected =>
    refine .guarded _ (Preserves.bind (.mapM fun a ha => sound_libraryArgument (h a ha)) fun es hes => .pure ?_)
    exact Expression.renders_call harity hes

theorem keeps_openFor {target init condition update : Expression} (ht : target.Prints H)
    (hi : init.Prints H) (hc : condition.Prints H) (hu : update.Prints H) :
    Keeps (printing H) (openFor target init condition update) := by
  refine (sound_assignTarget ht).bind fun target ht => keeps_openBlock (fun l => ?_) _
  have hassign {value : Expression} (hv : value.Prints H) :
      Statement.AllMeet (printing H) [.action (.assign target value) l] :=
    ⟨List.forall_mem_cons.mpr ⟨ht, List.forall_mem_singleton.mpr hv⟩, trivial⟩
  refine ⟨?_, hassign hi, hassign hu, trivial⟩
  rintro _ ⟨⟩
  exact hc

theorem keeps_forEachArray {values : ForEachValues} (h : values.Prints H) :
    Keeps (printing H) (forEachArray values) := by
  have harray (array : Expression) : Keeps (printing H) (forEachArray (.array array)) := by
    rw [forEachArray]
    split
    · exact .pure trivial
    · exact .throw _
  cases values with
  | array array => exact harray array
  | literals values => exact (sound_declareLiterals h).bind fun array _ => harray array

theorem keeps_forEachVariables (index : Nat) (targets : List Expression) :
    Keeps (printing H) (forEachVariables index targets) := by
  induction targets generalizing index with
  | nil => exact .pure trivial
  | cons e targets ih =>
    unfold forEachVariables
    split
    · exact .throw _
    · exact (ih _).bind fun _ _ => .pure trivial

theorem keeps_openForEach (targets : List Expression) {values : List ForEachValues}
    (h : ∀ v ∈ values, v.Prints H) : Keeps (printing H) (openForEach targets values) := by
  refine (keeps_forEachVariables 0 targets).bind fun names _ => .guarded _ ?_
  refine Preserves.bind (.mapM fun v hv => keeps_forEachArray (h v hv)) fun arrays _ => .guarded _ ?_
  have hmeets (l : String) : (Statement.forEach (names.zipWith Iterator.mk arrays) [] l).Meets (printing H) :=
    ⟨trivial, trivial⟩
  exact keeps_openBlock hmeets _

end Build
end
end Qua
