import Qua.Proofs.Build.Events

/-!
# Steps that leave the stack of scopes alone

Steps that build nothing may fail, for a reason that has to do with what they are given, and never
because of the scopes. With `Local`, that is all that is to be known of them where scopes are concerned.
-/

namespace Qua

namespace Build

/-- The step does not fail over the stack of scopes. -/
def Quiet (m : Build α) : Prop := ∀ ⦃d : Draft⦄ ⦃e : BuildError⦄, m d = .error e → e ≠ .unexpectedStack

theorem Quiet.pure (a : α) : Quiet (Pure.pure a) := fun _ _ h => nomatch h

theorem Quiet.throw {e : BuildError} (h : e ≠ .unexpectedStack) :
    Quiet (MonadExcept.throw e : Build α) := by
  intro d e' he
  rw [← Except.error.inj he]
  exact h

/-- What comes after a failure is never reached. -/
theorem Quiet.throw_bind {e : BuildError} (h : e ≠ .unexpectedStack) (f : α → Build β) :
    Quiet (MonadExcept.throw e >>= f) := by
  intro d e' he
  rw [← Except.error.inj he]
  exact h

theorem Quiet.of_ok {m : Build α} (h : ∀ d, ∃ r, m d = .ok r) : Quiet m := by
  intro d e he
  obtain ⟨r, hr⟩ := h d
  rw [hr] at he
  nomatch he

theorem Quiet.bind {m : Build α} {f : α → Build β} (hm : Quiet m) (hf : ∀ a, Quiet (f a)) :
    Quiet (m >>= f) := by
  intro d e he
  rw [bind_run] at he
  cases hd : m d with
  | error e' =>
    rw [hd] at he
    exact Except.error.inj he ▸ hm hd
  | ok result =>
    rw [hd] at he
    exact hf _ he

theorem Quiet.map {m : Build α} (f : α → β) (hm : Quiet m) : Quiet (f <$> m) := by
  rw [map_eq_pure_bind]
  exact hm.bind fun a => .pure (f a)

theorem Quiet.mapM {f : α → Build β} (hf : ∀ a, Quiet (f a)) (as : List α) : Quiet (as.mapM f) := by
  induction as with
  | nil => simpa using Quiet.pure []
  | cons a as ih =>
    rw [List.mapM_cons]
    exact (hf a).bind fun b => ih.bind fun bs => .pure (b :: bs)

theorem Quiet.mapM_option {f : α → Build β} (hf : ∀ a, Quiet (f a)) (a : Option α) :
    Quiet (a.mapM f) := by
  cases a with
  | none => exact .pure none
  | some a => exact (hf a).map some

theorem Quiet.forM {f : α → Build PUnit} (hf : ∀ a, Quiet (f a)) (as : List α) :
    Quiet (as.forM f) := by
  induction as with
  | nil => exact .pure _
  | cons a as ih => exact (hf a).bind fun _ => ih

-- ---------------------------------------------------------------------------
-- Declarations, streams and saves
-- ---------------------------------------------------------------------------

theorem quiet_freshName (isArray : Bool) : Quiet (freshName isArray) :=
  .of_ok fun d => by cases isArray <;> exact ⟨_, rfl⟩

theorem quiet_inputStreamName (stream : String) : Quiet (inputStreamName stream) := by
  unfold inputStreamName
  split
  · exact .throw_bind (by simp) _
  · refine .bind (.of_ok fun d => ⟨_, rfl⟩) fun draft => ?_
    dsimp only
    split
    · exact .throw_bind (by simp) _
    · exact .bind (.of_ok fun d => ⟨_, rfl⟩) fun _ => .pure _

theorem quiet_declareNamed (scalarType : ScalarType) (value : Option InitialValue)
    (size : Option Int64) (inputStream : Option String) :
    Quiet (declareNamed scalarType value size inputStream) := by
  unfold declareNamed
  cases hs : shape value size with
  | error e =>
    refine .throw_bind ?_ _
    unfold shape at hs
    grind
  | ok shape =>
    refine .bind (.pure shape) fun (dimension, size, value) => ?_
    cases inputStream with
    | none =>
      exact .bind (quiet_freshName _) fun _ => .bind (.of_ok fun _ => ⟨_, rfl⟩) fun _ => .pure _
    | some stream =>
      exact .bind (quiet_inputStreamName stream) fun _ =>
        .bind (.of_ok fun _ => ⟨_, rfl⟩) fun _ => .pure _

theorem quiet_declare (scalarType : ScalarType) (value : Option InitialValue)
    (size : Option Int64) : Quiet (declare scalarType value size) :=
  quiet_declareNamed _ _ _ _

theorem quiet_declareLiterals (literals : List Literal) : Quiet (declareLiterals literals) := by
  refine .bind ?_ fun (_, _) => quiet_declare _ _ _
  cases Literal.arrayOf literals with
  | error e => exact .throw (by simp)
  | ok cells => exact .pure cells

theorem quiet_declareStream (isAdcTrace : Bool) : Quiet (declareStream isAdcTrace) :=
  .of_ok fun _ => ⟨_, rfl⟩

theorem quiet_modifyMetadata (f : Metadata → Metadata) : Quiet (modifyMetadata f) :=
  .of_ok fun _ => ⟨_, rfl⟩

theorem quiet_addSave (entry : SaveEntry) : Quiet (addSave entry) := by
  refine .bind (.of_ok fun d => ⟨_, rfl⟩) fun draft => ?_
  cases draft.program.results.add? entry with
  | none => exact .throw (by simp)
  | some results => exact .of_ok fun _ => ⟨_, rfl⟩

theorem quiet_shorthand (tag : String) (isAdcTrace : Bool) {saves : ResultSource → Build Unit}
    (h : ∀ source, Quiet (saves source)) : Quiet (shorthand tag isAdcTrace saves) := by
  refine .bind (.of_ok fun d => ⟨_, rfl⟩) fun draft => ?_
  cases draft.shorthands.lookup tag with
  | some source => exact .pure source
  | none =>
    exact .bind (quiet_declareStream _) fun source =>
      .bind (.of_ok fun _ => ⟨_, rfl⟩) fun _ => (h source).bind fun _ => .pure source

theorem quiet_taggedStream (tag : String) (addTimestamps : Bool) :
    Quiet (taggedStream tag addTimestamps) := by
  refine quiet_shorthand _ _ fun source => .bind (quiet_addSave _) fun _ => ?_
  cases addTimestamps with
  | false => exact .pure ()
  | true => exact quiet_addSave _

theorem quiet_taggedTrace (tag : String) : Quiet (taggedTrace tag) :=
  quiet_shorthand _ _ fun _ => .forM (fun (_, _) => .bind (quiet_addSave _) fun _ => quiet_addSave _) _

theorem quiet_timestampStream (target : Option StreamTarget) : Quiet (timestampStream target) := by
  cases target with
  | none => exact .pure none
  | some target =>
    refine .bind (quiet_modifyMetadata _) fun _ => ?_
    cases target with
    | tag tag => exact (quiet_taggedStream tag false).map some
    | source source => exact .pure _

theorem quiet_measureStream (target : Option StreamTarget) : Quiet (measureStream target) := by
  cases target with
  | none => exact .pure none
  | some target =>
    cases target with
    | tag tag => exact (quiet_taggedTrace tag).map some
    | source source => exact .pure _

-- ---------------------------------------------------------------------------
-- Operands
-- ---------------------------------------------------------------------------

theorem quiet_chirp (options : ChirpOptions) (continues : Bool) : Quiet (chirp options continues) := by
  unfold chirp
  cases ChirpUnits.ofName? options.units with
  | none => exact .throw (by simp)
  | some units =>
    cases options.rate with
    | expression rate => exact .pure _
    | values rates => exact .bind (quiet_declare _ _ _) fun _ => .pure _

theorem quiet_forEachArray (values : ForEachValues) : Quiet (forEachArray values) := by
  cases values with
  | array array =>
    simp only [forEachArray]
    cases array.arrayName? with
    | none => exact .throw (by simp)
    | some name => exact .pure name
  | literals values =>
    refine .bind (quiet_declareLiterals values) fun array => ?_
    cases array.arrayName? with
    | none => exact .throw (by simp)
    | some name => exact .pure name

theorem quiet_forEachVariables (targets : List Expression) (index : Nat) :
    Quiet (forEachVariables index targets) := by
  induction targets generalizing index with
  | nil => exact .pure []
  | cons e rest ih =>
    simp only [forEachVariables]
    cases e.variableName? with
    | none => exact .throw (by simp)
    | some name => exact (ih (index + 1)).bind fun _ => .pure _

theorem quiet_iterators (targets : List Expression) (values : List ForEachValues) :
    Quiet (iterators targets values) := by
  refine .bind (quiet_forEachVariables targets 0) fun names => ?_
  dsimp only
  split
  · exact .throw_bind (by simp) _
  · refine .bind (.mapM quiet_forEachArray values) fun arrays => ?_
    split
    · exact .throw_bind (by simp) _
    · exact .pure _

theorem quiet_assignTarget (target : Expression) : Quiet (assignTarget target) := by
  cases target <;> first | exact .pure _ | exact .throw (by simp)

theorem quiet_saveSource (source : Expression) : Quiet (saveSource source) := by
  cases source <;> first | exact .pure _ | exact .throw (by simp)

theorem quiet_libraryArgument (argument : LibraryArgument) : Quiet (libraryArgument argument) := by
  cases argument with
  | expression value => exact .pure value
  | literals values => exact quiet_declareLiterals values

theorem quiet_libraryCall (library : Library) (function : String)
    (arguments : List LibraryArgument) : Quiet (libraryCall library function arguments) := by
  unfold libraryCall
  cases library.arity? function with
  | none => exact .throw (by simp)
  | some expected =>
    dsimp only
    split
    · exact .throw_bind (by simp) _
    · exact .bind (.mapM quiet_libraryArgument arguments) fun _ => .pure _

theorem quiet_amp (values : List Expression) : Quiet (amp values) := by
  unfold amp
  split
  · exact .pure _
  · exact .pure _
  · exact .throw (by simp)

theorem local_libraryArgument (argument : LibraryArgument) : Local (libraryArgument argument) := by
  cases argument with
  | expression value => exact .pure value
  | literals values => exact local_declareLiterals values

theorem local_libraryCall (library : Library) (function : String)
    (arguments : List LibraryArgument) : Local (libraryCall library function arguments) := by
  unfold libraryCall
  cases library.arity? function with
  | none => exact .throw _
  | some expected =>
    dsimp only
    split
    · exact .bind (.throw _) fun _ => .bind (.mapM local_libraryArgument arguments) fun _ => .pure _
    · exact .bind (.mapM local_libraryArgument arguments) fun _ => .pure _

theorem local_amp (values : List Expression) : Local (amp values) := by
  unfold amp
  split
  · exact .pure _
  · exact .pure _
  · exact .throw _

-- ---------------------------------------------------------------------------
-- Calls
-- ---------------------------------------------------------------------------

theorem quiet_playAction (pulse : Pulse) (element : String) (options : PlayOptions) :
    Quiet (playAction pulse element options) :=
  .bind (.mapM_option (fun c => quiet_chirp c _) _) fun _ =>
    .bind (quiet_timestampStream _) fun _ => .pure _

theorem quiet_measureAction (pulse element : String) (options : MeasureOptions) :
    Quiet (measureAction pulse element options) :=
  .bind (quiet_measureStream _) fun _ => .bind (quiet_timestampStream _) fun _ => .pure _

theorem quiet_triggerAction (elements : List String) (pulse : Option String)
    (trigger : Option TriggerElement) (target : Option Expression) :
    Quiet (triggerAction elements pulse trigger target) := by
  refine .bind (.mapM_option (fun target => ?_) _) fun _ => .pure _
  unfold triggerTarget
  cases target.variableName? with
  | none => exact .throw (by simp)
  | some name => exact .pure name

theorem quiet_assignAction (target value : Expression) : Quiet (assignAction target value) :=
  .bind (quiet_assignTarget target) fun _ => .pure _

theorem quiet_saveAction (source : Expression) (stream : StreamTarget) :
    Quiet (saveAction source stream) := by
  have hs : Quiet (saveStream stream) := by
    cases stream with
    | tag tag => exact quiet_taggedStream tag true
    | source source => exact .pure source
  refine hs.bind fun stream => ?_
  dsimp only
  split
  · exact .throw_bind (by simp) _
  · exact (quiet_saveSource source).bind fun _ => .pure _

end Build

theorem Request.step_local (request : Request) : Build.Local request.step := by
  cases request with
  | declare t value size => exact (Build.local_declare t value size).map _
  | declareInputStream t name value size => exact (Build.local_declareNamed t value size _).map _
  | declareStream isAdcTrace => exact (Build.local_declareStream isAdcTrace).map _
  | registerSave kind tag pipeline => exact .bind (Build.local_addSave _) fun _ => .pure _
  | libraryCall library function arguments =>
    exact (Build.local_libraryCall library function arguments).map _
  | random seed => exact (Build.local_declare _ _ _).map _
  | amp values => exact (Build.local_amp values).map _

theorem Request.step_quiet (request : Request) : Build.Quiet request.step := by
  cases request with
  | declare t value size => exact (Build.quiet_declare t value size).map _
  | declareInputStream t name value size => exact (Build.quiet_declareNamed t value size _).map _
  | declareStream isAdcTrace => exact (Build.quiet_declareStream isAdcTrace).map _
  | registerSave kind tag pipeline => exact .bind (Build.quiet_addSave _) fun _ => .pure _
  | libraryCall library function arguments =>
    exact (Build.quiet_libraryCall library function arguments).map _
  | random seed => exact (Build.quiet_declare _ _ _).map _
  | amp values => exact (Build.quiet_amp values).map _

end Qua
