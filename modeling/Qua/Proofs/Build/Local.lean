import Qua.Proofs.Build.Context

/-!
# Steps that build nothing

What an action needs besides its operands is declared by steps that neither see nor change the body,
the open scopes and the location: they do the same wherever the action is built.
-/

namespace Qua

namespace Build

/-- The step does the same at every site. -/
def Local (m : Build α) : Prop :=
  ∀ (d : Draft) (s : Site), m (d.moved s) = match m d with
    | .ok (a, d') => .ok (a, d'.moved s)
    | .error e => .error e

/-- A local step leaves the site as it is. -/
theorem Local.site_eq {m : Build α} (h : Local m) (hm : m d = .ok (a, d')) : d'.site = d.site := by
  have hs := h d d.site
  rw [Draft.moved_site, hm] at hs
  simp only [Except.ok.injEq, Prod.mk.injEq, true_and] at hs
  rw [hs, Draft.site_moved]

theorem Local.moved {m : Build α} (h : Local m) (hm : m d = .ok (a, d')) (s : Site) :
    m (d.moved s) = .ok (a, d'.moved s) := by
  rw [h d s, hm]

theorem Local.pure (a : α) : Local (Pure.pure a) := fun _ _ => rfl

theorem Local.throw (e : BuildError) : Local (MonadExcept.throw e : Build α) := fun _ _ => rfl

theorem Local.bind {m : Build α} {f : α → Build β} (hm : Local m) (hf : ∀ a, Local (f a)) :
    Local (m >>= f) := by
  intro d s
  rw [bind_run, bind_run, hm d s]
  cases m d with
  | error e => rfl
  | ok result => exact hf result.1 result.2 s

theorem Local.map {m : Build α} (f : α → β) (hm : Local m) : Local (f <$> m) := by
  rw [map_eq_pure_bind]
  exact hm.bind fun a => .pure (f a)

theorem Local.mapM {f : α → Build β} (hf : ∀ a, Local (f a)) (as : List α) :
    Local (as.mapM f) := by
  induction as with
  | nil => simpa using Local.pure []
  | cons a as ih =>
    rw [List.mapM_cons]
    exact (hf a).bind fun b => ih.bind fun bs => .pure (b :: bs)

theorem Local.mapM_option {f : α → Build β} (hf : ∀ a, Local (f a)) (a : Option α) :
    Local (a.mapM f) := by
  cases a with
  | none => exact .pure none
  | some a => exact (hf a).map some

theorem Local.forM {f : α → Build PUnit} (hf : ∀ a, Local (f a)) (as : List α) :
    Local (as.forM f) := by
  induction as with
  | nil => exact .pure _
  | cons a as ih => exact (hf a).bind fun _ => ih

-- ---------------------------------------------------------------------------
-- Declarations, streams and saves
-- ---------------------------------------------------------------------------

theorem local_freshName (isArray : Bool) : Local (freshName isArray) := by
  intro d s
  cases isArray <;> rfl

theorem local_inputStreamName (stream : String) : Local (inputStreamName stream) := by
  intro d s
  have hs : (d.moved s).inputStreams = d.inputStreams := rfl
  by_cases hn : stream = ""
  · simp [inputStreamName, hn, bind_run]
  · by_cases hc : d.inputStreams.contains (inputStreamPrefix ++ stream)
    · simp only [inputStreamName, hn, if_false, bind_run, get_run, hs, hc, if_true]
      rfl
    · simp only [inputStreamName, hn, if_false, bind_run, get_run, hs, hc]
      rfl

theorem local_declareNamed (scalarType : ScalarType) (value : Option InitialValue)
    (size : Option Int64) (inputStream : Option String) :
    Local (declareNamed scalarType value size inputStream) := by
  unfold declareNamed
  cases shape value size with
  | error e => exact fun _ _ => rfl
  | ok shape =>
    refine .bind (.pure shape) fun (dimension, size, value) => ?_
    cases inputStream with
    | none => exact .bind (local_freshName _) fun _ => .bind (fun _ _ => rfl) fun _ => .pure _
    | some stream =>
      exact .bind (local_inputStreamName stream) fun _ => .bind (fun _ _ => rfl) fun _ => .pure _

theorem local_declare (scalarType : ScalarType) (value : Option InitialValue)
    (size : Option Int64) : Local (declare scalarType value size) :=
  local_declareNamed _ _ _ _

theorem local_lift (result : Except ExpressionError α) : Local (lift result) := by
  cases result with
  | error e => exact .throw _
  | ok a => exact .pure a

theorem local_declareLiterals (literals : List Literal) : Local (declareLiterals literals) :=
  .bind (local_lift _) fun (_, _) => local_declare _ _ _

theorem local_declareStream (isAdcTrace : Bool) : Local (declareStream isAdcTrace) :=
  fun _ _ => rfl

theorem local_addSave (entry : SaveEntry) : Local (addSave entry) := by
  intro d s
  have h : (d.moved s).program.results = d.program.results := rfl
  simp only [addSave, bind_run, get_run, h]
  cases d.program.results.add? entry with
  | none => rfl
  | some results => rfl

theorem local_modifyMetadata (f : Metadata → Metadata) : Local (modifyMetadata f) :=
  fun _ _ => rfl

theorem local_shorthand (tag : String) (isAdcTrace : Bool) {saves : ResultSource → Build Unit}
    (h : ∀ source, Local (saves source)) : Local (shorthand tag isAdcTrace saves) := by
  intro d s
  have hs : (d.moved s).shorthands = d.shorthands := rfl
  simp only [shorthand, bind_run (get : Build Draft), get_run, hs]
  cases d.shorthands.lookup tag with
  | some source => rfl
  | none =>
    refine Local.bind (local_declareStream _) (fun source => ?_) d s
    exact .bind (fun _ _ => rfl) fun _ => (h source).bind fun _ => .pure source

theorem local_taggedStream (tag : String) (addTimestamps : Bool) :
    Local (taggedStream tag addTimestamps) := by
  refine local_shorthand _ _ fun source => .bind (local_addSave _) fun _ => ?_
  cases addTimestamps with
  | false => exact .pure ()
  | true => exact local_addSave _

theorem local_taggedTrace (tag : String) : Local (taggedTrace tag) :=
  local_shorthand _ _ fun _ => .forM (fun (_, _) => .bind (local_addSave _) fun _ => local_addSave _) _

theorem local_timestampStream (target : Option StreamTarget) : Local (timestampStream target) := by
  cases target with
  | none => exact .pure none
  | some target =>
    refine .bind (local_modifyMetadata _) fun _ => ?_
    cases target with
    | tag tag => exact (local_taggedStream tag false).map some
    | source source => exact .pure _

theorem local_measureStream (target : Option StreamTarget) : Local (measureStream target) := by
  cases target with
  | none => exact .pure none
  | some target =>
    cases target with
    | tag tag => exact (local_taggedTrace tag).map some
    | source source => exact .pure _

theorem local_chirp (options : ChirpOptions) (continues : Bool) :
    Local (chirp options continues) := by
  unfold chirp
  cases ChirpUnits.ofName? options.units with
  | none => exact .throw _
  | some units =>
    cases options.rate with
    | expression rate => exact .pure _
    | values rates => exact .bind (local_declare _ _ _) fun _ => .pure _

theorem local_forEachArray (values : ForEachValues) : Local (forEachArray values) := by
  cases values with
  | array array =>
    simp only [forEachArray]
    cases array.arrayName? with
    | none => exact .throw _
    | some name => exact .pure name
  | literals values =>
    refine .bind (local_declareLiterals values) fun array => ?_
    cases array.arrayName? with
    | none => exact .throw _
    | some name => exact .pure name

theorem local_forEachVariables (targets : List Expression) (index : Nat) :
    Local (forEachVariables index targets) := by
  induction targets generalizing index with
  | nil => exact .pure []
  | cons e rest ih =>
    simp only [forEachVariables]
    cases e.variableName? with
    | none => exact .throw _
    | some name => exact (ih (index + 1)).bind fun _ => .pure _

theorem local_assignTarget (target : Expression) : Local (assignTarget target) := by
  cases target <;> first | exact .pure _ | exact .throw _

theorem local_saveSource (source : Expression) : Local (saveSource source) := by
  cases source <;> first | exact .pure _ | exact .throw _

end Build
end Qua
