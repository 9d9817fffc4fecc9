import Qua.Proofs.Build.Locations
import Qua.Proofs.Build.Registry

/-!
# Steps that look at the inventory only

What a step declares and what it answers depend on the declarations, streams and saves gathered so far.
Where it is made makes no difference, and the flags of the program are never looked at.
-/

namespace Qua

namespace Simulates

variable {σ ε α β : Type} {R : σ → σ → Prop}

theorem mapM {f : α → StateT σ (Except ε) β} (hf : ∀ a, Simulates R (f a) (f a)) (as : List α) :
    Simulates R (as.mapM f) (as.mapM f) := by
  induction as with
  | nil => simpa using Simulates.pure []
  | cons a as ih =>
    rw [List.mapM_cons]
    exact (hf a).bind fun b => ih.bind fun bs => .pure (b :: bs)

theorem mapM_option {f : α → StateT σ (Except ε) β} (hf : ∀ a, Simulates R (f a) (f a)) (a : Option α) :
    Simulates R (a.mapM f) (a.mapM f) := by
  cases a with
  | none => exact .pure none
  | some a => exact (hf a).map some

end Simulates

namespace Draft

/-- The same inventory at another site and with other flags. -/
def elsewhere (d : Draft) (s : Site) (flags : Metadata) : Draft :=
  { d.moved s with program := { (d.moved s).program with metadata := flags } }

theorem eq_elsewhere {d e : Draft} (h : d.inventory = e.inventory) :
    e = d.elsewhere e.site e.program.metadata := by
  obtain ⟨⟨⟩, _⟩ := d
  obtain ⟨⟨⟩, _⟩ := e
  simp_all [inventory, elsewhere, moved, site]

theorem inventory_withRegistry {d e : Draft} (h : d.inventory = e.inventory) (r : Registry) :
    (d.withRegistry r).inventory = (e.withRegistry r).inventory := by
  rw [eq_elsewhere h]
  rfl

end Draft

namespace Build

/-- The step looks at the inventory only. -/
abbrev Steady (m : Build α) : Prop := Alike Draft.inventory m m

/-- A step is steady if it does the same at every site and whatever the flags, which it leaves alone. -/
theorem steady_of_elsewhere {m : Build α}
    (h : ∀ (d : Draft) (s : Site) (flags : Metadata), m (d.elsewhere s flags) = match m d with
      | .ok (a, d') => .ok (a, d'.elsewhere s flags)
      | .error e => .error e) : Steady m := by
  intro d e hde a d' ha
  rw [Draft.eq_elsewhere hde, h, ha]
  exact ⟨_, rfl, rfl⟩

-- ---------------------------------------------------------------------------
-- Declarations, streams and saves
-- ---------------------------------------------------------------------------

theorem steady_modifyMetadata (f : Metadata → Metadata) : Steady (modifyMetadata f) := by
  rintro d e hde _ _ ⟨⟩
  exact ⟨_, rfl, hde⟩

theorem steady_freshName (isArray : Bool) : Steady (freshName isArray) :=
  steady_of_elsewhere fun d s flags => by cases isArray <;> rfl

theorem steady_inputStreamName (stream : String) : Steady (inputStreamName stream) := by
  refine steady_of_elsewhere fun d s flags => ?_
  have hs : (d.elsewhere s flags).inputStreams = d.inputStreams := rfl
  by_cases hn : stream = ""
  · simp [inputStreamName, hn, bind_run]
  · by_cases hc : d.inputStreams.contains (inputStreamPrefix ++ stream)
    · simp only [inputStreamName, hn, if_false, bind_run, get_run, hs, hc, if_true]
      rfl
    · simp only [inputStreamName, hn, if_false, bind_run, get_run, hs, hc]
      rfl

theorem steady_declareNamed (scalarType : ScalarType) (value : Option InitialValue)
    (size : Option Int64) (inputStream : Option String) :
    Steady (declareNamed scalarType value size inputStream) := by
  unfold declareNamed
  cases shape value size with
  | error e => exact fun _ _ _ _ _ ha => nomatch ha
  | ok shape =>
    refine .bind (.pure shape) fun (dimension, size, value) => ?_
    have hadd (declaration : Declaration) : Steady (modify (Draft.declaring · declaration)) :=
      steady_of_elsewhere fun _ _ _ => rfl
    cases inputStream with
    | none => exact (steady_freshName _).bind fun _ => (hadd _).bind fun _ => .pure _
    | some stream => exact (steady_inputStreamName stream).bind fun _ => (hadd _).bind fun _ => .pure _

theorem steady_declareLiterals (literals : List Literal) : Steady (declareLiterals literals) := by
  refine .bind ?_ fun (_, _) => steady_declareNamed _ _ _ _
  cases Literal.arrayOf literals with
  | error e => exact .throw _ _
  | ok cells => exact .pure cells

theorem steady_declareStream (isAdcTrace : Bool) : Steady (declareStream isAdcTrace) :=
  steady_of_elsewhere fun _ _ _ => rfl

theorem steady_addSave (entry : SaveEntry) : Steady (addSave entry) := by
  refine steady_of_elsewhere fun d s flags => ?_
  have hs : (d.elsewhere s flags).program.results = d.program.results := rfl
  simp only [addSave, bind_run, get_run, hs]
  cases d.program.results.add? entry with
  | none => rfl
  | some results => rfl

theorem steady_useTag (role : TagRole) (tag : String) : Steady (useTag role tag) := by
  intro d e hde source d' ha
  have hregistry : d.registry = e.registry := by
    rw [← d.registry_inventory, hde, e.registry_inventory]
  rw [useTag_run] at ha ⊢
  rw [← hregistry]
  cases hu : d.registry.use role tag with
  | error error =>
    rw [hu] at ha
    nomatch ha
  | ok result =>
    rw [hu] at ha
    obtain ⟨rfl, rfl⟩ := Prod.mk.inj (Except.ok.inj ha)
    exact ⟨_, rfl, Draft.inventory_withRegistry hde _⟩

theorem steady_timestampStream (target : Option StreamTarget) : Steady (timestampStream target) := by
  cases target with
  | none => exact .pure none
  | some target =>
    refine (steady_modifyMetadata _).bind fun _ => ?_
    cases target with
    | tag tag => exact (steady_useTag .timestamps tag).map some
    | source source => exact .pure _

theorem steady_measureStream (target : Option StreamTarget) : Steady (measureStream target) := by
  cases target with
  | none => exact .pure none
  | some target =>
    cases target with
    | tag tag => exact (steady_useTag .trace tag).map some
    | source source => exact .pure _

theorem steady_saveStream (target : StreamTarget) : Steady (saveStream target) := by
  cases target with
  | tag tag => exact steady_useTag .values tag
  | source source => exact .pure source

-- ---------------------------------------------------------------------------
-- Operands
-- ---------------------------------------------------------------------------

theorem steady_chirp (options : ChirpOptions) (continues : Bool) : Steady (chirp options continues) := by
  unfold chirp
  cases ChirpUnits.ofName? options.units with
  | none => exact .throw _ _
  | some units =>
    cases options.rate with
    | expression rate => exact .pure _
    | values rates => exact (steady_declareNamed _ _ _ _).bind fun _ => .pure _

theorem steady_assignTarget (target : Expression) : Steady (assignTarget target) := by
  cases target <;> first | exact .pure _ | exact .throw _ _

theorem steady_saveSource (source : Expression) : Steady (saveSource source) := by
  cases source <;> first | exact .pure _ | exact .throw _ _

theorem steady_triggerTarget (target : Expression) : Steady (triggerTarget target) := by
  unfold triggerTarget
  split <;> first | exact .pure _ | exact .throw _ _

theorem steady_forEachArray (values : ForEachValues) : Steady (forEachArray values) := by
  cases values with
  | array array =>
    simp only [forEachArray]
    cases array.arrayName? with
    | none => exact .throw _ _
    | some name => exact .pure name
  | literals values =>
    refine (steady_declareLiterals values).bind fun array => ?_
    cases array.arrayName? with
    | none => exact .throw _ _
    | some name => exact .pure name

theorem steady_forEachVariables (targets : List Expression) (index : Nat) :
    Steady (forEachVariables index targets) := by
  induction targets generalizing index with
  | nil => exact .pure []
  | cons e rest ih =>
    simp only [forEachVariables]
    cases e.variableName? with
    | none => exact .throw _ _
    | some name => exact (ih (index + 1)).bind fun _ => .pure _

theorem steady_iterators (targets : List Expression) (values : List ForEachValues) :
    Steady (iterators targets values) := by
  refine (steady_forEachVariables targets 0).bind fun names => ?_
  cases values.isEmpty with
  | true => exact fun _ _ _ _ _ ha => nomatch ha
  | false =>
    refine (Simulates.mapM steady_forEachArray values).bind fun arrays => ?_
    split
    · exact (Simulates.throw _ _).bind fun _ => .pure _
    · exact .pure _

theorem steady_libraryArgument (argument : LibraryArgument) : Steady (libraryArgument argument) := by
  cases argument with
  | expression value => exact .pure value
  | literals values => exact steady_declareLiterals values

theorem steady_libraryCall (library : Library) (function : String) (arguments : List LibraryArgument) :
    Steady (libraryCall library function arguments) := by
  have harguments := (Simulates.mapM steady_libraryArgument arguments).bind
    fun arguments => .pure (Expression.call library function arguments)
  unfold libraryCall
  cases library.arity? function with
  | none => exact .throw _ _
  | some expected =>
    dsimp only
    split
    · exact (Simulates.throw _ _).bind fun _ => harguments
    · exact harguments

theorem steady_amp (values : List Expression) : Steady (amp values) := by
  unfold amp
  split <;> first | exact .pure _ | exact .throw _ _

-- ---------------------------------------------------------------------------
-- Actions
-- ---------------------------------------------------------------------------

theorem steady_playAction (pulse : Pulse) (element : String) (options : PlayOptions) :
    Steady (playAction pulse element options) :=
  (Simulates.mapM_option (fun c => steady_chirp c _) _).bind fun _ =>
    (steady_timestampStream _).bind fun _ => .pure _

theorem steady_measureAction (pulse element : String) (options : MeasureOptions) :
    Steady (measureAction pulse element options) :=
  (steady_measureStream _).bind fun _ => (steady_timestampStream _).bind fun _ => .pure _

theorem steady_triggerAction (elements : List String) (pulse : Option String)
    (trigger : Option TriggerElement) (target : Option Expression) :
    Steady (triggerAction elements pulse trigger target) :=
  (Simulates.mapM_option steady_triggerTarget _).bind fun _ => .pure _

theorem steady_assignAction (target value : Expression) : Steady (assignAction target value) :=
  (steady_assignTarget target).bind fun _ => .pure _

theorem steady_saveAction (source : Expression) (stream : StreamTarget) :
    Steady (saveAction source stream) := by
  refine (steady_saveStream stream).bind fun stream => ?_
  have hsource := (steady_saveSource source).bind fun source => .pure (Action.save source stream.name)
  cases stream.isAdcTrace with
  | true => exact (Simulates.throw _ _).bind fun _ => hsource
  | false => exact hsource

end Build

open Build

theorem Request.step_steady (asked : Request) : Steady asked.step := by
  cases asked with
  | declare scalarType value size => exact (steady_declareNamed _ _ _ _).map _
  | declareInputStream scalarType name value size => exact (steady_declareNamed _ _ _ _).map _
  | declareStream isAdcTrace => exact (steady_declareStream isAdcTrace).map _
  | registerSave kind tag pipeline => exact (steady_addSave _).bind fun _ => .pure _
  | libraryCall library function arguments => exact (steady_libraryCall _ _ _).map _
  | random seed => exact (steady_declareNamed .int (some (.scalar (.int seed))) none none).map _
  | amp values => exact (steady_amp values).map _

end Qua
