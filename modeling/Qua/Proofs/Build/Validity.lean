import Mathlib.Data.List.Find
import Qua.Proofs.Build.Plan

/-!
# Valid plans

A plan is valid if its operands are those that its calls ask for: variables and arrays where these are
needed, units that are known, tags that are free or already stand for a stream. A valid plan has
statements (`statementsOf_succeeds`).
-/

namespace Qua

namespace Build

/-- The step does not fail. -/
def Succeeds (step : Build α) (d : Draft) : Prop := ∃ a t, step d = .ok (a, t)

/-- What is the case after a step, if it does not fail. -/
def Afterwards (step : Build α) (d : Draft) (P : Draft → Prop) : Prop :=
  ∀ a t, step d = .ok (a, t) → P t

theorem Succeeds.pure (a : α) (d : Draft) : Succeeds (Pure.pure a) d := ⟨a, d, rfl⟩

theorem Succeeds.bind {m : Build α} {f : α → Build β} (hm : Succeeds m d)
    (hf : ∀ a t, m d = .ok (a, t) → Succeeds (f a) t) : Succeeds (m >>= f) d := by
  obtain ⟨a, t, h⟩ := hm
  obtain ⟨b, t', h'⟩ := hf a t h
  exact ⟨b, t', bind_eq_ok.mpr ⟨a, t, h, h'⟩⟩

theorem Succeeds.map {m : Build α} (f : α → β) (hm : Succeeds m d) : Succeeds (f <$> m) d := by
  rw [map_eq_pure_bind]
  exact hm.bind fun a t _ => .pure _ t

-- ---------------------------------------------------------------------------
-- Tags
-- ---------------------------------------------------------------------------

/-- The saves that a tag stands for in `save`, or as a stream of timestamps. -/
def streamSaves (addTimestamps : Bool) (tag : String) (source : ResultSource) : List SaveEntry :=
  ⟨.saveAll, tag, true, source.token⟩ ::
    if addTimestamps then [⟨.saveAll, tag ++ timestampsSuffix, true, source.timestamps.token⟩]
    else []

/-- The saves that a tag stands for in `measure`. -/
def traceSaves (tag : String) (source : ResultSource) : List SaveEntry :=
  (traceInputs tag source).flatMap fun (tag, input) => streamSaves true tag input

/-- A tag can be used if it stands for a stream, or else if its saves can be made. -/
def TagUsable (saves : String → ResultSource → List SaveEntry) (d : Draft) (tag : String) : Prop :=
  (d.shorthands.lookup tag).isSome ∨
    ∀ source, ∀ entry ∈ saves tag source, d.program.results.containsTag entry.tag = false

/-- Declared streams can be used anywhere. -/
def TargetUsable (saves : String → ResultSource → List SaveEntry) (d : Draft) :
    StreamTarget → Prop
  | .tag tag => TagUsable saves d tag
  | .source _ => True

theorem taggedStream_eq (tag : String) (addTimestamps : Bool) :
    taggedStream tag addTimestamps =
      shorthand tag false fun source => (streamSaves addTimestamps tag source).forM addSave := by
  cases addTimestamps <;> simp [taggedStream, streamSaves, autoSaveAll]

theorem taggedTrace_eq (tag : String) :
    taggedTrace tag =
      shorthand tag true fun source => (traceSaves tag source).forM addSave := by
  simp [taggedTrace, traceSaves, traceInputs, streamSaves, autoSaveAll]

/-- The draft with more saves. -/
def saving (d : Draft) (entries : List SaveEntry) : Draft :=
  { d with program := { d.program with results := ⟨d.program.results.entries ++ entries⟩ } }

theorem addSave_run (entry : SaveEntry) (d : Draft) :
    addSave entry d = if d.program.results.containsTag entry.tag then .error (.duplicateTag entry.tag)
      else .ok ((), saving d [entry]) := by
  simp only [addSave, bind_run, get_run, ResultAnalysis.add?]
  cases d.program.results.containsTag entry.tag <;> rfl

theorem containsTag_saving (d : Draft) (entry : SaveEntry) {tag : String} (hn : entry.tag ≠ tag) :
    (saving d [entry]).program.results.containsTag tag = d.program.results.containsTag tag := by
  simp [saving, ResultAnalysis.containsTag, hn]

/-- Saves under tags of their own are made one after the other, up to the first whose tag is taken. -/
theorem addSaves_run (entries : List SaveEntry) (d : Draft) (hd : (entries.map SaveEntry.tag).Nodup) :
    entries.forM addSave d =
      match (entries.map SaveEntry.tag).find? d.program.results.containsTag with
      | some taken => .error (.duplicateTag taken)
      | none => .ok ((), saving d entries) := by
  induction entries generalizing d with
  | nil => simp [saving]
  | cons entry entries ih =>
    obtain ⟨hn, hd⟩ := List.nodup_cons.mp hd
    change (addSave entry >>= fun _ => entries.forM addSave) d = _
    rw [bind_run, addSave_run, List.map_cons]
    cases hc : d.program.results.containsTag entry.tag with
    | true => simp [hc]
    | false =>
      -- The tag of the first save is none of the tags that follow.
      have hrest : (entries.map SaveEntry.tag).find? (saving d [entry]).program.results.containsTag =
          (entries.map SaveEntry.tag).find? d.program.results.containsTag :=
        List.find?_congr fun tag ht => containsTag_saving d entry fun he => hn (he ▸ ht)
      simp only [Bool.false_eq_true, if_false, ih _ hd, hrest, List.find?_cons, hc]
      simp [saving]

theorem streamSaves_nodup (addTimestamps : Bool) (tag : String) (source : ResultSource) :
    ((streamSaves addTimestamps tag source).map SaveEntry.tag).Nodup := by
  have h : tag ≠ tag ++ timestampsSuffix := by
    simp [timestampsSuffix, String.ext_iff]
  cases addTimestamps <;> simp [streamSaves, h]

theorem traceSaves_nodup (tag : String) (source : ResultSource) :
    ((traceSaves tag source).map SaveEntry.tag).Nodup := by
  simp [traceSaves, traceInputs, streamSaves, timestampsSuffix, String.append_assoc,
    String.append_right_inj]

theorem shorthand_succeeds (saves : String → ResultSource → List SaveEntry) (tag : String)
    (isAdcTrace : Bool) (hn : ∀ source, ((saves tag source).map SaveEntry.tag).Nodup)
    (hd : TagUsable saves d tag) :
    Succeeds (shorthand tag isAdcTrace fun source => (saves tag source).forM addSave) d := by
  cases hl : d.shorthands.lookup tag with
  | some source =>
    refine ⟨source, d, ?_⟩
    simp [shorthand, bind_run, hl]
  | none =>
    obtain hd | hd := hd
    · simp [hl] at hd
    · obtain ⟨source, declared, hs, hr⟩ : ∃ source declared,
          declareStream isAdcTrace d = .ok (source, declared) ∧
            declared.program.results = d.program.results := ⟨_, _, rfl, rfl⟩
      have hfree : ((saves tag source).map SaveEntry.tag).find? declared.program.results.containsTag =
          none := by
        rw [List.find?_eq_none, List.forall_mem_map]
        intro entry he
        simp [hr, hd source entry he]
      let known : Draft := { declared with shorthands := (tag, source) :: declared.shorthands }
      have ht : (saves tag source).forM addSave known = .ok ((), saving known (saves tag source)) := by
        rw [addSaves_run _ known (hn source)]
        simp only [known, hfree]
      exact ⟨source, saving known (saves tag source), by
        simp only [shorthand, bind_run, get_run, hl, hs, modify_run, ht, known, pure_run]⟩

theorem timestampStream_succeeds {target : Option StreamTarget}
    (h : ∀ x ∈ target, TargetUsable (streamSaves false) d x) :
    Succeeds (timestampStream target) d := by
  cases target with
  | none => exact .pure _ d
  | some target =>
    have h := h target rfl
    refine .bind ⟨_, _, rfl⟩ fun _ t ht => ?_
    obtain ⟨-, rfl⟩ := Prod.mk.inj (Except.ok.inj ht)
    cases target with
    | source source => exact .pure _ _
    | tag tag =>
      simp only [taggedStream_eq]
      refine .map _ (shorthand_succeeds _ tag false (streamSaves_nodup false tag) ?_)
      exact h

theorem measureStream_succeeds {target : Option StreamTarget}
    (h : ∀ x ∈ target, TargetUsable traceSaves d x) : Succeeds (measureStream target) d := by
  cases target with
  | none => exact .pure _ d
  | some target =>
    have h := h target rfl
    cases target with
    | source source => exact .pure _ _
    | tag tag =>
      simp only [measureStream, taggedTrace_eq]
      exact (shorthand_succeeds _ tag true (traceSaves_nodup tag) h).map _

theorem saveStream_succeeds {target : StreamTarget}
    (h : TargetUsable (streamSaves true) d target) : Succeeds (saveStream target) d := by
  cases target with
  | source source => exact .pure _ _
  | tag tag =>
    simp only [saveStream, taggedStream_eq]
    exact shorthand_succeeds _ tag false (streamSaves_nodup true tag) h

-- ---------------------------------------------------------------------------
-- Arrays
-- ---------------------------------------------------------------------------

/-- A list of literals is declared as an array, whatever the draft, and no tag is used for it. -/
theorem declareArray_run (scalarType : ScalarType) (values : List Literal) (d : Draft) :
    ∃ name t, declare scalarType (some (.array values)) none d = .ok (.array name, t) ∧
      t.shorthands = d.shorthands ∧ t.program.results = d.program.results :=
  ⟨_, _, rfl, rfl, rfl⟩

theorem chirp_succeeds {options : ChirpOptions} (continues : Bool) (d : Draft)
    (h : (ChirpUnits.ofName? options.units).isSome) :
    ∃ c t, chirp options continues d = .ok (c, t) ∧
      t.shorthands = d.shorthands ∧ t.program.results = d.program.results := by
  obtain ⟨units, hu⟩ := Option.isSome_iff_exists.mp h
  cases hr : options.rate with
  | expression rate =>
    refine ⟨⟨rate, options.times.getD [], units, continues⟩, d, ?_, rfl, rfl⟩
    simp [chirp, hu, hr]
  | values rates =>
    obtain ⟨name, t, ht, hs⟩ := declareArray_run .int (rates.map .int) d
    refine ⟨⟨.array name, options.times.getD [], units, continues⟩, t, ?_, hs⟩
    simp [chirp, hu, hr, map_run, ht]

theorem chirps_succeed {options : Option ChirpOptions} (continues : Bool) (d : Draft)
    (h : ∀ c ∈ options, (ChirpUnits.ofName? c.units).isSome) :
    ∃ (c : Option Chirp) (t : Draft), options.mapM (chirp · continues) d = .ok (c, t) ∧
      t.shorthands = d.shorthands ∧ t.program.results = d.program.results := by
  cases options with
  | none => exact ⟨none, d, rfl, rfl, rfl⟩
  | some options =>
    obtain ⟨c, t, ht, hs⟩ := chirp_succeeds continues d (h options rfl)
    refine ⟨some c, t, ?_, hs⟩
    simp [map_run, ht]

/-- Declared arrays, and literals that go into one array. -/
def ValuesValid : ForEachValues → Prop
  | .array array => array.arrayName?.isSome
  | .literals values => ∃ cells, Literal.arrayOf values = .ok cells

theorem forEachArray_succeeds {values : ForEachValues} (h : ValuesValid values) (d : Draft) :
    Succeeds (forEachArray values) d := by
  cases values with
  | array array =>
    obtain ⟨name, hn⟩ := Option.isSome_iff_exists.mp h
    exact ⟨name, d, by simp [forEachArray, hn]⟩
  | literals values =>
    obtain ⟨⟨scalarType, cells⟩, hc⟩ := h
    obtain ⟨name, t, ht, -⟩ := declareArray_run scalarType cells d
    exact ⟨name, t, by simp [forEachArray, declareLiterals, bind_run, hc, lift, ht,
      Expression.arrayName?]⟩

theorem forEachArrays_succeed {values : List ForEachValues} (h : ∀ v ∈ values, ValuesValid v)
    (d : Draft) : ∃ names t, values.mapM forEachArray d = .ok (names, t) ∧
      names.length = values.length := by
  induction values generalizing d with
  | nil => exact ⟨[], d, rfl, rfl⟩
  | cons v values ih =>
    obtain ⟨name, t, ht⟩ := forEachArray_succeeds (h v List.mem_cons_self) d
    obtain ⟨names, t', ht', hl⟩ := ih (fun v hv => h v (List.mem_cons_of_mem _ hv)) t
    refine ⟨name :: names, t', ?_, by simp [hl]⟩
    simp [bind_run, map_run, ht, ht']

theorem forEachVariables_succeed {targets : List Expression}
    (h : ∀ e ∈ targets, e.variableName?.isSome) (index : Nat) (d : Draft) :
    ∃ names, forEachVariables index targets d = .ok (names, d) ∧
      names.length = targets.length := by
  induction targets generalizing index with
  | nil => exact ⟨[], rfl, rfl⟩
  | cons e targets ih =>
    obtain ⟨name, hn⟩ := Option.isSome_iff_exists.mp (h e List.mem_cons_self)
    obtain ⟨names, hr, hl⟩ := ih (fun e he => h e (List.mem_cons_of_mem _ he)) (index + 1)
    refine ⟨name :: names, ?_, by simp [hl]⟩
    simp [forEachVariables, hn, bind_run, hr]

/-- Variables and cells of arrays. -/
def IsPlace : Expression → Prop
  | .var _ => True
  | .cell _ _ => True
  | _ => False

/-- Variables, cells of arrays and literals. -/
def IsSavable : Expression → Prop
  | .literal _ => True
  | e => IsPlace e

theorem assignTarget_succeeds {target : Expression} (h : IsPlace target) (d : Draft) :
    Succeeds (assignTarget target) d := by
  cases target <;> first | exact .pure _ d | exact h.elim

theorem saveSource_succeeds {source : Expression} (h : IsSavable source) (d : Draft) :
    Succeeds (saveSource source) d := by
  cases source <;> first | exact .pure _ d | exact h.elim

end Build

open Build

-- ---------------------------------------------------------------------------
-- Leaves and openings
-- ---------------------------------------------------------------------------

/-- The operands of a leaf are valid in a draft. -/
def Leaf.Valid (d : Draft) : Leaf → Prop
  | .play _ _ options =>
    (∀ c ∈ options.chirp, (ChirpUnits.ofName? c.units).isSome) ∧
      ∀ x ∈ options.timestampStream, TargetUsable (streamSaves false) d x
  | .measure _ _ options =>
    (∀ x ∈ options.stream, TargetUsable traceSaves d x) ∧
      Afterwards (measureStream options.stream) d fun d =>
        ∀ x ∈ options.timestampStream, TargetUsable (streamSaves false) d x
  | .waitForTrigger _ _ _ target => ∀ e ∈ target, e.variableName?.isSome
  | .assign target _ => IsPlace target
  | .save source stream =>
    IsSavable source ∧ TargetUsable (streamSaves true) d stream ∧
      ∀ x t, saveStream stream d = .ok (x, t) → x.isAdcTrace = false
  | _ => True

/-- The operands of an opening are valid: a loop over arrays has a variable for each of them. -/
def Opening.Valid : Opening → Prop
  | .counted target _ _ _ => IsPlace target
  | .forEach targets values =>
    values ≠ [] ∧ targets.length = values.length ∧ (∀ e ∈ targets, e.variableName?.isSome) ∧
      ∀ v ∈ values, ValuesValid v
  | _ => True

theorem Leaf.Valid.actions_succeed {leaf : Leaf} (h : leaf.Valid d) :
    Succeeds leaf.actions d := by
  cases leaf with
  | play pulse element options =>
    obtain ⟨hc, ht⟩ := h
    obtain ⟨made, d', hd, hs, hr⟩ := chirps_succeed options.continueChirp d hc
    have ht : ∀ x ∈ options.timestampStream, TargetUsable (streamSaves false) d' x := by
      intro x hx
      have h := ht x hx
      cases x with
      | source source => exact h
      | tag tag => simpa only [TargetUsable, TagUsable, hs, hr] using h
    have hp : Succeeds (playAction pulse element options) d :=
      .bind ⟨made, d', hd⟩ fun a t ha => by
        rw [hd] at ha
        obtain ⟨rfl, rfl⟩ := Prod.mk.inj (Except.ok.inj ha)
        exact (timestampStream_succeeds ht).bind fun _ t _ => .pure _ t
    exact hp.bind fun _ t _ => .pure _ t
  | measure pulse element options =>
    obtain ⟨hs, ht⟩ := h
    have hm : Succeeds (measureAction pulse element options) d :=
      (measureStream_succeeds hs).bind fun a t ha =>
        (timestampStream_succeeds (ht a t ha)).bind fun _ t _ => .pure _ t
    exact hm.bind fun _ t _ => .pure _ t
  | waitForTrigger elements pulse trigger target =>
    have hw : Succeeds (triggerAction elements pulse trigger target) d := by
      refine .bind ?_ fun _ t _ => .pure _ t
      cases target with
      | none => exact .pure none d
      | some target =>
        obtain ⟨name, hn⟩ := Option.isSome_iff_exists.mp (h target rfl)
        exact .map some ⟨name, d, by simp [triggerTarget, hn]⟩
    exact hw.bind fun _ t _ => .pure _ t
  | assign target value =>
    have ha : Succeeds (assignAction target value) d :=
      (assignTarget_succeeds h d).bind fun _ t _ => .pure _ t
    exact ha.bind fun _ t _ => .pure _ t
  | save source stream =>
    obtain ⟨hs, hu, ht⟩ := h
    have ha : Succeeds (saveAction source stream) d := by
      refine (saveStream_succeeds hu).bind fun x t hx => ?_
      simp only [ht x t hx, Bool.false_eq_true, if_false]
      exact (saveSource_succeeds hs t).bind fun _ t _ => .pure _ t
    exact ha.bind fun _ t _ => .pure _ t
  | fastFrameRotation cosine sine elements => exact ⟨_, _, rfl⟩
  | resetFrame elements => exact .pure _ d
  | frameRotation angle elements => exact .pure _ d
  | frameRotation2pi angle elements => exact .pure _ d
  | plain action => exact .pure _ d

theorem Opening.Valid.hole_succeeds {opening : Opening} (h : opening.Valid) (l : String)
    (d : Draft) : Succeeds (opening.hole l) d := by
  cases opening with
  | counted target init condition update =>
    exact (assignTarget_succeeds h d).bind fun _ t _ => .pure _ t
  | forEach targets values =>
    obtain ⟨hne, hlen, ht, hv⟩ := h
    obtain ⟨names, hn, hnl⟩ := forEachVariables_succeed ht 0 d
    obtain ⟨arrays, t, ha, hal⟩ := forEachArrays_succeed hv d
    have hi : iterators targets values d = .ok (names.zipWith Iterator.mk arrays, t) := by
      simp [iterators, bind_run, hn, hne, ha, hnl, hal, hlen]
    exact .bind ⟨_, t, hi⟩ fun _ t _ => .pure _ t
  | whileLoop condition => exact .pure _ d
  | infiniteLoop => exact .pure _ d
  | strictTiming => exact .pure _ d

-- ---------------------------------------------------------------------------
-- Plans
-- ---------------------------------------------------------------------------

mutual

/-- Every leaf and opening of the plan is valid in the draft in which it is built. -/
def Plan.Valid (d : Draft) : Plan → Prop
  | .leaf leaf _ => leaf.Valid d
  | .conditional _ _ body rest _ =>
    AllValid d body ∧ Afterwards (statementsOf body) d fun d => rest.Valid d
  | .block opening body l =>
    opening.Valid ∧ Afterwards (opening.hole l) d fun d => AllValid d body
  | .loop parts _ => PartsValid d parts

def Alternatives.Valid (d : Draft) : Alternatives → Prop
  | .done => True
  | .otherwise body => AllValid d body
  | .elif _ body rest => AllValid d body ∧ Afterwards (statementsOf body) d fun d => rest.Valid d

def LoopPart.Valid (d : Draft) : LoopPart → Prop
  | .block _ body => AllValid d body
  | .condition _ => True

def PartsValid (d : Draft) : List LoopPart → Prop
  | [] => True
  | part :: rest => part.Valid d ∧ ∀ parts, Afterwards (part.addTo parts) d fun d => PartsValid d rest

def AllValid (d : Draft) : List Plan → Prop
  | [] => True
  | plan :: rest => plan.Valid d ∧ Afterwards plan.statements d fun d => AllValid d rest

end

mutual

theorem Plan.Valid.succeeds : {plan : Plan} → plan.Valid d → Succeeds plan.statements d
  | .leaf leaf _, h => by
    rw [Plan.Valid] at h
    rw [Plan.statements]
    exact h.actions_succeed.bind fun _ t _ => .pure _ t
  | .conditional c u body rest l, h => by
    rw [Plan.Valid] at h
    rw [Plan.statements]
    exact (AllValid.succeeds h.1).bind fun ss t hs =>
      (Alternatives.Valid.succeeds l (h.2 ss t hs)).bind fun _ t _ => .pure _ t
  | .block opening body l, h => by
    rw [Plan.Valid] at h
    rw [Plan.statements]
    exact (h.1.hole_succeeds l d).bind fun hole t hh =>
      (AllValid.succeeds (h.2 hole t hh)).bind fun _ t _ => .pure _ t
  | .loop parts l, h => by
    rw [Plan.Valid] at h
    rw [Plan.statements]
    exact (PartsValid.succeeds {} h).bind fun _ t _ => .pure _ t

theorem Alternatives.Valid.succeeds (l : String) :
    {rest : Alternatives} → rest.Valid d → Succeeds (rest.branches l) d
  | .done, _ => by
    rw [Alternatives.branches]
    exact .pure _ d
  | .otherwise body, h => by
    rw [Alternatives.Valid] at h
    rw [Alternatives.branches]
    exact (AllValid.succeeds h).bind fun _ t _ => .pure _ t
  | .elif condition body rest, h => by
    rw [Alternatives.Valid] at h
    rw [Alternatives.branches]
    exact (AllValid.succeeds h.1).bind fun ss t hs =>
      (Alternatives.Valid.succeeds l (h.2 ss t hs)).bind fun _ t _ => .pure _ t

theorem LoopPart.Valid.succeeds (parts : LoopParts) :
    {part : LoopPart} → part.Valid d → Succeeds (part.addTo parts) d
  | .block which body, h => by
    rw [LoopPart.Valid] at h
    rw [LoopPart.addTo]
    exact (AllValid.succeeds h).bind fun _ t _ => .pure _ t
  | .condition condition, _ => by
    rw [LoopPart.addTo]
    exact .pure _ d

theorem PartsValid.succeeds (before : LoopParts) :
    {parts : List LoopPart} → PartsValid d parts → Succeeds (loopOf parts before) d
  | [], _ => by
    rw [loopOf]
    exact .pure _ d
  | part :: rest, h => by
    rw [PartsValid] at h
    rw [loopOf]
    exact (LoopPart.Valid.succeeds before h.1).bind fun after t ha =>
      PartsValid.succeeds after (h.2 before after t ha)

/-- Valid plans have statements. -/
theorem AllValid.succeeds :
    {plans : List Plan} → AllValid d plans → Succeeds (statementsOf plans) d
  | [], _ => by
    rw [statementsOf]
    exact .pure _ d
  | plan :: rest, h => by
    rw [AllValid] at h
    rw [statementsOf]
    exact (Plan.Valid.succeeds h.1).bind fun ss t hs =>
      (AllValid.succeeds (h.2 ss t hs)).bind fun _ t _ => .pure _ t

end

end Qua
