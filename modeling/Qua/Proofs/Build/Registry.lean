import Qua.Proofs.Build.Declarations

/-!
# Streams and saves of a draft

A draft counts its streams, knows which of them stand for tags, and holds the saves (`Registry`).
Besides the calls that declare a stream or register a save, all that changes these is a tag that is used
for the first time. Main statement: `Event.perform_records`.
-/

namespace Qua

/-- The stream that is declared with a number. -/
def numberedStream (isAdcTrace : Bool) (n : Nat) : ResultSource :=
  { name := streamName isAdcTrace n, isAdcTrace := isAdcTrace }

/-- What a draft knows of streams and saves. -/
structure Registry where
  /-- How many streams have been named. -/
  streams : Nat
  /-- The streams that were declared for a tag. -/
  shorthands : List (String × ResultSource)
  saves : List SaveEntry

def Draft.registry (d : Draft) : Registry :=
  ⟨d.streams, d.shorthands, d.program.results.entries⟩

/-- The draft with other streams and saves. -/
def Draft.withRegistry (d : Draft) (r : Registry) : Draft :=
  { d with
    streams := r.streams
    shorthands := r.shorthands
    program := { d.program with results := ⟨r.saves⟩ } }

theorem Draft.registry_inventory (d : Draft) : d.inventory.registry = d.registry := rfl

@[simp] theorem Draft.registry_withRegistry (d : Draft) (r : Registry) :
    (d.withRegistry r).registry = r := rfl

/-- A declaration leaves streams and saves alone. -/
theorem Build.Adds.registry (h : Build.Adds declaration d t) : t.registry = d.registry := by
  cases h with
  | numbered hi hn => cases declaration.isArray <;> rfl
  | inputStream stream hi hn hne hnew => rfl

namespace Registry

/-- No save has the tag. -/
def IsFree (r : Registry) (tag : String) : Prop := ∀ entry ∈ r.saves, entry.tag ≠ tag

/-- Whether there is a save under the tag. -/
def isTaken (r : Registry) (tag : String) : Bool := (ResultAnalysis.mk r.saves).containsTag tag

theorem isTaken_eq_false {r : Registry} : r.isTaken tag = false ↔ r.IsFree tag := by
  simp [isTaken, ResultAnalysis.containsTag, IsFree]

/-- A stream is declared. -/
def declared (r : Registry) : Registry := { r with streams := r.streams + 1 }

/-- A save is registered. -/
def saved (r : Registry) (entry : SaveEntry) : Registry := { r with saves := r.saves ++ [entry] }

/-- The stream that is declared next. -/
def next (r : Registry) (isAdcTrace : Bool) : ResultSource := numberedStream isAdcTrace (r.streams + 1)

/-- A tag is used for the first time. -/
def tagged (r : Registry) (role : TagRole) (tag : String) : Registry :=
  let source := r.next role.isAdcTrace
  ⟨r.streams + 1, (tag, source) :: r.shorthands, r.saves ++ role.saves tag source⟩

/-- A tag is used in a role. The first use declares its stream, and needs free tags for the saves. -/
def use (r : Registry) (role : TagRole) (tag : String) : Except BuildError (ResultSource × Registry) :=
  match r.shorthands.lookup tag with
  | some source => .ok (source, r)
  | none =>
    let source := r.next role.isAdcTrace
    match (role.tags tag).find? r.isTaken with
    | some taken => .error (.duplicateTag taken)
    | none => .ok (source, r.tagged role tag)

/-- Tags have been used, some of them for the first time, if their saves had free tags. -/
inductive UsesTags : Registry → Registry → Prop
  | refl (r : Registry) : UsesTags r r
  | first {r r' : Registry} (role : TagRole) (tag : String) (hn : r.shorthands.lookup tag = none)
      (hf : ∀ taken ∈ role.tags tag, r.IsFree taken)
      (h : UsesTags (r.tagged role tag) r') : UsesTags r r'

/-- A use of a tag that does not fail: the tag is known, or its saves are made. -/
theorem use_eq_ok {r s : Registry} (h : r.use role tag = .ok (source, s)) :
    r.shorthands.lookup tag = some source ∧ s = r ∨
      r.shorthands.lookup tag = none ∧ source = r.next role.isAdcTrace ∧ s = r.tagged role tag ∧
        ∀ taken ∈ role.tags tag, r.IsFree taken := by
  unfold use at h
  cases hl : r.shorthands.lookup tag with
  | some known =>
    rw [hl] at h
    obtain ⟨rfl, rfl⟩ := Prod.mk.inj (Except.ok.inj h)
    exact .inl ⟨rfl, rfl⟩
  | none =>
    rw [hl] at h
    dsimp only at h
    split at h
    · cases h
    · rename_i hf
      obtain ⟨rfl, rfl⟩ := Prod.mk.inj (Except.ok.inj h)
      refine .inr ⟨rfl, rfl, rfl, fun tag ht => isTaken_eq_false.mp ?_⟩
      simpa using List.find?_eq_none.mp hf tag ht

/-- The first use of a tag fails over a tag that is taken. -/
theorem use_error {r : Registry} (h : r.use role tag = .error e) :
    ∃ taken ∈ role.tags tag, e = .duplicateTag taken := by
  unfold use at h
  cases hl : r.shorthands.lookup tag with
  | some known =>
    rw [hl] at h
    cases h
  | none =>
    rw [hl] at h
    dsimp only at h
    split at h
    · rename_i taken hf
      exact ⟨taken, List.mem_of_find?_eq_some hf, (Except.error.inj h).symm⟩
    · cases h

theorem usesTags_of_use {r s : Registry} (h : r.use role tag = .ok (source, s)) : r.UsesTags s := by
  obtain ⟨-, rfl⟩ | ⟨hn, rfl, rfl, hf⟩ := use_eq_ok h
  · exact .refl _
  · exact .first role tag hn hf (.refl _)

theorem UsesTags.trans {r s t : Registry} (h : r.UsesTags s) (h' : s.UsesTags t) : r.UsesTags t := by
  induction h with
  | refl r => exact h'
  | first role tag hn hf _ ih => exact .first role tag hn hf (ih h')

end Registry

namespace Build

-- ---------------------------------------------------------------------------
-- Tags
-- ---------------------------------------------------------------------------

theorem addSave_eq_ok {entry : SaveEntry} (h : addSave entry d = .ok (a, t)) :
    d.registry.IsFree entry.tag ∧ t = d.withRegistry (d.registry.saved entry) := by
  rw [addSave_run] at h
  cases hc : d.program.results.containsTag entry.tag with
  | true =>
    rw [hc] at h
    nomatch h
  | false =>
    rw [hc] at h
    obtain ⟨-, rfl⟩ := Prod.mk.inj (Except.ok.inj h)
    exact ⟨Registry.isTaken_eq_false.mp hc, rfl⟩

theorem declareStream_run (isAdcTrace : Bool) (d : Draft) :
    declareStream isAdcTrace d = .ok (d.registry.next isAdcTrace, { d with streams := d.streams + 1 }) := by
  cases isAdcTrace <;> rfl

/-- What the use of a tag does to a draft. -/
theorem useTag_run (role : TagRole) (tag : String) (d : Draft) :
    useTag role tag d = (d.registry.use role tag).map fun (source, r) => (source, d.withRegistry r) := by
  have hshorthands : d.registry.shorthands = d.shorthands := rfl
  rw [useTag_eq, shorthand, bind_run, get_run, Registry.use, hshorthands]
  cases hl : d.shorthands.lookup tag with
  | some source => simp only [hl]; rfl
  | none =>
    let source := d.registry.next role.isAdcTrace
    let known : Draft := { d with streams := d.streams + 1, shorthands := (tag, source) :: d.shorthands }
    have hsaves := addSaves_run (role.saves tag source) known
      (role.tags_saves tag source ▸ role.tags_nodup tag)
    have htaken : known.program.results.containsTag = d.registry.isTaken := rfl
    rw [role.tags_saves, htaken] at hsaves
    dsimp only [source, known] at hsaves
    simp only [hl, bind_run, declareStream_run, modify_run, hsaves]
    cases (role.tags tag).find? d.registry.isTaken with
    | some taken => rfl
    | none => rfl

theorem useTag_eq_ok (h : useTag role tag d = .ok (source, t)) :
    ∃ r, d.registry.use role tag = .ok (source, r) ∧ t = d.withRegistry r := by
  rw [useTag_run] at h
  obtain ⟨⟨_, r⟩, hu, he⟩ := except_map_eq_ok.mp h
  obtain ⟨rfl, rfl⟩ := Prod.mk.inj he
  exact ⟨r, hu, rfl⟩

/-- A tag stands for the stream of its first use. -/
theorem useTag_usesTags (role : TagRole) (tag : String) :
    Along (fun d t => d.registry.UsesTags t.registry) (useTag role tag) := by
  intro d source t h
  obtain ⟨r, hu, rfl⟩ := useTag_eq_ok h
  exact Registry.usesTags_of_use hu

/-- All that most calls do with streams and saves is that they use tags. -/
theorem usesTags : Course fun d t => d.registry.UsesTags t.registry where
  of_eq d t h := by
    rw [← t.registry_inventory, h]
    exact .refl _
  trans _ _ _ h h' := h.trans h'
  declares _ _ _ _ d _ t h := by
    obtain ⟨declaration, hadds⟩ := declareNamed_adds h
    exact hadds.registry ▸ .refl _

end Build

open Build

-- ---------------------------------------------------------------------------
-- Events
-- ---------------------------------------------------------------------------

/-- The stream that is answered. -/
def Outcome.stream? : Outcome → Option ResultSource
  | .stream source => some source
  | _ => none

/-- What a call that does not fail has done with streams and saves. -/
def Call.Records (r r' : Registry) : Call → Outcome → Prop
  | .request (.declareStream isAdcTrace), outcome =>
    outcome = .stream (r.next isAdcTrace) ∧ r' = r.declared
  | .request (.registerSave kind tag pipeline), outcome =>
    outcome.stream? = none ∧ r.IsFree tag ∧ r' = r.saved ⟨kind, tag, false, pipeline⟩
  | _, outcome => outcome.stream? = none ∧ r.UsesTags r'

def Event.Records (r r' : Registry) : Event → Outcome → Prop
  | .call made _, outcome => made.Records r r' outcome
  | _, outcome => outcome.stream? = none ∧ r.UsesTags r'

namespace Calls

theorem call_eq_ok {step : Build α} (h : call step ⟨d, none⟩ = (.ok a, s)) :
    ∃ t, step d = .ok (a, t) ∧ s = ⟨t, none⟩ := by
  simp only [call, Session.apply] at h
  cases hm : step d with
  | error e =>
    rw [hm] at h
    cases h
  | ok result =>
    rw [hm] at h
    obtain ⟨ha, rfl⟩ := Prod.mk.inj h
    obtain rfl := Except.ok.inj ha
    exact ⟨_, rfl, rfl⟩

theorem bind_eq_ok {m : Calls α} {f : α → Calls β} {s u : Session} (h : (m >>= f) s = (.ok b, u)) :
    ∃ a t, m s = (.ok a, t) ∧ f a t = (.ok b, u) := by
  simp only [bind, ExceptT.bind, ExceptT.mk, StateT.bind] at h
  rcases hm : m s with ⟨_ | a, t⟩
  · rw [hm] at h
    nomatch h
  · rw [hm] at h
    exact ⟨a, t, rfl, h⟩

end Calls

open Calls

/-- No call but the declaration of a stream answers one. -/
theorem Request.stream_none {asked : Request} (ha : asked.isRegistration = false)
    (h : asked.step d = .ok (outcome, t)) : outcome.stream? = none := by
  cases asked with
  | declare | declareInputStream | libraryCall | random | amp =>
    obtain ⟨value, rfl, -⟩ := map_eq_ok.mp h
    rfl
  | declareStream | registerSave => nomatch ha

theorem Request.step_records {asked : Request} (h : asked.step d = .ok (outcome, t)) :
    (Call.request asked).Records d.registry t.registry outcome := by
  cases asked with
  | declareStream isAdcTrace =>
    obtain ⟨source, rfl, hs⟩ := map_eq_ok.mp h
    obtain ⟨rfl, rfl⟩ := Prod.mk.inj (Except.ok.inj hs)
    refine ⟨congrArg Outcome.stream ?_, rfl⟩
    cases isAdcTrace <;> rfl
  | registerSave kind tag pipeline =>
    obtain ⟨_, s, hs, h⟩ := Qua.bind_eq_ok.mp h
    obtain ⟨rfl, rfl⟩ := pure_eq_ok.mp h
    obtain ⟨hf, rfl⟩ := addSave_eq_ok hs
    exact ⟨rfl, hf, rfl⟩
  | _ => exact ⟨Request.stream_none rfl h, Request.along usesTags rfl h⟩

theorem Call.perform_records {made : Call} (h : made.perform l ⟨d, none⟩ = (.ok outcome, s)) :
    made.Records d.registry s.draft.registry outcome := by
  cases made with
  | request asked =>
    obtain ⟨t, ht, rfl⟩ := call_eq_ok h
    exact Request.step_records (d := { d with location := l }) ht
  | leaf leaf =>
    have halong := (Call.leaf leaf).along usesTags useTag_usesTags (fun _ ha => nomatch ha) l ⟨d, none⟩
    rw [h] at halong
    obtain ⟨_, t, -, h⟩ := Calls.bind_eq_ok h
    obtain rfl := Except.ok.inj (Prod.mk.inj h).1
    exact ⟨rfl, halong⟩
  | loopCondition condition =>
    have halong := (Call.loopCondition condition).along usesTags useTag_usesTags (fun _ ha => nomatch ha) l
      ⟨d, none⟩
    rw [h] at halong
    obtain ⟨_, t, -, h⟩ := Calls.bind_eq_ok h
    obtain rfl := Except.ok.inj (Prod.mk.inj h).1
    exact ⟨rfl, halong⟩
  | enter entry =>
    have halong := (Call.enter entry).along usesTags useTag_usesTags (fun _ ha => nomatch ha) l ⟨d, none⟩
    rw [h] at halong
    rw [perform, map_eq_pure_bind] at h
    obtain ⟨number, t, -, h⟩ := Calls.bind_eq_ok h
    obtain rfl := Except.ok.inj (Prod.mk.inj h).1
    exact ⟨rfl, halong⟩

/-- What an event that does not fail has done with streams and saves. -/
theorem Event.perform_records {event : Event} (h : event.perform ⟨d, none⟩ = (.ok outcome, ⟨t, none⟩)) :
    event.Records d.registry t.registry outcome := by
  cases event with
  | call made l => exact made.perform_records h
  | close number =>
    have halong := (Event.close number).along usesTags useTag_usesTags (fun _ _ ha => nomatch ha) ⟨d, none⟩
    rw [h] at halong
    obtain ⟨_, s, -, h⟩ := Calls.bind_eq_ok h
    obtain rfl := Except.ok.inj (Prod.mk.inj h).1
    exact ⟨rfl, halong⟩
  | drop number =>
    have halong := (Event.drop number).along usesTags useTag_usesTags (fun _ _ ha => nomatch ha) ⟨d, none⟩
    rw [h] at halong
    obtain rfl := Except.ok.inj (Prod.mk.inj h).1
    exact ⟨rfl, halong⟩

end Qua
