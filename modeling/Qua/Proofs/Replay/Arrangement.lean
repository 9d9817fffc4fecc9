import Qua.Program.Listing
import Qua.Proofs.Build.Names
import Qua.Proofs.Build.Refinement
import Qua.Proofs.Replay.Actions

/-!
# Streams of a listing

The streams of a program get other names when its listing is replayed: those that are declared on a
line of their own are numbered there, those that a tag stands for where the tag is first used. Actions
are followed here one after the other, without the blocks they stand in. Main statement:
`Action.Arranges.renamed`, an action is made again with its streams renamed.
-/

namespace Qua

open Build (Local act playAction measureAction triggerAction assignAction saveAction saveStream
  taggedStream taggedTrace timestampStream measureStream)

-- ---------------------------------------------------------------------------
-- Making an action again
-- ---------------------------------------------------------------------------

/-- The step that makes an action again, with the streams and flags it needs. -/
def Action.remade (target : String → StreamTarget) : Action → Build Action
  | .play p => playAction p.pulse p.element (p.options (p.timestampStream.map target))
  | .measure m =>
    measureAction m.pulse m.element (m.options (m.stream.map target) (m.timestampStream.map target))
  | .assign place value => assignAction place value
  | .save source stream => saveAction source (target stream)
  | .fastFrameRotation cosine sine element => do
    Build.markFastFrameRotation
    return .fastFrameRotation cosine sine element
  | .waitForTrigger w => triggerAction w.elements w.pulse w.trigger (w.timeTagTarget.map .named)
  | action => return action

theorem Action.rebuild_eq (target : String → StreamTarget) (a : Action) :
    a.rebuild target = a.remade target >>= act := by
  cases a with
  | play p => exact Build.play_eq _ _ _
  | measure m => exact Build.measure_eq _ _ _
  | assign place value => exact Build.assign_eq place value
  | save source stream => exact Build.save_eq source _
  | waitForTrigger w => exact Build.waitForTrigger_eq _ _ _ _
  | _ => rfl

theorem Action.local_remade (target : String → StreamTarget) (a : Action) : Local (a.remade target) := by
  cases a with
  | play p => exact Build.local_playAction _ _ _
  | measure m => exact Build.local_measureAction _ _ _
  | assign place value => exact Build.local_assignAction place value
  | save source stream => exact Build.local_saveAction source _
  | waitForTrigger w => exact Build.local_triggerAction _ _ _ _
  | fastFrameRotation cosine sine element => exact .bind (Build.local_modifyMetadata _) fun _ => .pure _
  | _ => exact .pure _

-- ---------------------------------------------------------------------------
-- Tags keep their streams
-- ---------------------------------------------------------------------------

/-- Tags that stand for a stream go on to stand for it. -/
def Draft.KeepsTags (d d' : Draft) : Prop :=
  ∀ tag source, d.shorthands.lookup tag = some source → d'.shorthands.lookup tag = some source

/-- The stream that a target stands for, once its tag has been used. -/
def Draft.source? (d : Draft) : StreamTarget → Option ResultSource
  | .tag tag => d.shorthands.lookup tag
  | .source source => some source

namespace Draft

variable {d d' d'' : Draft}

theorem KeepsTags.refl (d : Draft) : d.KeepsTags d := fun _ _ h => h

theorem KeepsTags.trans (h : d.KeepsTags d') (h' : d'.KeepsTags d'') : d.KeepsTags d'' :=
  fun tag source ht => h' tag source (h tag source ht)

theorem KeepsTags.source? (h : d.KeepsTags d') (hs : d.source? target = some source) :
    d'.source? target = some source := by
  cases target with
  | tag tag => exact h tag source hs
  | source given => exact hs

end Draft

namespace Build

variable {d d' : Draft}

theorem addSave_keepsTags (h : addSave entry d = .ok (u, d')) : d'.shorthands = d.shorthands := by
  simp only [addSave, bind_run, get_run] at h
  cases hr : d.program.results.add? entry with
  | none => simp [hr] at h
  | some results =>
    rw [hr] at h
    obtain ⟨-, rfl⟩ := Prod.mk.inj (Except.ok.inj h)
    rfl

theorem addSaves_keepsTags {entries : List SaveEntry} (h : entries.forM addSave d = .ok (u, d')) :
    d'.shorthands = d.shorthands := by
  induction entries generalizing d with
  | nil =>
    obtain ⟨-, rfl⟩ := pure_eq_ok.mp h
    rfl
  | cons entry entries ih =>
    obtain ⟨_, between, hb, h⟩ := bind_eq_ok.mp h
    exact (ih h).trans (addSave_keepsTags hb)

/-- After its use, a tag stands for the stream that it gave. -/
theorem shorthand_resolves {saves : ResultSource → List SaveEntry}
    (h : shorthand tag isAdcTrace (fun source => (saves source).forM addSave) d = .ok (source, d')) :
    d'.shorthands.lookup tag = some source ∧ d.KeepsTags d' := by
  simp only [shorthand, bind_run (get : Build Draft), get_run] at h
  cases hl : d.shorthands.lookup tag with
  | some given =>
    rw [hl] at h
    obtain ⟨rfl, rfl⟩ := pure_eq_ok.mp h
    exact ⟨hl, .refl _⟩
  | none =>
    rw [hl] at h
    obtain ⟨made, declared, hd, h⟩ := bind_eq_ok.mp h
    obtain ⟨_, noted, hn, h⟩ := bind_eq_ok.mp h
    obtain ⟨_, saved, hs, h⟩ := bind_eq_ok.mp h
    obtain ⟨rfl, rfl⟩ := pure_eq_ok.mp h
    obtain ⟨-, rfl⟩ := Prod.mk.inj (Except.ok.inj hn)
    obtain ⟨-, rfl⟩ := Prod.mk.inj (Except.ok.inj hd)
    have hsame : d'.shorthands = (tag, source) :: d.shorthands := addSaves_keepsTags hs
    refine ⟨by simp [hsame], fun other given hg => ?_⟩
    have hne : other ≠ tag := by
      rintro rfl
      rw [hl] at hg
      cases hg
    rw [hsame, List.lookup_cons, beq_false_of_ne hne]
    exact hg

theorem taggedStream_resolves (h : taggedStream tag addTimestamps d = .ok (source, d')) :
    d'.shorthands.lookup tag = some source ∧ d.KeepsTags d' := by
  rw [taggedStream_eq] at h
  exact shorthand_resolves h

theorem taggedTrace_resolves (h : taggedTrace tag d = .ok (source, d')) :
    d'.shorthands.lookup tag = some source ∧ d.KeepsTags d' := by
  rw [taggedTrace_eq] at h
  exact shorthand_resolves h

/-- The stream of a target that may be missing. -/
def Resolved (d : Draft) (target : Option StreamTarget) (stream : Option ResultSource) : Prop :=
  ∀ x ∈ target, ∃ source, d.source? x = some source ∧ stream = some source

theorem timestampStream_resolves {target : Option StreamTarget}
    (h : timestampStream target d = .ok (stream, d')) :
    Resolved d' target stream ∧ (target = none → stream = none) ∧ d.KeepsTags d' := by
  cases target with
  | none =>
    obtain ⟨rfl, rfl⟩ := pure_eq_ok.mp h
    exact ⟨fun x hx => (nomatch hx), fun _ => rfl, .refl _⟩
  | some target =>
    obtain ⟨_, flagged, hf, h⟩ := bind_eq_ok.mp h
    have hflags : flagged.shorthands = d.shorthands := by
      obtain ⟨-, rfl⟩ := Prod.mk.inj (Except.ok.inj hf)
      rfl
    have hkeeps : d.KeepsTags flagged := fun tag source ht => hflags ▸ ht
    cases target with
    | tag tag =>
      obtain ⟨source, rfl, hs⟩ : ∃ source, some source = stream ∧
          taggedStream tag false flagged = .ok (source, d') := map_eq_ok.mp h
      obtain ⟨hl, hk⟩ := taggedStream_resolves hs
      refine ⟨fun x hx => ?_, fun ht => (nomatch ht), hkeeps.trans hk⟩
      obtain rfl := Option.some.inj hx
      exact ⟨source, hl, rfl⟩
    | source given =>
      obtain ⟨rfl, rfl⟩ := pure_eq_ok.mp h
      refine ⟨fun x hx => ?_, fun ht => (nomatch ht), hkeeps⟩
      obtain rfl := Option.some.inj hx
      exact ⟨given, rfl, rfl⟩

theorem measureStream_resolves {target : Option StreamTarget}
    (h : measureStream target d = .ok (stream, d')) :
    Resolved d' target stream ∧ (target = none → stream = none) ∧ d.KeepsTags d' := by
  cases target with
  | none =>
    obtain ⟨rfl, rfl⟩ := pure_eq_ok.mp h
    exact ⟨fun x hx => (nomatch hx), fun _ => rfl, .refl _⟩
  | some target =>
    cases target with
    | tag tag =>
      obtain ⟨source, rfl, hs⟩ : ∃ source, some source = stream ∧
          taggedTrace tag d = .ok (source, d') := map_eq_ok.mp h
      obtain ⟨hl, hk⟩ := taggedTrace_resolves hs
      refine ⟨fun x hx => ?_, fun ht => (nomatch ht), hk⟩
      obtain rfl := Option.some.inj hx
      exact ⟨source, hl, rfl⟩
    | source given =>
      obtain ⟨rfl, rfl⟩ := pure_eq_ok.mp h
      refine ⟨fun x hx => ?_, fun ht => (nomatch ht), .refl _⟩
      obtain rfl := Option.some.inj hx
      exact ⟨given, rfl, rfl⟩

theorem saveStream_resolves (h : saveStream target d = .ok (source, d')) :
    d'.source? target = some source ∧ d.KeepsTags d' := by
  cases target with
  | tag tag => exact taggedStream_resolves h
  | source given =>
    obtain ⟨rfl, rfl⟩ := pure_eq_ok.mp h
    exact ⟨rfl, .refl _⟩

/-- The names of the streams of an action, once its streams are known. -/
theorem Resolved.map {target : String → StreamTarget} {stream : Option String}
    {made : Option ResultSource} {σ : String → String} (h : Resolved d (stream.map target) made)
    (hn : stream.map target = none → made = none)
    (hσ : ∀ name ∈ stream, ∀ source, d.source? (target name) = some source → σ name = source.name) :
    made.map ResultSource.name = stream.map σ := by
  cases stream with
  | none => rw [hn rfl]; rfl
  | some name =>
    obtain ⟨source, hs, rfl⟩ := h (target name) rfl
    rw [Option.map_some, Option.map_some, hσ name rfl source hs]

theorem Resolved.keeps (h : Resolved d target stream) (hk : d.KeepsTags d') :
    Resolved d' target stream := by
  intro x hx
  obtain ⟨source, hs, rfl⟩ := h x hx
  exact ⟨source, hk.source? hs, rfl⟩

theorem chirp_options (c : Chirp) (d : Draft) : chirp c.options c.continues d = .ok (c, d) := by
  have hunits : ChirpUnits.ofName? c.units.name = some c.units := by cases c.units <;> rfl
  have htimes : (if c.times.isEmpty then none else some c.times).getD [] = c.times := by
    cases ht : c.times with
    | nil => rfl
    | cons time times => rfl
  simp only [chirp, Chirp.options, hunits, htimes]
  rfl

theorem chirps_options (c : Option Chirp) (d : Draft) :
    (c.map Chirp.options).mapM (fun options => chirp options (c.any Chirp.continues)) d = .ok (c, d) := by
  cases c with
  | none => rfl
  | some c =>
    have h : chirp c.options c.continues d = .ok (c, d) := chirp_options c d
    simp [map_run, h]

end Build

open Build in
/-- Making an action again gives the action with its streams renamed. -/
theorem Action.remade_renamed {a made : Action} {target : String → StreamTarget} (hf : a.Formed)
    (h : a.remade target d = .ok (made, d')) :
    d.KeepsTags d' ∧ ((∀ name ∈ a.streamNames, ∀ source, d'.source? (target name) = some source →
      σ name = source.name) → made = a.mapStreams σ) := by
  cases a with
  | play p =>
    obtain ⟨chirp, d₁, hc, h⟩ := bind_eq_ok.mp h
    obtain ⟨stream, d₂, hs, h⟩ := bind_eq_ok.mp h
    obtain ⟨rfl, rfl⟩ := pure_eq_ok.mp h
    obtain ⟨rfl, rfl⟩ : chirp = p.chirp ∧ d₁ = d := by
      have hrun := chirps_options p.chirp d
      have := hc.symm.trans hrun
      exact Prod.mk.inj (Except.ok.inj this)
    obtain ⟨hr, hn, hk⟩ := timestampStream_resolves hs
    refine ⟨hk, fun hσ => ?_⟩
    have hname : stream.map ResultSource.name = p.timestampStream.map σ :=
      hr.map hn fun name hn => hσ name (by simpa [streamNames] using hn)
    have htarget : p.target.filter (fun target => target != "") = p.target := by
      have hf : p.target ≠ some "" := hf
      cases ht : p.target with
      | none => rfl
      | some target =>
        have hne : target ≠ "" := fun he => hf (by rw [ht, he])
        simp [hne]
    simp only [mapStreams, Play.options, hname, htarget]
  | measure m =>
    obtain ⟨stream, d₁, hs, h⟩ := bind_eq_ok.mp h
    obtain ⟨timestamps, d₂, ht, h⟩ := bind_eq_ok.mp h
    obtain ⟨rfl, rfl⟩ := pure_eq_ok.mp h
    obtain ⟨hr, hn, hk⟩ := measureStream_resolves hs
    obtain ⟨hr', hn', hk'⟩ := timestampStream_resolves ht
    refine ⟨hk.trans hk', fun hσ => ?_⟩
    simp only [streamNames, List.mem_append, Option.mem_toList] at hσ
    have hname : stream.map ResultSource.name = m.stream.map σ :=
      (hr.keeps hk').map hn fun name hn => hσ name (.inl hn)
    have hname' : timestamps.map ResultSource.name = m.timestampStream.map σ :=
      hr'.map hn' fun name hn => hσ name (.inr hn)
    simp only [mapStreams, Measure.options, hname, hname']
  | assign place value =>
    obtain ⟨place', d₁, hp, h⟩ := bind_eq_ok.mp h
    obtain ⟨rfl, rfl⟩ := pure_eq_ok.mp h
    have hplace : place' = place ∧ d' = d := by
      cases place <;> first | exact pure_eq_ok.mp hp | cases hp
    obtain ⟨rfl, rfl⟩ := hplace
    exact ⟨.refl _, fun _ => rfl⟩
  | save source stream =>
    obtain ⟨found, d₁, hs, h⟩ := bind_eq_ok.mp h
    cases ht : found.isAdcTrace with
    | true => simp [ht, bind_run] at h
    | false =>
      simp only [ht, Bool.false_eq_true, if_false] at h
      obtain ⟨source', d₂, hp, h⟩ := bind_eq_ok.mp h
      obtain ⟨rfl, rfl⟩ := pure_eq_ok.mp h
      have hplace : source' = source ∧ d' = d₁ := by
        cases source <;> first | exact pure_eq_ok.mp hp | cases hp
      obtain ⟨rfl, rfl⟩ := hplace
      obtain ⟨hl, hk⟩ := saveStream_resolves hs
      refine ⟨hk, fun hσ => ?_⟩
      rw [mapStreams, hσ stream List.mem_cons_self found hl]
  | fastFrameRotation cosine sine element =>
    obtain ⟨_, d₁, hm, h⟩ := bind_eq_ok.mp h
    obtain ⟨rfl, rfl⟩ := pure_eq_ok.mp h
    obtain ⟨-, rfl⟩ := Prod.mk.inj (Except.ok.inj hm)
    exact ⟨.refl _, fun _ => rfl⟩
  | waitForTrigger w =>
    obtain ⟨found, d₁, ht, h⟩ := bind_eq_ok.mp h
    obtain ⟨rfl, rfl⟩ := pure_eq_ok.mp h
    have hfound : found = w.timeTagTarget ∧ d' = d := by
      cases hw : w.timeTagTarget with
      | none =>
        rw [hw] at ht
        exact pure_eq_ok.mp ht
      | some name =>
        rw [hw] at ht
        exact pure_eq_ok.mp ht
    obtain ⟨rfl, rfl⟩ := hfound
    exact ⟨.refl _, fun _ => rfl⟩
  | _ =>
    obtain ⟨rfl, rfl⟩ := pure_eq_ok.mp h
    exact ⟨.refl _, fun _ => rfl⟩

-- ---------------------------------------------------------------------------
-- Streams with a line of their own
-- ---------------------------------------------------------------------------

/-- Those of the streams that are declared before their use, when the names `declared` have been. -/
def undeclared (shorthand? : String → Option String) (declared : List String) :
    List String → List String
  | [] => []
  | name :: rest =>
    if (shorthand? name).isSome || declared.contains name then undeclared shorthand? declared rest
    else name :: undeclared shorthand? (name :: declared) rest

section

variable {shorthand? : String → Option String}

theorem Listing.declareStreams_run (depth : Nat) (names declared : List String) :
    Listing.declareStreams shorthand? depth names declared =
      .ok ((undeclared shorthand? declared names).map fun name => ⟨depth, streamDeclaration name⟩,
        (undeclared shorthand? declared names).reverse ++ declared) := by
  induction names generalizing declared with
  | nil => rfl
  | cons name rest ih =>
    rw [Listing.declareStreams, undeclared]
    cases hs : (shorthand? name).isSome with
    | true =>
      simp only [if_true, Bool.true_or, bind_run, pure_run, ih]
      rfl
    | false =>
      by_cases hc : declared.contains name = true
      · simp only [Bool.false_eq_true, if_false, Bool.false_or, hc, if_true, bind_run,
          Listing.declareStream, get_run, pure_run, ih]
        rfl
      · simp only [Bool.false_eq_true, if_false, Bool.false_or, hc, bind_run,
          Listing.declareStream, get_run, modify_run, pure_run, ih]
        simp

theorem mem_undeclared {declared names : List String} :
    name ∈ undeclared shorthand? declared names ↔
      name ∈ names ∧ shorthand? name = none ∧ name ∉ declared := by
  induction names generalizing declared with
  | nil => simp [undeclared]
  | cons first rest ih =>
    rw [undeclared]
    split
    next h =>
      rw [ih, List.mem_cons]
      rw [Bool.or_eq_true, List.contains_iff_mem, Option.isSome_iff_ne_none] at h
      constructor
      · exact fun ⟨hr, hn, hd⟩ => ⟨.inr hr, hn, hd⟩
      · rintro ⟨rfl | hr, hn, hd⟩
        · exact absurd h (by simp [hn, hd])
        · exact ⟨hr, hn, hd⟩
    next h =>
      rw [List.mem_cons, ih, List.mem_cons, List.mem_cons]
      rw [Bool.or_eq_true, List.contains_iff_mem, Option.isSome_iff_ne_none, not_or, not_not] at h
      constructor
      · rintro (rfl | ⟨hr, hn, hd⟩)
        · exact ⟨.inl rfl, h⟩
        · exact ⟨.inr hr, hn, fun hm => hd (.inr hm)⟩
      · rintro ⟨rfl | hr, hn, hd⟩
        · exact .inl rfl
        · by_cases he : name = first
          · exact .inl he
          · exact .inr ⟨hr, hn, fun hm => hm.elim he hd⟩

theorem nodup_undeclared (declared names : List String) :
    (undeclared shorthand? declared names).Nodup := by
  induction names generalizing declared with
  | nil => exact List.nodup_nil
  | cons first rest ih =>
    rw [undeclared]
    split
    · exact ih declared
    · refine List.nodup_cons.mpr ⟨fun h => ?_, ih _⟩
      exact (mem_undeclared.mp h).2.2 List.mem_cons_self

end

/-- How far a listing has been replayed: the streams that have had a line of their own, and the draft. -/
structure Stage where
  streams : List (String × ResultSource)
  draft : Draft

namespace Stage

def names (x : Stage) : List String := x.streams.map Prod.fst

/-- After the line that declares a stream. -/
def declare (x : Stage) (name : String) : Stage :=
  let isAdcTrace := ResultSource.isTraceName name
  let source : ResultSource := ⟨streamName isAdcTrace (x.draft.streams + 1), isAdcTrace, .values, none, false⟩
  ⟨(name, source) :: x.streams, { x.draft with streams := x.draft.streams + 1 }⟩

def declareAll (x : Stage) (names : List String) : Stage := names.foldl declare x

/-- What is written for a stream, and what that stands for. -/
def target (shorthand? : String → Option String) (x : Stage) (name : String) : StreamTarget :=
  match shorthand? name with
  | some tag => .tag tag
  | none => .source ((x.streams.lookup name).getD ⟨name, false, .values, none, false⟩)

/-- Streams that have a new name go on to have it. -/
structure Extends (x y : Stage) : Prop where
  streams : ∀ name source, x.streams.lookup name = some source → y.streams.lookup name = some source
  tags : x.draft.KeepsTags y.draft

/-- The renaming gives the streams the names that they have got so far. -/
structure Names (shorthand? : String → Option String) (σ : String → String) (x : Stage) : Prop where
  declared : ∀ name source, shorthand? name = none → x.streams.lookup name = some source →
    σ name = source.name
  tagged : ∀ name tag source, shorthand? name = some tag → x.draft.shorthands.lookup tag = some source →
    σ name = source.name

theorem Extends.refl (x : Stage) : x.Extends x := ⟨fun _ _ h => h, .refl _⟩

theorem Extends.trans {x y z : Stage} (h : x.Extends y) (h' : y.Extends z) : x.Extends z :=
  ⟨fun name source hs => h'.streams name source (h.streams name source hs), h.tags.trans h'.tags⟩

theorem Names.before {x y : Stage} (h : Names shorthand? σ y) (he : x.Extends y) :
    Names shorthand? σ x :=
  ⟨fun name source hn hs => h.declared name source hn (he.streams name source hs),
    fun name tag source hn hs => h.tagged name tag source hn (he.tags tag source hs)⟩

theorem declareStream_run (x : Stage) (name : String) :
    Build.declareStream (ResultSource.isTraceName name) x.draft =
      .ok (⟨streamName (ResultSource.isTraceName name) (x.draft.streams + 1),
        ResultSource.isTraceName name, .values, none, false⟩, (x.declare name).draft) := by
  have hname : ∀ (isAdcTrace : Bool) (n : Nat),
      (if isAdcTrace then ResultSource.tracePrefix ++ ("r" ++ toString n) else "r" ++ toString n) =
        streamName isAdcTrace n := by
    intro isAdcTrace n
    cases isAdcTrace
    · rfl
    · simp [streamName, String.append_assoc]
  rw [← hname]
  rfl

theorem names_declareAll (x : Stage) (names : List String) :
    (x.declareAll names).names = names.reverse ++ x.names := by
  induction names generalizing x with
  | nil => rfl
  | cons name names ih =>
    rw [declareAll, List.foldl_cons]
    refine (ih (x.declare name)).trans ?_
    simp [Stage.names, declare]

theorem mem_names_iff {x : Stage} : name ∈ x.names ↔ ∃ source, x.streams.lookup name = some source := by
  rw [← Option.isSome_iff_exists, List.lookup_isSome_iff, names, List.mem_map]
  constructor
  · rintro ⟨p, hp, rfl⟩
    exact ⟨p, hp, beq_self_eq_true _⟩
  · rintro ⟨p, hp, h⟩
    exact ⟨p, hp, (eq_of_beq h).symm⟩

theorem extends_declareAll (x : Stage) {names : List String} (hn : names.Nodup)
    (hd : ∀ name ∈ names, name ∉ x.names) : x.Extends (x.declareAll names) := by
  induction names generalizing x with
  | nil => exact .refl x
  | cons name names ih =>
    obtain ⟨hnew, hn⟩ := List.nodup_cons.mp hn
    have hfirst : x.Extends (x.declare name) := by
      refine ⟨fun other source hs => ?_, fun _ _ h => h⟩
      have hne : other ≠ name := by
        rintro rfl
        exact hd other List.mem_cons_self (mem_names_iff.mpr ⟨source, hs⟩)
      rw [declare, List.lookup_cons, beq_false_of_ne hne]
      exact hs
    refine hfirst.trans (ih (x.declare name) hn fun other ho hm => ?_)
    obtain rfl | hm := List.mem_cons.mp hm
    · exact hnew ho
    · exact hd other (List.mem_cons_of_mem _ ho) hm

end Stage

-- ---------------------------------------------------------------------------
-- Actions one after the other
-- ---------------------------------------------------------------------------

/-- The stage in which the line of an action is replayed. -/
def Action.declared (shorthand? : String → Option String) (a : Action) (x : Stage) : Stage :=
  x.declareAll (undeclared shorthand? x.names a.streamNames)

/-- An action is made again: the streams it needs are declared before its line. -/
structure Action.Arranges (shorthand? : String → Option String) (a : Action) (x : Stage)
    (made : Action) (y : Stage) : Prop where
  streams : y.streams = (a.declared shorthand? x).streams
  run : a.remade ((a.declared shorthand? x).target shorthand?) (a.declared shorthand? x).draft =
    .ok (made, y.draft)

/-- Actions are made again one after the other. -/
inductive ArrangesAll (shorthand? : String → Option String) : List Action → Stage → Stage → Prop
  | nil (x : Stage) : ArrangesAll shorthand? [] x x
  | cons (h : a.Arranges shorthand? x made y) (hs : ArrangesAll shorthand? as y z) :
    ArrangesAll shorthand? (a :: as) x z

section

variable {shorthand? : String → Option String} {x y z : Stage}

theorem Action.extends_declared (a : Action) (x : Stage) : x.Extends (a.declared shorthand? x) :=
  x.extends_declareAll (nodup_undeclared _ _) fun _ h => (mem_undeclared.mp h).2.2

/-- The streams of an action without a tag have been declared before its line. -/
theorem Action.mem_declared {a : Action} (hn : name ∈ a.streamNames) (hs : shorthand? name = none) :
    name ∈ (a.declared shorthand? x).names := by
  rw [declared, Stage.names_declareAll, List.mem_append, List.mem_reverse, mem_undeclared]
  by_cases h : name ∈ x.names
  · exact .inr h
  · exact .inl ⟨hn, hs, h⟩

theorem Action.Arranges.extends {a : Action} (h : a.Arranges shorthand? x made y) (hf : a.Formed) :
    x.Extends y := by
  have hd := @extends_declared shorthand? a x
  have hk := (Action.remade_renamed (σ := id) hf h.run).1
  exact ⟨fun name source hs => h.streams ▸ hd.streams name source hs, hd.tags.trans hk⟩

/-- An action is made again with its streams renamed. -/
theorem Action.Arranges.renamed {a : Action} (h : a.Arranges shorthand? x made y) (hf : a.Formed)
    (hσ : Stage.Names shorthand? σ y) : made = a.mapStreams σ := by
  refine (Action.remade_renamed hf h.run).2 fun name hn source hs => ?_
  cases ht : shorthand? name with
  | some tag =>
    rw [Stage.target, ht] at hs
    exact hσ.tagged name tag source ht hs
  | none =>
    obtain ⟨found, hl⟩ := Stage.mem_names_iff.mp (Action.mem_declared (x := x) hn ht)
    rw [Stage.target, ht, hl] at hs
    obtain rfl := Option.some.inj hs
    exact hσ.declared name found ht (h.streams ▸ hl)

theorem ArrangesAll.extends {as : List Action} (h : ArrangesAll shorthand? as x y)
    (hf : ∀ a ∈ as, a.Formed) : x.Extends y := by
  induction h with
  | nil x => exact .refl x
  | cons h _ ih =>
    exact (h.extends (hf _ List.mem_cons_self)).trans (ih fun a ha => hf a (List.mem_cons_of_mem _ ha))

theorem arrangesAll_append {as as' : List Action} :
    ArrangesAll shorthand? (as ++ as') x z ↔
      ∃ y, ArrangesAll shorthand? as x y ∧ ArrangesAll shorthand? as' y z := by
  constructor
  · intro h
    induction as generalizing x with
    | nil => exact ⟨x, .nil x, h⟩
    | cons a as ih =>
      cases h with
      | cons h hs =>
        obtain ⟨y, hy, hz⟩ := ih hs
        exact ⟨y, .cons h hy, hz⟩
  · rintro ⟨y, h, h'⟩
    induction h with
    | nil x => exact h'
    | cons h _ ih => exact .cons h (ih h')

end

end Qua
