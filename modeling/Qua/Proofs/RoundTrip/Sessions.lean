import Qua.Proofs.RoundTrip.Orderly
import Qua.Proofs.RoundTrip.Rebuilt

/-!
# Sessions and their listings

The program of a session whose calls are made of what the session has answered before can be built from its
listing, if it has one, and what is built settles after that one step. Where tags are shared between roles, it
has the same saves if the listing leaves the first uses of tags in their roles. Main statements:
`Session.text_verifies`, `Session.text_settles` and `Session.text_keepsSaves`.
-/

namespace Qua

open Draft (Widens)
open Statement (walkBlock)

section

variable {role : String → TagRole} {permitted : Set (TagRole × String)} {own : List String} {given : List Outcome}
  {d last : Draft}

-- ---------------------------------------------------------------------------
-- Runs
-- ---------------------------------------------------------------------------

namespace Session

/-- A session without failures leaves a draft in order, with the streams that it has answered. -/
theorem run_orderly {events : List Event} (hm : ComposedOf given (events.zip (run events ⟨d, none⟩).1))
    (hs : d.site.Scoped) (hd : d.Orderly own)
    (hg : ∀ source, .stream source ∈ given → source.name ∈ own)
    (h : (run events ⟨d, none⟩).2 = ⟨last, none⟩) :
    ∃ own', own ⊆ own' ∧ last.Orderly own' ∧
      ∀ source, .ok (.stream source) ∈ (run events ⟨d, none⟩).1 → source.name ∈ own' := by
  induction events generalizing d own given with
  | nil =>
    obtain rfl := congrArg Session.draft h
    exact ⟨own, List.Subset.refl _, hd, fun _ hn => absurd hn List.not_mem_nil⟩
  | cons event events ih =>
    rw [run_cons] at h hm ⊢
    obtain ⟨outcome, t, hrun, hmoves⟩ | ⟨answer, d', e, hrun, -⟩ := event.perform_cases hs
    · rw [hrun] at h hm ⊢
      rw [List.zip_cons_cons] at hm
      obtain _ | ⟨hevent, hrest⟩ := hm
      obtain ⟨own', hsub, hlast, hanswers⟩ := ih hrest (hmoves.scoped hs) (hd.perform hevent hg hrun)
        (fun source hmem => by
          obtain rfl | hmem := List.mem_cons.mp hmem
          · exact List.mem_cons_self
          · exact List.mem_append_right _ (hg source hmem)) h
      refine ⟨own', fun name hn => hsub (List.mem_append_right _ hn), hlast, fun source hmem => ?_⟩
      obtain hmem | hmem := List.mem_cons.mp hmem
      · obtain rfl := Except.ok.inj hmem
        exact hsub List.mem_cons_self
      · exact hanswers source hmem
    · rw [hrun, run_poisoned] at h
      cases h

/-- A session without failures only adds what is grounded in the draft that it leaves. -/
theorem run_grounding (hl : last.Identified) {events : List Event}
    (hm : ComposedOf given (events.zip (run events ⟨d, none⟩).1))
    (hu : ∀ event ∈ events, ∀ use ∈ event.uses, use ∈ permitted) (hs : d.site.Scoped)
    (hd : d.Meets (last.grounding permitted own)) (hg : Grounds last.handles own given)
    (ho : ∀ source, .ok (.stream source) ∈ (run events ⟨d, none⟩).1 → source.name ∈ own)
    (h : (run events ⟨d, none⟩).2 = ⟨last, none⟩) : last.Meets (last.grounding permitted own) := by
  induction events generalizing d given with
  | nil =>
    obtain rfl := congrArg Session.draft h
    exact hd
  | cons event events ih =>
    have hwidens := run_widens events (event.perform ⟨d, none⟩).2
    rw [run_cons] at h hm ho
    rw [h] at hwidens
    obtain ⟨outcome, t, hrun, hmoves⟩ | ⟨answer, d', e, hrun, -⟩ := event.perform_cases hs
    · rw [hrun] at h hm ho hwidens
      rw [List.zip_cons_cons] at hm
      obtain _ | ⟨hevent, hrest⟩ := hm
      obtain ⟨hfirst, hu⟩ := List.forall_mem_cons.mp hu
      refine ih hrest hu (hmoves.scoped hs) (Event.upholds hl hevent hfirst hg hrun hwidens hd)
        (Event.grounds hl hevent hg hrun hwidens ?_) (fun source hmem => ho source (List.mem_cons_of_mem _ hmem)) h
      rintro source rfl
      exact ho source List.mem_cons_self
    · rw [hrun, run_poisoned] at h
      cases h

end Session

-- ---------------------------------------------------------------------------
-- Finished programs
-- ---------------------------------------------------------------------------

namespace Draft

/-- The statements of a draft that is grounded in itself are over its variables and arrays. -/
theorem Meets.heads (h : d.Meets (d.grounding permitted own)) : ∀ s ∈ walkBlock d.program.body, s.Over d.handles := by
  intro s hs
  have hhead := Statement.headMeets_walkBlock d.program.body h.body s hs
  cases s with
  | action a l => exact hhead.1
  | conditional condition isUnsafe body elifs otherwise l => exact hhead
  | loop init condition update body l => exact hhead
  | forEach iterators body l => exact hhead ""
  | strictTiming body l => trivial

theorem Meets.provides (h : d.Meets (d.grounding permitted own)) :
    ∀ a ∈ d.actions, ∀ use ∈ a.streamUses, d.Provides permitted own use := by
  intro a ha
  obtain ⟨l, hs⟩ := mem_actions.mp ha
  exact (Statement.headMeets_walkBlock d.program.body h.body _ hs).2

/-- The tags of the body are used as is permitted. -/
theorem Meets.tagUses (h : d.Meets (d.grounding permitted own)) (hs : d.registry.Sound own) :
    ∀ use ∈ d.program.tagUses, use ∈ permitted := by
  rintro ⟨used, tag⟩ hu
  obtain ⟨a, ha, hu⟩ := List.mem_flatMap.mp hu
  obtain ⟨name, hn, ht⟩ := Action.mem_taggedUses.mp hu
  have hp := h.provides a ha _ hn
  cases hp with
  | own hm =>
    rw [hs.shorthand_own hm] at ht
    cases ht
  | tagged hm hp =>
    rw [hs.shorthand_tagged hm] at ht
    exact Option.some.inj ht ▸ hp

/-- The saves that have a text are over the streams of the script. -/
theorem Meets.manual (h : d.Meets (d.grounding permitted own)) {text : String} (ht : d.program.text = .ok text) :
    ∀ entry ∈ d.program.results.manual, entry.Over own := by
  obtain ⟨declared, body, names, results, names', -, -, hr, -⟩ := Program.text_eq_ok ht
  obtain ⟨hnil, -⟩ | ⟨texts, hrender, -⟩ := Listing.results_eq_ok hr
  · rw [hnil]
    exact List.forall_mem_nil _
  · intro entry he
    obtain ⟨hmem, hauto⟩ := List.mem_filter.mp he
    obtain ⟨line, hline⟩ := except_mapM_ok hrender entry he
    obtain ⟨pipeline, hp, -⟩ := except_bind_eq_ok.mp hline
    exact h.saves entry hmem (by simpa using hauto) pipeline hp

theorem Orderly.regular (h : d.Orderly own) (hm : d.Meets (d.grounding permitted own)) (hr : d.registry.Made role)
    (hu : ∀ tag used, firstRole? d.program.tagUses tag = some used → used = role tag)
    (hp : ∀ x ∈ d.program.declarations, x.Proper) {text : String} (ht : d.program.text = .ok text) :
    d.Regular role own where
  numbered := h.named.numbered
  declared x hx := by
    obtain ⟨declared, body, names, results, names', hd, -⟩ := Program.text_eq_ok ht
    obtain ⟨line, hline⟩ := except_mapM_ok hd x hx
    exact ⟨⟨Declaration.identifier_of_proper h.named.numbered hx (hp x hx), Declaration.finite_of_render hline⟩,
      Declaration.shaped_of_proper (h.made x hx) (hp x hx)⟩
  statements := hm.heads
  provided a ha use hu := (hm.provides a ha use hu).mono (Set.subset_univ _)
  heeded := hu
  written tag source hs := by
    obtain ⟨a, ha, hn⟩ := List.any_eq_true.mp (h.written tag source hs)
    exact ⟨a, ha, by simpa using hn⟩
  manual := hm.manual ht
  sound := h.sound
  names := h.names
  made := hr
  distinct := h.distinct

end Draft

end

namespace Session

-- ---------------------------------------------------------------------------
-- A session with streams and tags
-- ---------------------------------------------------------------------------

/-- Events that are made of what has been given already are so whatever is answered to them. -/
theorem madeOf_of_forall {role : String → TagRole} {given : List Outcome} {events : List Event}
    {answers : List Answer} (h : ∀ event ∈ events, ∀ more, event.MadeOf role (more ++ given)) :
    MadeOf role given (events.zip answers) := by
  induction events generalizing given answers with
  | nil => exact .nil
  | cons event events ih =>
    obtain ⟨hevent, hevents⟩ := List.forall_mem_cons.mp h
    cases answers with
    | nil => exact .nil
    | cons answer answers =>
      refine .cons (hevent []) (ih fun event he more => ?_)
      rw [← List.append_assoc]
      exact hevents event he _

/-- The answer to an event is given to those after it. -/
theorem madeOf_run {role : String → TagRole} {given : List Outcome} {event : Event} {events : List Event}
    {s : Session} (he : event.MadeOf role given) (ha : (event.perform s).1 = .ok outcome)
    (h : MadeOf role (outcome :: given) (events.zip (run events (event.perform s).2).1)) :
    MadeOf role given ((event :: events).zip (run (event :: events) s).1) := by
  rw [run_cons, List.zip_cons_cons, ha]
  exact .cons he h

/-- Declares a variable and a stream. -/
def declaring : List Event :=
  [.call (.request (.declare .int none none)) "1", .call (.request (.declareStream false)) "2"]

/-- A loop over literals with a conditional in it, tags in all roles, and a pipeline over the stream. -/
def looping : List Event := [
  .call (.enter (.block (.forEach [.named "v1"] [.literals [.int 1, .int 2]]))) "3",
  .call (.leaf (.save (.named "v1") (.source (numberedStream false 1)))) "4",
  .call (.enter (.conditional (.binary .gt (.named "v1") (.int 1)) false)) "5",
  .call (.leaf (.measure "readout" "q"
    { stream := some (.tag "adc"), timestampStream := some (.tag "t") })) "6",
  .close 2,
  .call (.leaf (.save (.named "v1") (.tag "v"))) "7",
  .close 1,
  .call (.request (.registerSave .saveAll "mean"
    (StreamToken.buffer [2] (numberedStream false 1).token).average)) "8"]

/-- Of the tags, `adc` is used for traces, and `t` for timestamps. -/
def roleOf (tag : String) : TagRole :=
  if tag = "adc" then .trace else if tag = "t" then .timestamps else .values

theorem looping_madeOf (answers : List Answer) :
    MadeOf roleOf [.stream (numberedStream false 1), .expression (.named "v1")] (looping.zip answers) := by
  refine madeOf_of_forall ?_
  simp only [looping, List.forall_mem_cons]
  have hv (more : List Outcome) : (Expression.named "v1").MadeOf
      (more ++ [.stream (numberedStream false 1), .expression (.named "v1")]) :=
    .handle (List.mem_append_right _ (List.mem_cons_of_mem _ List.mem_cons_self))
  have hr (more : List Outcome) : (numberedStream false 1).MadeOf
      (more ++ [.stream (numberedStream false 1), .expression (.named "v1")]) :=
    .handle (List.mem_append_right _ List.mem_cons_self)
  refine ⟨fun more => ?_, fun more => ?_, fun more => ?_, fun more => ?_, fun more => trivial,
    fun more => ?_, fun more => trivial, fun more => ?_, List.forall_mem_nil _⟩
  · exact List.forall_mem_singleton.mpr (hv more)
  · exact ⟨List.forall_mem_singleton.mpr (hv more), List.forall_mem_singleton.mpr (hr more),
      List.forall_mem_nil _, List.forall_mem_nil _, List.forall_mem_nil _, trivial, rfl⟩
  · exact List.forall_mem_singleton.mpr (.binary .gt (hv more) (.literal trivial))
  · exact ⟨List.forall_mem_nil _, List.forall_mem_nil _, List.forall_mem_nil _, List.forall_mem_nil _,
      List.forall_mem_cons.mpr ⟨rfl, List.forall_mem_singleton.mpr rfl⟩, trivial, rfl⟩
  · exact ⟨List.forall_mem_singleton.mpr (hv more), List.forall_mem_nil _, List.forall_mem_nil _,
      List.forall_mem_nil _, List.forall_mem_singleton.mpr rfl, trivial, rfl⟩
  · exact ⟨List.forall_mem_nil _, List.forall_mem_singleton.mpr
      (.average (.buffer (.source (hr more)) (List.forall_mem_singleton.mpr (by decide))))⟩

theorem declaring_madeOf : MadeOf roleOf [] (transcript (declaring ++ looping)) := by
  refine madeOf_run ⟨List.forall_mem_nil _, List.forall_mem_nil _⟩ ?_
    (madeOf_run ⟨List.forall_mem_nil _, List.forall_mem_nil _⟩ ?_ (looping_madeOf _))
  · rfl
  · rfl

end Session

/-- The draft of a finished session whose calls are made of what it has answered before. -/
theorem Session.grounded (permitted : Set (TagRole × String)) {events : List Event} {p : Program}
    (hm : ComposedOf [] (transcript events)) (hu : ∀ event ∈ events, ∀ use ∈ event.uses, use ∈ permitted)
    (hf : (run events {}).2.finish = .ok p) (hp : ∀ x ∈ p.declarations, x.Proper) :
    ∃ own, ∃ d : Draft, (run events {}).2 = ⟨d, none⟩ ∧ p = d.program ∧ d.Orderly own ∧
      d.Meets (d.grounding permitted own) := by
  obtain ⟨hpoison, -, rfl⟩ := finish_eq_ok.mp hf
  have hlast : (run events {}).2 = ⟨(run events {}).2.draft, none⟩ := congrArg (Session.mk _) hpoison
  obtain ⟨own, -, horderly, hanswers⟩ := run_orderly hm Site.scoped_initial Draft.orderly_initial
    (fun _ h => absurd h List.not_mem_nil) hlast
  have hidentified : (run events {}).2.draft.Identified := fun x hx =>
    Declaration.identifier_of_proper horderly.named.numbered hx (hp x hx)
  have hmeets := run_grounding hidentified hm hu Site.scoped_initial Draft.meets_empty
    ⟨fun _ h => absurd h List.not_mem_nil, fun _ h => absurd h List.not_mem_nil⟩ hanswers hlast
  exact ⟨own, _, hlast, rfl, horderly, hmeets⟩

/-- The draft is regular if each tag has been used in one role. -/
theorem Session.regular {role : String → TagRole} {events : List Event} {p : Program} {text : String}
    (hm : MadeOf role [] (transcript events)) (hf : (run events {}).2.finish = .ok p)
    (hp : ∀ x ∈ p.declarations, x.Proper) (ht : p.text = .ok text) :
    ∃ own, ∃ d : Draft, p = d.program ∧ d.Regular role own ∧ d.Flagged False := by
  have hfst : (transcript events).map Prod.fst = events :=
    List.map_fst_zip (length_run events {}).ge
  have hu : ∀ event ∈ events, ∀ use ∈ event.uses, use ∈ {use : TagRole × String | use.1 = role use.2} :=
    hfst ▸ hm.forall_events fun _ _ h => h.tags
  have ha : ∀ event ∈ events, event.Allowed False := hfst ▸ hm.forall_events fun _ _ h => h.allowed
  obtain ⟨own, d, hlast, rfl, horderly, hmeets⟩ := grounded _ hm.composedOf hu hf hp
  have hmade : d.registry.Made role := run_made Site.scoped_initial Registry.made_initial
    (Registry.heeds_of_forall fun use hm => by
      obtain ⟨event, he, hm⟩ := List.mem_flatMap.mp hm
      exact hu event he use hm) hlast
  have hheeded (tag : String) (used : TagRole) (h : firstRole? d.program.tagUses tag = some used) : used = role tag :=
    hmeets.tagUses horderly.sound _ (mem_of_firstRole? h)
  exact ⟨own, d, rfl, horderly.regular hmeets hmade hheeded hp ht,
    run_flagged ha Site.scoped_initial Draft.flagged_initial hlast⟩

/-- Whatever the calls of a session are, and however they are nested: if they are made of what the session
has answered before, with each tag in one role, and its arrays have elements and its input streams names of
letters, digits and underscores, then the listing of the finished program, if there is one, builds a program
with the same canonical form. -/
theorem Session.text_verifies {role : String → TagRole} {events : List Event} {p : Program} {text : String}
    (hm : MadeOf role [] (transcript events)) (hf : (run events {}).2.finish = .ok p)
    (hp : ∀ x ∈ p.declarations, x.Proper) (ht : p.text = .ok text) : p.verify text = .equal := by
  obtain ⟨own, d, rfl, hregular, hflagged⟩ := regular hm hf hp ht
  exact hregular.verify_text hflagged ht

theorem Session.text_verifies_looping : ∃ p text, (run (declaring ++ looping) {}).2.finish = .ok p ∧
    p.text = .ok text ∧ p.verify text = .equal := by
  have hf : (run (declaring ++ looping) {}).2.finish = .ok (run (declaring ++ looping) {}).2.draft.program :=
    finish_eq_ok.mpr ⟨by decide +kernel, by decide +kernel, rfl⟩
  obtain ⟨text, ht, -⟩ := except_map_eq_ok.mp
    (show (fun _ => ()) <$> (run (declaring ++ looping) {}).2.draft.program.text = .ok () by decide +kernel)
  have hp : ∀ x ∈ (run (declaring ++ looping) {}).2.draft.program.declarations,
      (x.isArray = true → x.value ≠ [] ∨ x.size ≠ 0) ∧
        ∀ stream ∈ x.inputStream?, ∀ c ∈ stream.toList, Text.isNamePart c = true := by decide +kernel
  exact ⟨_, text, hf, ht, text_verifies declaring_madeOf hf (fun x hx => ⟨(hp x hx).1, (hp x hx).2⟩) ht⟩

/-- For such a session, the program that the listing builds has a listing that differs from the first one in
the names of streams only, and builds exactly the same program again, at the same lines. -/
theorem Session.text_settles {role : String → TagRole} {events : List Event} {p : Program} {text : String}
    (hm : MadeOf role [] (transcript events)) (hf : (run events {}).2.finish = .ok p)
    (hp : ∀ x ∈ p.declarations, x.Proper) (ht : p.text = .ok text) :
    ∃ q text' σ, Program.ofScript text = .ok q ∧ q.text = .ok text' ∧ Set.InjOn σ p.streamSet ∧
      Text.Renamed σ p.streamSet text text' ∧ Program.ofScript text' = .ok q := by
  obtain ⟨own, d, rfl, hregular, -⟩ := regular hm hf hp ht
  exact hregular.settles ht

namespace Session

/-- Two streams that are saved to in the other order than they are declared in. -/
def crossing : List Event := [
  .call (.request (.declare .int none none)) "1",
  .call (.request (.declareStream false)) "2",
  .call (.request (.declareStream false)) "3",
  .call (.leaf (.save (.named "v1") (.source (numberedStream false 2)))) "4",
  .call (.leaf (.save (.named "v1") (.source (numberedStream false 1)))) "5",
  .call (.request (.registerSave .saveAll "a" (numberedStream false 1).token)) "6"]

theorem crossing_madeOf : MadeOf roleOf [] (transcript crossing) := by
  refine madeOf_run ⟨List.forall_mem_nil _, List.forall_mem_nil _⟩ rfl
    (madeOf_run ⟨List.forall_mem_nil _, List.forall_mem_nil _⟩ rfl
      (madeOf_run ⟨List.forall_mem_nil _, List.forall_mem_nil _⟩ rfl (madeOf_of_forall ?_)))
  have hv (more : List Outcome) : (Expression.named "v1").MadeOf (more ++
      [.stream (numberedStream false 2), .stream (numberedStream false 1), .expression (.named "v1")]) :=
    .handle (List.mem_append_right _ (List.mem_cons_of_mem _ (List.mem_cons_of_mem _ List.mem_cons_self)))
  have hfirst (more : List Outcome) : (numberedStream false 1).MadeOf (more ++
      [.stream (numberedStream false 2), .stream (numberedStream false 1), .expression (.named "v1")]) :=
    .handle (List.mem_append_right _ (List.mem_cons_of_mem _ List.mem_cons_self))
  have hsecond (more : List Outcome) : (numberedStream false 2).MadeOf (more ++
      [.stream (numberedStream false 2), .stream (numberedStream false 1), .expression (.named "v1")]) :=
    .handle (List.mem_append_right _ List.mem_cons_self)
  simp only [List.forall_mem_cons]
  refine ⟨fun more => ?_, fun more => ?_, fun more => ?_, List.forall_mem_nil _⟩
  · exact ⟨List.forall_mem_singleton.mpr (hv more), List.forall_mem_singleton.mpr (hsecond more),
      List.forall_mem_nil _, List.forall_mem_nil _, List.forall_mem_nil _, trivial, rfl⟩
  · exact ⟨List.forall_mem_singleton.mpr (hv more), List.forall_mem_singleton.mpr (hfirst more),
      List.forall_mem_nil _, List.forall_mem_nil _, List.forall_mem_nil _, trivial, rfl⟩
  · exact ⟨List.forall_mem_nil _, List.forall_mem_singleton.mpr (.source (hfirst more))⟩

/-- The listing of that session, for the names of the streams in the order of their lines. -/
def crossingText (first second : String) : String :=
  "from qm.qua import *\n\nwith program() as prog:\n    v1 = declare(int)\n    " ++ first ++
    " = declare_stream()\n    save(v1, " ++ first ++ ")\n    " ++ second ++
    " = declare_stream()\n    save(v1, " ++ second ++ ")\n    with stream_processing():\n        " ++ second ++
    ".save_all(\"a\")\n"

end Session

theorem Session.text_settles_crossing : ∃ p q σ, (run crossing {}).2.finish = .ok p ∧
    p.text = .ok (crossingText "r2" "r1") ∧ Program.ofScript (crossingText "r2" "r1") = .ok q ∧
    q.text = .ok (crossingText "r1" "r2") ∧
      Text.Renamed σ p.streamSet (crossingText "r2" "r1") (crossingText "r1" "r2") ∧
      Program.ofScript (crossingText "r1" "r2") = .ok q := by
  have hf : (run crossing {}).2.finish = .ok (run crossing {}).2.draft.program :=
    finish_eq_ok.mpr ⟨by decide +kernel, by decide +kernel, rfl⟩
  -- One literal, for `Script.lex_ofList`: a text that is put together from pieces is replayed far more slowly.
  let text := "from qm.qua import *

with program() as prog:
    v1 = declare(int)
    r2 = declare_stream()
    save(v1, r2)
    r1 = declare_stream()
    save(v1, r1)
    with stream_processing():
        r1.save_all(\"a\")
"
  have htext : crossingText "r2" "r1" = text := by decide +kernel
  have ht : (run crossing {}).2.draft.program.text = .ok text := by decide +kernel
  rw [htext]
  have hp : ∀ x ∈ (run crossing {}).2.draft.program.declarations,
      (x.isArray = true → x.value ≠ [] ∨ x.size ≠ 0) ∧
        ∀ stream ∈ x.inputStream?, ∀ c ∈ stream.toList, Text.isNamePart c = true := by decide +kernel
  obtain ⟨q, text', σ, hq, ht', -, hrenamed, hagain⟩ :=
    text_settles crossing_madeOf hf (fun x hx => ⟨(hp x hx).1, (hp x hx).2⟩) ht
  have hrebuilt : (Program.ofScript text).toOption.bind (fun q => q.text.toOption) =
      some (crossingText "r1" "r2") := by
    set_option maxRecDepth 4000 in
    rw [Program.ofScript, Script.parse, show text = String.ofList _ from rfl, Script.lex_ofList]
    decide +kernel
  rw [hq, Except.toOption, Option.bind_some, ht', Except.toOption] at hrebuilt
  obtain rfl := Option.some.inj hrebuilt
  exact ⟨_, q, σ, hf, ht, hq, ht', hrenamed, hagain⟩

-- ---------------------------------------------------------------------------
-- Saves
-- ---------------------------------------------------------------------------

/-- Whatever the calls of a session are, and in whatever order it builds the parts of its loops and the cases of
its switches: if they are made of what the session has answered before, and each tag is used first in the same
role in the listing of the finished program as in the calls, then the listing builds a program with the same
saves. A tag may be used in several roles. -/
theorem Session.text_keepsSaves {events : List Event} {p : Program} {text : String}
    (hm : ComposedOf [] (transcript events)) (hf : (run events {}).2.finish = .ok p)
    (hp : ∀ x ∈ p.declarations, x.Proper) (ht : p.text = .ok text)
    (hu : ∀ use ∈ p.tagUses, firstRole? p.tagUses use.2 = firstRole? (events.flatMap Event.uses) use.2) :
    ∃ q, Program.ofScript text = .ok q ∧ q.canonical.results = p.canonical.results := by
  obtain ⟨own, d, hlast, rfl, horderly, hmeets⟩ := grounded Set.univ hm (fun _ _ _ _ => trivial) hf hp
  let role (tag : String) : TagRole := (firstRole? (events.flatMap Event.uses) tag).getD .values
  have hrole {tag : String} {used : TagRole} (h : firstRole? (events.flatMap Event.uses) tag = some used) :
      used = role tag := by
    simp only [role, h, Option.getD_some]
  have hmade : d.registry.Made role :=
    run_made Site.scoped_initial Registry.made_initial (fun _ _ _ h => hrole h) hlast
  have hheeded (tag : String) (used : TagRole) (h : firstRole? d.program.tagUses tag = some used) : used = role tag :=
    hrole ((hu (used, tag) (mem_of_firstRole? h)).symm.trans h)
  exact (horderly.regular hmeets hmade hheeded hp ht).replays_results ht

namespace Session

/-- A loop whose body is built before its `init`. -/
def bodyFirst (body init : List Leaf) : List Event :=
  [Event.call (.request (.declare .int none none)) "1", .call (.enter .loop) "2",
      .call (.enter (.loopPart .body)) "3"] ++
    body.map (fun leaf => Event.call (.leaf leaf) "4") ++
    [Event.close 2, .call (.enter (.loopPart .init)) "5"] ++
    init.map (fun leaf => Event.call (.leaf leaf) "6") ++
    [Event.close 3, .call (.loopCondition (.bool true)) "7", .close 1]

/-- Timestamps of a command, for a tag. -/
def playTo (tag : String) : Leaf := .play (.named "p") "q" { timestampStream := some (.tag tag) }

/-- Values, for a tag. -/
def saveTo (source : Expression) (tag : String) : Leaf := .save source (.tag tag)

/-- Events that need nothing of what has been given are made of it whatever is answered to them. -/
theorem composedOf_of_forall {given : List Outcome} {events : List Event} {answers : List Answer}
    (h : ∀ event ∈ events, ∀ given, event.ComposedOf given) : ComposedOf given (events.zip answers) := by
  induction events generalizing given answers with
  | nil => exact .nil
  | cons event events ih =>
    obtain ⟨hevent, hevents⟩ := List.forall_mem_cons.mp h
    cases answers with
    | nil => exact .nil
    | cons answer answers => exact .cons (hevent given) (ih hevents)

theorem bodyFirst_composedOf {body init : List Leaf} (h : ∀ leaf ∈ body ++ init, ∀ given, leaf.ComposedOf given) :
    ComposedOf [] (transcript (bodyFirst body init)) := by
  obtain ⟨hbody, hinit⟩ := List.forall_mem_append.mp h
  refine composedOf_of_forall fun event he given => ?_
  simp only [bodyFirst, List.mem_append, List.mem_map, List.mem_cons, List.not_mem_nil, or_false] at he
  rcases he with ((((rfl | rfl | rfl) | ⟨leaf, hl, rfl⟩) | rfl | rfl) | ⟨leaf, hl, rfl⟩) | rfl | rfl | rfl
  · exact ⟨List.forall_mem_nil _, List.forall_mem_nil _⟩
  · exact List.forall_mem_nil _
  · exact List.forall_mem_nil _
  · exact hbody leaf hl given
  · trivial
  · exact List.forall_mem_nil _
  · exact hinit leaf hl given
  · trivial
  · exact .literal trivial
  · trivial

theorem playTo_composedOf (tag : String) (given : List Outcome) : (playTo tag).ComposedOf given :=
  ⟨List.forall_mem_nil _, List.forall_mem_nil _, List.forall_mem_nil _, List.forall_mem_nil _, trivial, rfl⟩

theorem saveTo_composedOf (n : Int32) (tag : String) (given : List Outcome) :
    (saveTo (.literal (.int n)) tag).ComposedOf given :=
  ⟨List.forall_mem_singleton.mpr (.literal trivial), List.forall_mem_nil _, List.forall_mem_nil _,
    List.forall_mem_nil _, trivial, rfl⟩

theorem text_keepsSaves_bodyFirst :
    let one := .literal (.int 1)
    let events := bodyFirst [saveTo one "x", playTo "x"] [saveTo one "x"]
    ∃ p text q, (run events {}).2.finish = .ok p ∧ p.text = .ok text ∧ Program.ofScript text = .ok q ∧
      q.canonical.results = p.canonical.results := by
  intro one events
  have hm : ComposedOf [] (transcript events) := bodyFirst_composedOf <| List.forall_mem_cons.mpr
    ⟨saveTo_composedOf 1 "x", List.forall_mem_cons.mpr
      ⟨playTo_composedOf "x", List.forall_mem_singleton.mpr (saveTo_composedOf 1 "x")⟩⟩
  have hf : (run events {}).2.finish = .ok (run events {}).2.draft.program :=
    finish_eq_ok.mpr ⟨by decide +kernel, by decide +kernel, rfl⟩
  obtain ⟨text, ht, -⟩ := except_map_eq_ok.mp
    (show (fun _ => ()) <$> (run events {}).2.draft.program.text = .ok () by decide +kernel)
  have hp : ∀ x ∈ (run events {}).2.draft.program.declarations,
      (x.isArray = true → x.value ≠ [] ∨ x.size ≠ 0) ∧
        ∀ stream ∈ x.inputStream?, ∀ c ∈ stream.toList, Text.isNamePart c = true := by decide +kernel
  obtain ⟨q, hq, hresults⟩ := text_keepsSaves hm hf (fun x hx => ⟨(hp x hx).1, (hp x hx).2⟩) ht (by decide +kernel)
  exact ⟨_, text, q, hf, ht, hq, hresults⟩

/-- Built before the `init` that saves values for the tag, the body that has a command write its timestamps is the
first to use it, but comes after it in the listing. What is rebuilt has one save more. -/
theorem text_not_keepsSaves :
    let events := bodyFirst [playTo "x"] [saveTo (.named "v1") "x"]
    ∃ p text q, (run events {}).2.finish = .ok p ∧ p.text = .ok text ∧ Program.ofScript text = .ok q ∧
      q.canonical.results ≠ p.canonical.results := by
  intro events
  let p := (run events {}).2.draft.program
  have hf : (run events {}).2.finish = .ok p := finish_eq_ok.mpr ⟨by decide +kernel, by decide +kernel, rfl⟩
  let text := "from qm.qua import *

with program() as prog:
    v1 = declare(int)
    with for_():
        with for_init_():
            save(v1, \"x\")
        for_cond(True)
        with for_update_():
            pass
        with for_body_():
            play(\"p\", \"q\", timestamp_stream=\"x\")
"
  have ht : p.text = .ok text := by decide +kernel
  have hcount : (fun q => q.results.entries.length) <$> Program.ofScript text = .ok 2 := by
    set_option maxRecDepth 4000 in
    rw [Program.ofScript, Script.parse, show text = String.ofList _ from rfl, Script.lex_ofList]
    decide +kernel
  have hone : p.results.entries.length = 1 := by decide +kernel
  obtain ⟨q, hq, htwo⟩ := except_map_eq_ok.mp hcount
  refine ⟨p, text, q, hf, ht, hq, fun he => ?_⟩
  rw [← Program.length_canonical, he, Program.length_canonical, hone] at htwo
  cases htwo

end Session

end Qua
