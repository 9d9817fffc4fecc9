import Mathlib.Data.List.Nodup
import Qua.Proofs.Build.Allocation
import Qua.Proofs.Build.Tags

/-!
# Roles of tags

A tag stands for a stream of the role that it is first used in, and the saves that come with it are those of
that role (`Registry.Made`). Different tags then have no tag of a save in common, so that they can be used
again in any order that leaves their first uses in the same roles. Main statement: `Registry.Replica.useEach`.
-/

namespace Qua

open Build (Along Course useTag useTag_eq_ok declareNamed_adds)

-- ---------------------------------------------------------------------------
-- First uses
-- ---------------------------------------------------------------------------

/-- The role in which the tag is used first. -/
def firstRole? (uses : List (TagRole × String)) (tag : String) : Option TagRole :=
  (uses.find? fun use => use.2 == tag).map Prod.fst

theorem firstRole?_cons (used : TagRole) (tag : String) (uses : List (TagRole × String)) (other : String) :
    firstRole? ((used, tag) :: uses) other = if tag = other then some used else firstRole? uses other := by
  by_cases h : tag = other
  · simp [firstRole?, h]
  · simp [firstRole?, beq_false_of_ne h, h]

theorem firstRole?_append (uses more : List (TagRole × String)) (tag : String) :
    firstRole? (uses ++ more) tag = (firstRole? uses tag).or (firstRole? more tag) := by
  simp [firstRole?, List.find?_append, Option.map_or]

/-- The first use of a tag is one of its uses. -/
theorem mem_of_firstRole? {uses : List (TagRole × String)} (h : firstRole? uses tag = some used) :
    (used, tag) ∈ uses := by
  obtain ⟨⟨_, _⟩, hfind, rfl⟩ := Option.map_eq_some_iff.mp h
  have htag := List.find?_some hfind
  obtain rfl : _ = tag := eq_of_beq htag
  exact List.mem_of_find?_eq_some hfind

namespace Registry

variable {role : String → TagRole} {r s : Registry} {own : List String}

-- ---------------------------------------------------------------------------
-- What has been made for tags
-- ---------------------------------------------------------------------------

/-- The streams that stand for tags, and the saves that were made for them, are those of the roles. -/
structure Made (role : String → TagRole) (r : Registry) : Prop where
  source : ∀ tag source, (tag, source) ∈ r.shorthands → ∃ n, source = numberedStream (role tag).isAdcTrace n
  automatic : ∀ entry, entry ∈ r.saves ∧ entry.auto = true ↔
    ∃ tag source, (tag, source) ∈ r.shorthands ∧ entry ∈ (role tag).saves tag source

theorem made_initial : ({} : Draft).registry.Made role where
  source _ _ h := nomatch h
  automatic entry := by simp [Draft.registry]

theorem Made.declared (h : r.Made role) : r.declared.Made role := ⟨h.source, h.automatic⟩

theorem Made.saved (h : r.Made role) {entry : SaveEntry} (ha : entry.auto = false) :
    (r.saved entry).Made role where
  source := h.source
  automatic other := by
    refine Iff.trans ⟨fun ⟨ho, hauto⟩ => ⟨?_, hauto⟩, fun ⟨ho, hauto⟩ => ⟨List.mem_append_left _ ho, hauto⟩⟩
      (h.automatic other)
    obtain ho | ho := List.mem_append.mp ho
    · exact ho
    · obtain rfl := List.mem_singleton.mp ho
      rw [ha] at hauto
      nomatch hauto

theorem Made.tagged (h : r.Made role) (tag : String) : (r.tagged (role tag) tag).Made role where
  source other source hs := by
    obtain hs | hs := List.mem_cons.mp hs
    · obtain ⟨rfl, rfl⟩ := Prod.mk.inj hs
      exact ⟨_, rfl⟩
    · exact h.source other source hs
  automatic entry := by
    simp only [Registry.tagged, List.mem_append, List.mem_cons, Prod.mk.injEq]
    constructor
    · rintro ⟨he | he, ha⟩
      · obtain ⟨other, given, hs, hm⟩ := (h.automatic entry).mp ⟨he, ha⟩
        exact ⟨other, given, .inr hs, hm⟩
      · exact ⟨tag, _, .inl ⟨rfl, rfl⟩, he⟩
    · rintro ⟨other, given, ⟨rfl, rfl⟩ | hs, hm⟩
      · exact ⟨.inr hm, (TagRole.mem_saves hm).1⟩
      · obtain ⟨he, ha⟩ := (h.automatic entry).mpr ⟨other, given, hs, hm⟩
        exact ⟨.inl he, ha⟩

/-- A tag that is used for the first time is used in its role. -/
theorem Made.use {source : ResultSource} (h : r.Made role) (hr : r.shorthands.lookup tag = none → used = role tag)
    (hu : r.use used tag = .ok (source, s)) : s.Made role := by
  obtain ⟨-, rfl⟩ | ⟨hl, -, rfl, -⟩ := use_eq_ok hu
  · exact h
  · exact hr hl ▸ h.tagged tag

/-- Streams and saves that keep the roles of tags. -/
theorem Made.course : Course fun d t => d.registry.Made role → t.registry.Made role where
  of_eq d t h hd := by rwa [← t.registry_inventory, h]
  trans _ _ _ h h' hd := h' (h hd)
  declares _ _ _ _ d _ t h hd := by
    obtain ⟨declaration, hadds⟩ := declareNamed_adds h
    rwa [hadds.registry]

theorem Made.along_request (asked : Request) :
    Along (fun d t => d.registry.Made role → t.registry.Made role) asked.step := by
  intro d outcome t h
  have hrecords := Request.step_records h
  cases asked with
  | declareStream isAdcTrace => exact fun hd => hrecords.2 ▸ hd.declared
  | registerSave kind tag pipeline => exact fun hd => hrecords.2.2 ▸ hd.saved rfl
  | _ => exact Request.along Made.course rfl h

theorem Names.source_injective (h : r.Names (r.streamNames own)) {tag tag' : String}
    {source source' : ResultSource} (hs : (tag, source) ∈ r.shorthands)
    (hs' : (tag', source') ∈ r.shorthands) (hn : source.name = source'.name) : tag = tag' := by
  have hnodup := (List.nodup_append.mp h.nodup).2.1
  exact congrArg Prod.fst (List.inj_on_of_nodup_map hnodup hs hs' hn)

/-- Different tags save under different tags. -/
theorem Made.apart (h : r.Made role) (hn : r.Names (r.streamNames own))
    (hd : (r.saves.map SaveEntry.tag).Nodup) {tag tag' : String} {source source' : ResultSource}
    (hs : (tag, source) ∈ r.shorthands) (hs' : (tag', source') ∈ r.shorthands) (hne : tag ≠ tag') :
    ((role tag).tags tag).Disjoint ((role tag').tags tag') := by
  intro taken ht ht'
  rw [← (role tag).tags_saves tag source] at ht
  rw [← (role tag').tags_saves tag' source'] at ht'
  obtain ⟨entry, he, rfl⟩ := List.mem_map.mp ht
  obtain ⟨entry', he', htag⟩ := List.mem_map.mp ht'
  have hm := ((h.automatic entry).mpr ⟨tag, source, hs, he⟩).1
  have hm' := ((h.automatic entry').mpr ⟨tag', source', hs', he'⟩).1
  obtain rfl := List.inj_on_of_nodup_map hd hm' hm htag
  -- one save reads one stream, and so belongs to one tag
  have hname := (TagRole.mem_saves he).2.symm.trans (TagRole.mem_saves he').2
  exact hne (hn.source_injective hs hs' (List.singleton_inj.mp hname))

-- ---------------------------------------------------------------------------
-- Tags that are used again
-- ---------------------------------------------------------------------------

/-- The registry has been made by declaring streams and using some of the tags, each in its role. -/
structure Replica (role : String → TagRole) (tags : List String) (own : List String) (r : Registry) :
    Prop where
  names : r.Names (r.streamNames own)
  made : r.Made role
  automatic : ∀ entry ∈ r.saves, entry.auto = true
  distinct : (r.saves.map SaveEntry.tag).Nodup
  tags : ∀ tag source, (tag, source) ∈ r.shorthands → tag ∈ tags
  sound : r.Sound own

variable {tags : List String}

theorem replica_initial : Replica role tags [] ({} : Draft).registry where
  names := names_initial
  made := made_initial
  automatic _ h := nomatch h
  distinct := List.nodup_nil
  tags _ _ h := nomatch h
  sound := sound_initial

theorem Replica.lookup (h : r.Replica role tags own) (tag : String) (source : ResultSource)
    (hs : (tag, source) ∈ r.shorthands) : r.shorthands.lookup tag = some source := h.sound.lookup tag source hs

theorem Replica.declared (h : r.Replica role tags own) (isAdcTrace : Bool) :
    r.declared.Replica role tags ((r.next isAdcTrace).name :: own) where
  names := (h.names.declared isAdcTrace).perm
    (List.Perm.append_right _ (List.perm_append_singleton _ own))
  made := h.made.declared
  automatic := h.automatic
  distinct := h.distinct
  tags := h.tags
  sound := h.sound.declared isAdcTrace

/-- The tags that have not been used before are first used in their roles. -/
def Heeds (role : String → TagRole) (r : Registry) (uses : List (TagRole × String)) : Prop :=
  ∀ tag used, r.shorthands.lookup tag = none → firstRole? uses tag = some used → used = role tag

theorem heeds_of_forall {uses : List (TagRole × String)} (h : ∀ use ∈ uses, use.1 = role use.2) : r.Heeds role uses :=
  fun _ _ _ hf => h _ (mem_of_firstRole? hf)

theorem Heeds.first (h : r.Heeds role ((used, tag) :: uses)) (hl : r.shorthands.lookup tag = none) : used = role tag :=
  h tag used hl (by rw [firstRole?_cons, if_pos rfl])

theorem Heeds.append {uses more : List (TagRole × String)} (h : r.Heeds role (uses ++ more))
    (hu : r.useEach uses = .ok s) : r.Heeds role uses ∧ s.Heeds role more := by
  constructor
  · intro tag used hl hf
    exact h tag used hl (by rw [firstRole?_append, hf, Option.some_or])
  · intro tag used hl hf
    -- a tag that is not known in the end is none of those used
    have hunused : firstRole? uses tag = none := by
      rw [Option.eq_none_iff_forall_ne_some]
      intro first hfirst
      rw [lookup_of_useEach hu _ (mem_of_firstRole? hfirst)] at hl
      cases hl
    have hunknown : r.shorthands.lookup tag = none := by
      rw [Option.eq_none_iff_forall_ne_some]
      intro source hs
      rw [(usesTags_of_useEach hu).keeps.lookup tag source hs] at hl
      cases hl
    exact h tag used hunknown (by rw [firstRole?_append, hunused, Option.none_or, hf])

/-- Tags keep their roles if those that have not been used before are first used in theirs. -/
theorem Made.useEach {uses : List (TagRole × String)} (h : r.Made role) (hr : r.Heeds role uses)
    (hu : r.useEach uses = .ok s) : s.Made role := by
  induction uses generalizing r with
  | nil =>
    obtain rfl := Except.ok.inj hu
    exact h
  | cons use uses ih =>
    obtain ⟨used, tag⟩ := use
    obtain ⟨⟨source, t⟩, hs, hu⟩ := except_bind_eq_ok.mp hu
    exact ih (h.use hr.first hs) (hr.append (useEach_singleton_of_use hs)).2 hu

/-- A tag that has not been used has free tags for its saves, and so can be used. -/
theorem Replica.use (h : r.Replica role tags own) (ht : tag ∈ tags)
    (hr : r.shorthands.lookup tag = none → used = role tag)
    (hapart : ∀ other ∈ tags, tag ≠ other → ((role tag).tags tag).Disjoint ((role other).tags other)) :
    ∃ source s, r.use used tag = .ok (source, s) ∧ s.Replica role tags own := by
  cases hl : r.shorthands.lookup tag with
  | some source => exact ⟨source, r, by rw [Registry.use, hl], h⟩
  | none =>
    obtain rfl := hr hl
    have hfree : ∀ taken ∈ (role tag).tags tag, r.IsFree taken := by
      rintro taken htaken entry he rfl
      obtain ⟨other, source, hs, hm⟩ := (h.made.automatic entry).mp ⟨he, h.automatic entry he⟩
      have hne : tag ≠ other := by
        rintro rfl
        rw [h.lookup _ _ hs] at hl
        cases hl
      refine hapart other (h.tags other source hs) hne htaken ?_
      rw [← (role other).tags_saves other source]
      exact List.mem_map_of_mem hm
    have hfind : ((role tag).tags tag).find? r.isTaken = none := by
      rw [List.find?_eq_none]
      intro taken htaken
      simp [isTaken_eq_false.mpr (hfree taken htaken)]
    refine ⟨r.next (role tag).isAdcTrace, r.tagged (role tag) tag,
      by rw [Registry.use, hl]; simp only [hfind], ?_⟩
    exact {
      names := h.names.tagged (role tag) tag
      made := h.made.tagged tag
      automatic := fun entry he => by
        obtain he | he := List.mem_append.mp he
        · exact h.automatic entry he
        · exact (TagRole.mem_saves he).1
      distinct := (keeps_tagged (role tag) hl hfree).distinct h.distinct
      tags := fun other source hs => by
        obtain hs | hs := List.mem_cons.mp hs
        · exact (Prod.mk.inj hs).1 ▸ ht
        · exact h.tags other source hs
      sound := h.sound.tagged (role tag) hl }

/-- Tags whose saves are apart can be used one after the other. -/
theorem Replica.useEach (h : r.Replica role tags own) {uses : List (TagRole × String)}
    (hapart : ∀ tag ∈ tags, ∀ other ∈ tags, tag ≠ other →
      ((role tag).tags tag).Disjoint ((role other).tags other))
    (ht : ∀ use ∈ uses, use.2 ∈ tags) (hr : r.Heeds role uses) :
    ∃ s, r.useEach uses = .ok s ∧ s.Replica role tags own := by
  induction uses generalizing r with
  | nil => exact ⟨r, rfl, h⟩
  | cons use uses ih =>
    obtain ⟨used, tag⟩ := use
    obtain ⟨ht, hrest⟩ := List.forall_mem_cons.mp ht
    obtain ⟨source, s, hs, hreplica⟩ := h.use ht hr.first (hapart tag ht)
    obtain ⟨t, hrun, ht⟩ := ih hreplica hrest (hr.append (useEach_singleton_of_use hs)).2
    exact ⟨t, by rw [Registry.useEach, hs]; exact hrun, ht⟩

end Registry

-- ---------------------------------------------------------------------------
-- Sessions
-- ---------------------------------------------------------------------------

theorem Draft.keepsShorthands : Course fun d t => t.shorthands = d.shorthands where
  of_eq _ _ h := by
    have hs := congrArg (fun x : Draft => x.shorthands) h
    exact hs
  trans _ _ _ h h' := h'.trans h
  declares _ _ _ _ d _ t h := by
    obtain ⟨declaration, hadds⟩ := declareNamed_adds h
    exact congrArg Registry.shorthands hadds.registry

theorem Request.keepsShorthands (asked : Request) :
    Along (fun d t => t.shorthands = d.shorthands) asked.step := by
  intro d outcome t h
  have hrecords := Request.step_records h
  cases asked with
  | declareStream isAdcTrace => exact congrArg Registry.shorthands hrecords.2
  | registerSave kind tag pipeline => exact congrArg Registry.shorthands hrecords.2.2
  | _ => exact Request.along Draft.keepsShorthands rfl h

section

variable {role : String → TagRole} {d t : Draft}

/-- Tags keep their roles along an event if those that it uses for the first time, and those that are used
after it, are first used in theirs. -/
theorem Event.heeds {event : Event} {more : List (TagRole × String)}
    (h : event.perform ⟨d, none⟩ = (.ok outcome, ⟨t, none⟩)) (hd : d.registry.Made role)
    (hr : d.registry.Heeds role (event.uses ++ more)) : t.registry.Made role ∧ t.registry.Heeds role more := by
  have hother (hu : event.uses = []) : t.registry.Made role ∧ t.registry.Heeds role more := by
    have hmade : d.registry.Made role → (event.perform ⟨d, none⟩).2.draft.registry.Made role :=
      event.along_uses Registry.Made.course (by simp [hu])
        (fun asked _ _ => Registry.Made.along_request asked) ⟨d, none⟩
    have hshorthands := event.along_uses Draft.keepsShorthands (by simp [hu])
      (fun asked _ _ => asked.keepsShorthands) ⟨d, none⟩
    rw [h] at hmade hshorthands
    rw [hu] at hr
    exact ⟨hmade hd, fun tag used hl => hr tag used ((congrArg (List.lookup tag) hshorthands).symm.trans hl)⟩
  cases event with
  | call made l =>
    cases made with
    | leaf leaf =>
      have huses := Leaf.perform_useEach h
      obtain ⟨hfirst, hrest⟩ := hr.append huses
      exact ⟨hd.useEach hfirst huses, hrest⟩
    | _ => exact hother rfl
  | _ => exact hother rfl

/-- After a session without failures, the stream and the saves of every tag are of the role in which it has been
used first. -/
theorem Session.run_made {events : List Event} (hs : d.site.Scoped) (hd : d.registry.Made role)
    (hr : d.registry.Heeds role (events.flatMap Event.uses)) (h : (run events ⟨d, none⟩).2 = ⟨t, none⟩) :
    t.registry.Made role := by
  induction events generalizing d with
  | nil =>
    obtain rfl := congrArg Session.draft h
    exact hd
  | cons event events ih =>
    rw [run_cons] at h
    obtain ⟨outcome, u, hrun, hm⟩ | ⟨answer, d', e, hrun, -⟩ := event.perform_cases hs
    · rw [hrun] at h
      obtain ⟨hu, hrest⟩ := Event.heeds hrun hd hr
      exact ih (hm.scoped hs) hu hrest h
    · rw [hrun, run_poisoned] at h
      nomatch h

end

end Qua
