import Mathlib
import Qua.Proofs.Numbering
import Qua.Proofs.Renaming
import Qua.Program.RoundTrip

/-!
# The canonical form decides equivalence

Programs are equivalent if a bijection between their streams, which changes at most the counters of
the names, turns one into the other up to locations and the order of the saves. Main statements: a
program is equivalent to its canonical form, and two programs whose tags are distinct have the same
canonical form exactly if they are equivalent.
-/

namespace Qua.Program

open Statement (mapBlock blockStreamNames representedBlock)
open Text (withoutTrailingDigits)

-- ---------------------------------------------------------------------------
-- Equivalence
-- ---------------------------------------------------------------------------

/-- The streams of the program, as a set. -/
def streamSet (p : Program) : Set String := {name | name ∈ p.streamNames}

/-- The body with its streams renamed and all locations blank. -/
def bodyUnder (σ : String → String) (p : Program) : List Statement :=
  mapBlock (Action.mapStreams σ) (fun _ => "") p.body

/-- The renaming `σ` of the streams of `p` gives `q`, but for locations and the order of the saves. -/
structure Renames (σ : String → String) (p q : Program) : Prop where
  bijective : Set.BijOn σ p.streamSet q.streamSet
  base : ∀ name ∈ p.streamSet, withoutTrailingDigits (σ name) = withoutTrailingDigits name
  declarations : (p.declarations == q.declarations) = true
  body : (p.bodyUnder σ == q.bodyUnder id) = true
  saves : (p.results.entries.map (SaveEntry.mapSources σ)).Perm q.results.entries
  metadata : p.metadata = q.metadata

/-- Programs that differ in the counters of their streams, in locations and in the order of their
saves. -/
def Equivalent (p q : Program) : Prop := ∃ σ, Renames σ p q

/-- The tags of the saves are pairwise distinct. -/
def DistinctTags (p : Program) : Prop := (p.results.entries.map SaveEntry.tag).Nodup

instance (p : Program) : Decidable p.DistinctTags :=
  inferInstanceAs (Decidable (p.results.entries.map SaveEntry.tag).Nodup)

/-- What equivalence compares of a body. -/
def bodyShape (σ : String → String) (p : Program) : List Statement :=
  mapBlock (Action.mapStreams σ) (fun _ => "") (representedBlock p.body)

theorem bodyUnder_beq_iff {p q : Program} :
    (p.bodyUnder σ == q.bodyUnder τ) = true ↔ p.bodyShape σ = q.bodyShape τ := by
  have hr : ∀ (ρ : String → String) (r : Program),
      (r.bodyUnder ρ).map Statement.represented = r.bodyShape ρ := by
    intro ρ r
    rw [← Statement.representedBlock_eq_map, bodyUnder, bodyShape,
      Statement.representedBlock_mapBlock _ (Action.mapExpressions_mapStreams _ ρ)]
  rw [list_beq_iff Statement.same_iff, hr, hr]

theorem mem_streamSet {p : Program} : name ∈ p.streamSet ↔
    name ∈ blockStreamNames p.body ∨
      ∃ entry ∈ p.results.entries, name ∈ entry.pipeline.sourceNames := by
  simp [streamSet, streamNames]

theorem mapBlock_bodyShape (σ τ : String → String) (p : Program) :
    mapBlock (Action.mapStreams τ) (fun _ => "") (p.bodyShape σ) = p.bodyShape (τ ∘ σ) := by
  have hcomp : Action.mapStreams τ ∘ Action.mapStreams σ = Action.mapStreams (τ ∘ σ) :=
    funext fun a => a.mapStreams_mapStreams σ τ
  rw [bodyShape, Statement.mapBlock_mapBlock, hcomp]
  rfl

theorem bodyShape_congr {p : Program} (h : ∀ name ∈ p.streamSet, σ name = τ name) :
    p.bodyShape σ = p.bodyShape τ := by
  apply Statement.mapBlock_congr
  intro name hn
  apply h
  rw [mem_streamSet, ← Statement.blockStreamNames_represented]
  exact .inl hn

theorem blockStreamNames_bodyShape (σ : String → String) (p : Program) :
    blockStreamNames (p.bodyShape σ) = (blockStreamNames p.body).map σ := by
  rw [bodyShape, Statement.blockStreamNames_mapBlock, Statement.blockStreamNames_represented]

theorem mapSources_comp (σ τ : String → String) :
    SaveEntry.mapSources τ ∘ SaveEntry.mapSources σ = SaveEntry.mapSources (τ ∘ σ) := by
  funext entry
  simp [SaveEntry.mapSources, StreamToken.mapSources_mapSources]

theorem map_mapSources_congr {p : Program} (h : ∀ name ∈ p.streamSet, σ name = τ name) :
    p.results.entries.map (SaveEntry.mapSources σ) =
      p.results.entries.map (SaveEntry.mapSources τ) := by
  apply List.map_congr_left
  intro entry he
  rw [SaveEntry.mapSources, SaveEntry.mapSources, StreamToken.mapSources_congr]
  intro name hn
  exact h name (mem_streamSet.mpr (.inr ⟨entry, he, hn⟩))

theorem map_mapSources_id (entries : List SaveEntry) :
    entries.map (SaveEntry.mapSources id) = entries := by
  have : SaveEntry.mapSources id = id := by
    funext entry
    simp [SaveEntry.mapSources, StreamToken.mapSources_id]
  rw [this, List.map_id]

theorem sourceNames_mapSources_entry (σ : String → String) (entry : SaveEntry) :
    (entry.mapSources σ).pipeline.sourceNames = entry.pipeline.sourceNames.map σ :=
  StreamToken.sourceNames_mapSources σ entry.pipeline

theorem length_canonical (p : Program) :
    p.canonical.results.entries.length = p.results.entries.length := by
  simp [canonical, entriesByTag]

/-- Only injectivity has to be checked: that the streams of `q` are the new names of those of `p`
follows from the rest. -/
theorem Renames.of {p q : Program} (injective : Set.InjOn σ p.streamSet)
    (base : ∀ name ∈ p.streamSet, withoutTrailingDigits (σ name) = withoutTrailingDigits name)
    (declarations : (p.declarations == q.declarations) = true)
    (body : p.bodyShape σ = q.bodyShape id)
    (saves : (p.results.entries.map (SaveEntry.mapSources σ)).Perm q.results.entries)
    (metadata : p.metadata = q.metadata) : Renames σ p q := by
  have hbody : blockStreamNames q.body = (blockStreamNames p.body).map σ := by
    rw [← blockStreamNames_bodyShape, body, blockStreamNames_bodyShape, List.map_id]
  refine ⟨⟨?_, injective, ?_⟩, base, declarations, bodyUnder_beq_iff.mpr body, saves, metadata⟩
  · intro name hn
    rcases mem_streamSet.mp hn with hn | ⟨entry, he, hn⟩
    · exact mem_streamSet.mpr (.inl (hbody ▸ List.mem_map_of_mem hn))
    · refine mem_streamSet.mpr (.inr ⟨_, saves.mem_iff.mp (List.mem_map_of_mem he), ?_⟩)
      rw [sourceNames_mapSources_entry]
      exact List.mem_map_of_mem hn
  · intro name hn
    rcases mem_streamSet.mp hn with hn | ⟨entry, he, hn⟩
    · rw [hbody] at hn
      obtain ⟨old, ho, rfl⟩ := List.mem_map.mp hn
      exact ⟨old, mem_streamSet.mpr (.inl ho), rfl⟩
    · obtain ⟨before, hb, rfl⟩ := List.mem_map.mp (saves.mem_iff.mpr he)
      rw [sourceNames_mapSources_entry] at hn
      obtain ⟨old, ho, rfl⟩ := List.mem_map.mp hn
      exact ⟨old, mem_streamSet.mpr (.inr ⟨before, hb, ho⟩), rfl⟩

theorem Renames.shape {p q : Program} (h : Renames σ p q) : p.bodyShape σ = q.bodyShape id :=
  bodyUnder_beq_iff.mp h.body

theorem Equivalent.refl (p : Program) : Equivalent p p := by
  refine ⟨id, .of (fun _ _ _ _ h => h) (fun _ _ => rfl) ?_ rfl ?_ rfl⟩
  · rw [list_beq_iff Declaration.beq_iff]
  · rw [map_mapSources_id]

theorem Renames.symm {p q : Program} (h : Renames σ p q) :
    Renames (Function.invFunOn σ p.streamSet) q p := by
  have hinv := h.bijective.invOn_invFunOn
  have hback := h.bijective.symm hinv.symm
  have hleft : ∀ name ∈ p.streamSet, (Function.invFunOn σ p.streamSet ∘ σ) name = id name :=
    fun name hn => hinv.1 hn
  refine .of hback.injOn ?_ ?_ ?_ ?_ h.metadata.symm
  · intro name hn
    rw [← h.base _ (hback.mapsTo hn), hinv.2 hn]
  · rw [list_beq_iff Declaration.beq_iff]
    exact ((list_beq_iff Declaration.beq_iff _ _).mp h.declarations).symm
  · rw [← bodyShape_congr hleft, ← mapBlock_bodyShape, h.shape, mapBlock_bodyShape]
    rfl
  · have hmap := h.saves.symm.map (SaveEntry.mapSources (Function.invFunOn σ p.streamSet))
    rwa [List.map_map, mapSources_comp, map_mapSources_congr hleft, map_mapSources_id] at hmap

theorem Equivalent.symm {p q : Program} : Equivalent p q → Equivalent q p :=
  fun ⟨_, h⟩ => ⟨_, h.symm⟩

theorem Equivalent.trans {p q r : Program} : Equivalent p q → Equivalent q r → Equivalent p r := by
  rintro ⟨σ, h⟩ ⟨τ, k⟩
  refine ⟨τ ∘ σ, .of ?_ ?_ ?_ ?_ ?_ (h.metadata.trans k.metadata)⟩
  · exact k.bijective.injOn.comp h.bijective.injOn h.bijective.mapsTo
  · intro name hn
    exact (k.base _ (h.bijective.mapsTo hn)).trans (h.base name hn)
  · rw [list_beq_iff Declaration.beq_iff]
    exact ((list_beq_iff Declaration.beq_iff _ _).mp h.declarations).trans
      ((list_beq_iff Declaration.beq_iff _ _).mp k.declarations)
  · rw [← mapBlock_bodyShape, h.shape, mapBlock_bodyShape, ← k.shape]
    rfl
  · rw [← mapSources_comp, ← List.map_map]
    exact (h.saves.map _).trans k.saves

/-- Programs that compare as equal are equivalent. -/
theorem Equivalent.of_beq {p q : Program} (h : (p == q) = true) : Equivalent p q := by
  obtain ⟨hd, hb, hr, hm⟩ : p.declarations.map Declaration.represented =
      q.declarations.map Declaration.represented ∧ representedBlock p.body = representedBlock q.body ∧
      p.results = q.results ∧ p.metadata = q.metadata := by
    simpa [represented] using (beq_iff p q).mp h
  refine ⟨id, .of (fun _ _ _ _ h => h) (fun _ _ => rfl) ?_ ?_ ?_ hm⟩
  · rwa [list_beq_iff Declaration.beq_iff]
  · rw [bodyShape, bodyShape, hb]
  · rw [map_mapSources_id, hr]

-- ---------------------------------------------------------------------------
-- The canonical form
-- ---------------------------------------------------------------------------

theorem perm_entriesByTag (p : Program) : p.entriesByTag.Perm p.results.entries :=
  List.mergeSort_perm _ _

theorem mem_canonicalOrder {p : Program} : name ∈ p.canonicalOrder ↔ name ∈ p.streamSet := by
  simp [canonicalOrder, mem_streamSet, entriesByTag]

/-- The new names of the streams in the canonical form. -/
def canonicalName (p : Program) : String → String := renameBy (numbered p.canonicalOrder)

theorem canonicalName_injOn (p : Program) : Set.InjOn p.canonicalName p.streamSet := by
  intro a ha b hb h
  exact renameBy_injective _ (nodup_eraseDups _) (mem_canonicalOrder.mpr ha)
    (mem_canonicalOrder.mpr hb) h

theorem renames_canonical (p : Program) : Renames p.canonicalName p p.canonical := by
  refine .of p.canonicalName_injOn ?_ ?_ ?_ ?_ rfl
  · intro name hn
    exact withoutTrailingDigits_renameBy _ (nodup_eraseDups _) (mem_canonicalOrder.mpr hn)
  · rw [list_beq_iff Declaration.beq_iff]
    rfl
  · have hid : Action.mapStreams id = id := funext Action.mapStreams_id
    have hshape : p.canonical.bodyShape id =
        mapBlock id (fun _ => "") (mapBlock (Action.mapStreams p.canonicalName)
          (fun _ => strippedLocation) (representedBlock p.body)) := by
      rw [bodyShape, hid, canonical,
        Statement.representedBlock_mapBlock _ (Action.mapExpressions_mapStreams _ _)]
      rfl
    rw [hshape, Statement.mapBlock_mapBlock]
    rfl
  · exact ((p.perm_entriesByTag.symm.map _).trans (List.mergeSort_perm _ _).symm)

theorem equivalent_canonical (p : Program) : Equivalent p p.canonical := ⟨_, p.renames_canonical⟩

/-- Entries of the same tags in another order have one order by tag. -/
theorem mergeSort_by_tag {as bs : List SaveEntry} (h : as.Perm bs)
    (hn : (as.map SaveEntry.tag).Nodup) :
    as.mergeSort (fun a b => (compare a.tag b.tag).isLE) =
      bs.mergeSort fun a b => (compare a.tag b.tag).isLE := by
  have hsorted : ∀ l : List SaveEntry,
      (l.mergeSort fun a b => (compare a.tag b.tag).isLE).Pairwise
        fun a b => (compare a.tag b.tag).isLE = true := by
    intro l
    apply List.pairwise_mergeSort
    · intro a b c hab hbc
      exact Std.TransCmp.isLE_trans hab hbc
    · intro a b
      have hswap : compare b.tag a.tag = (compare a.tag b.tag).swap := Std.OrientedOrd.eq_swap
      cases hc : compare a.tag b.tag <;> simp [hswap, hc]
  refine List.Perm.eq_of_pairwise ?_ (hsorted as) (hsorted bs)
    (((List.mergeSort_perm _ _).trans h).trans (List.mergeSort_perm _ _).symm)
  intro a b ha hb hab hba
  have htag : a.tag = b.tag := Std.LawfulEqCmp.eq_of_compare (Std.OrientedCmp.isLE_antisymm hab hba)
  rw [List.mem_mergeSort] at ha hb
  exact List.inj_on_of_nodup_map hn ha (h.mem_iff.mpr hb) htag

theorem entriesByTag_of_renames {p q : Program} (h : Renames σ p q) (hp : p.DistinctTags) :
    q.entriesByTag = p.entriesByTag.map (SaveEntry.mapSources σ) := by
  have hn : ((p.results.entries.map (SaveEntry.mapSources σ)).map SaveEntry.tag).Nodup := by
    simpa [DistinctTags, Function.comp_def, SaveEntry.mapSources] using hp
  rw [entriesByTag, ← mergeSort_by_tag h.saves hn, entriesByTag, List.map_mergeSort]
  intro a _ b _
  rfl

/-- The two programs number corresponding streams alike, since both visit them in one order. -/
theorem canonicalName_of_renames {p q : Program} (h : Renames σ p q) (hp : p.DistinctTags)
    (hn : name ∈ p.streamSet) : q.canonicalName (σ name) = p.canonicalName name := by
  have hbody : blockStreamNames q.body = (blockStreamNames p.body).map σ := by
    rw [← blockStreamNames_bodyShape, h.shape, blockStreamNames_bodyShape, List.map_id]
  have hsaves : q.entriesByTag.flatMap (fun entry => entry.pipeline.sourceNames) =
      (p.entriesByTag.flatMap fun entry => entry.pipeline.sourceNames).map σ := by
    rw [entriesByTag_of_renames h hp, List.flatMap_map, List.map_flatMap]
    simp only [sourceNames_mapSources_entry]
  have hinj : ∀ a ∈ p.canonicalOrder, ∀ b ∈ p.canonicalOrder, σ a = σ b → a = b :=
    fun a ha b hb => h.bijective.injOn (mem_canonicalOrder.mp ha) (mem_canonicalOrder.mp hb)
  have horder : q.canonicalOrder = p.canonicalOrder.map σ := by
    rw [canonicalOrder, hbody, hsaves, ← List.map_append, eraseDups_map]
    · rfl
    · intro a ha b hb
      exact hinj a (List.mem_eraseDups.mpr ha) b (List.mem_eraseDups.mpr hb)
  rw [canonicalName, horder]
  exact renameBy_map _ (nodup_eraseDups _) hinj (h.base name hn) (mem_canonicalOrder.mpr hn)

theorem canonical_beq_of_renames {p q : Program} (h : Renames σ p q) (hp : p.DistinctTags) :
    (p.canonical == q.canonical) = true := by
  have hname : ∀ name ∈ p.streamSet, p.canonicalName name = (q.canonicalName ∘ σ) name :=
    fun name hn => (canonicalName_of_renames h hp hn).symm
  have hshape : p.bodyShape p.canonicalName = q.bodyShape q.canonicalName := by
    rw [bodyShape_congr hname, ← mapBlock_bodyShape, h.shape, mapBlock_bodyShape]
    rfl
  have hbody : ∀ r : Program, representedBlock r.canonical.body =
      mapBlock id (fun _ => strippedLocation) (r.bodyShape r.canonicalName) := by
    intro r
    rw [canonical, Statement.representedBlock_mapBlock _ (Action.mapExpressions_mapStreams _ _),
      bodyShape, Statement.mapBlock_mapBlock]
    rfl
  have hentries : p.entriesByTag.map (SaveEntry.mapSources p.canonicalName) =
      q.entriesByTag.map (SaveEntry.mapSources q.canonicalName) := by
    rw [entriesByTag_of_renames h hp, List.map_map, mapSources_comp]
    apply List.map_congr_left
    intro entry he
    rw [SaveEntry.mapSources, SaveEntry.mapSources, StreamToken.mapSources_congr]
    intro name hn
    exact hname name (mem_streamSet.mpr (.inr ⟨entry, p.perm_entriesByTag.mem_iff.mp he, hn⟩))
  have hresults : p.canonical.results = q.canonical.results := by
    change ResultAnalysis.mk ((p.entriesByTag.map (SaveEntry.mapSources p.canonicalName)).mergeSort _)
      = _
    rw [hentries]
    rfl
  rw [beq_iff, represented, represented, hbody, hbody, hshape, hresults]
  have hd := (list_beq_iff Declaration.beq_iff _ _).mp h.declarations
  change Program.mk (p.declarations.map _) _ _ p.metadata = Program.mk (q.declarations.map _) _ _ _
  rw [hd, h.metadata]
  rfl

/-- A script is right for a program if what it builds has the same canonical form. -/
theorem verify_of_canonical_beq {p q : Program} {script : String} (hs : ofScript script = .ok q)
    (h : (p.canonical == q.canonical) = true) : p.verify script = .equal := by
  simp only [verify, hs, h, if_true]

/-- The canonical form stands for exactly the programs that are equivalent; that the tags of `q` are
distinct too follows from either side. So a round trip succeeds
if and only if the script builds an equivalent program: streams are neither merged, split nor
exchanged, and their counters do not matter. -/
theorem canonical_decides_equivalence (p q : Program) (hp : p.DistinctTags) :
    Equivalent p p.canonical ∧ ((p.canonical == q.canonical) = true ↔ Equivalent p q) ∧
      ∀ script, ofScript script = .ok q → (p.verify script = .equal ↔ Equivalent p q) := by
  have hiff : (p.canonical == q.canonical) = true ↔ Equivalent p q := by
    constructor
    · intro h
      exact (equivalent_canonical p).trans ((Equivalent.of_beq h).trans (equivalent_canonical q).symm)
    · rintro ⟨σ, h⟩
      exact canonical_beq_of_renames h hp
  refine ⟨equivalent_canonical p, hiff, ?_⟩
  intro script hs
  rw [← hiff, verify, hs]
  by_cases h : (p.canonical == q.canonical) = true
  · simp [h]
  · simp [h]

/-- Two streams whose counters differ, saved in the other order and at other places. -/
theorem canonical_decides_equivalence_drift :
    let save (source stream : String) (location : String) : Statement :=
      .action (.save (.named source) stream) location
    let entry (tag stream : String) : SaveEntry :=
      ⟨.saveAll, tag, false, .list [.atom "@re", .atom "0", .atom stream]⟩
    let p : Program :=
      { body := [save "v1" "r1" "a", save "v2" "r2" "a"], results := ⟨[entry "b" "r2", entry "a" "r1"]⟩ }
    let q : Program :=
      { body := [save "v1" "r7" "b", save "v2" "r9" "b"], results := ⟨[entry "a" "r7", entry "b" "r9"]⟩ }
    p.DistinctTags ∧ Equivalent p p.canonical ∧ Equivalent p q := by
  intro save entry p q
  have hp : p.DistinctTags := by decide
  have h := canonical_decides_equivalence p q hp
  exact ⟨hp, h.1, h.2.1.mp (by cbv)⟩

end Qua.Program
