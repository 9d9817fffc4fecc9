import Qua.Proofs.Canonical
import Qua.Proofs.Replay.Sessions
import Qua.Proofs.Storage.Program

/-!
# Canonical forms of canonical forms

If no two saves share a tag, the canonical form of a program is its own canonical form: its streams are met
again in the order of their numbers, so that each gets the name it has. This holds of all programs of
sessions and scripts. A stored program may have saves that share a tag; these are numbered in the order in
which they stand, which sorting may change. Main statement: `Program.canonical_idempotent`.
-/

namespace Qua

open Statement (mapBlock)

/-- No two saves of a draft that a session has made share a tag. -/
theorem Draft.Reached.distinctTags {d : Draft} (h : d.Reached) : d.program.DistinctTags := by
  obtain ⟨events, hs⟩ := h
  have hkeeps := Session.run_keeps events {}
  rw [hs] at hkeeps
  exact hkeeps.distinct List.nodup_nil

namespace Program

variable {p : Program}

/-- A number that has been given is given again. -/
theorem canonicalName_canonical (hp : p.DistinctTags) (hn : name ∈ p.streamSet) :
    p.canonical.canonicalName (p.canonicalName name) = p.canonicalName name :=
  canonicalName_of_renames p.renames_canonical hp hn

theorem body_canonical_canonical (hp : p.DistinctTags) : p.canonical.canonical.body = p.canonical.body := by
  have hcomp : Action.mapStreams p.canonical.canonicalName ∘ Action.mapStreams p.canonicalName =
      Action.mapStreams (p.canonical.canonicalName ∘ p.canonicalName) :=
    funext fun a => a.mapStreams_mapStreams _ _
  change mapBlock (Action.mapStreams p.canonical.canonicalName) (fun _ => strippedLocation)
    (mapBlock (Action.mapStreams p.canonicalName) (fun _ => strippedLocation) p.body) = _
  rw [Statement.mapBlock_mapBlock, hcomp]
  exact Statement.mapBlock_congr _ _ fun name hn =>
    canonicalName_canonical hp (mem_streamSet.mpr (.inl hn))

theorem results_canonical_canonical (hp : p.DistinctTags) :
    p.canonical.canonical.results = p.canonical.results := by
  have hentries : p.canonical.entriesByTag.map (SaveEntry.mapSources p.canonical.canonicalName) =
      p.entriesByTag.map (SaveEntry.mapSources p.canonicalName) := by
    rw [entriesByTag_of_renames p.renames_canonical hp, List.map_map, mapSources_comp]
    refine List.map_congr_left fun entry he => ?_
    rw [SaveEntry.mapSources, SaveEntry.mapSources, StreamToken.mapSources_congr]
    exact fun name hn => canonicalName_canonical hp
      (mem_streamSet.mpr (.inr ⟨entry, p.perm_entriesByTag.mem_iff.mp he, hn⟩))
  change ResultAnalysis.mk ((p.canonical.entriesByTag.map _).mergeSort _) =
    ⟨(p.entriesByTag.map _).mergeSort _⟩
  exact congrArg (fun entries : List SaveEntry => ResultAnalysis.mk
    (entries.mergeSort fun a b => (a.compare b).isLE)) hentries

theorem canonical_canonical (hp : p.DistinctTags) : p.canonical.canonical = p.canonical := by
  change Program.mk p.declarations p.canonical.canonical.body p.canonical.canonical.results p.metadata =
    ⟨p.declarations, p.canonical.body, p.canonical.results, p.metadata⟩
  rw [body_canonical_canonical hp, results_canonical_canonical hp]

/-- The tags of the program of a script are distinct. -/
theorem ofScript_distinctTags (h : ofScript script = .ok p) : p.DistinctTags := by
  obtain ⟨d, hd, rfl⟩ := ofScript_reached h
  exact hd.distinctTags

/-- Canonicalizing is idempotent on programs whose tags are distinct, and so on what sessions and scripts
build. -/
theorem canonical_idempotent (p : Program)
    (hp : p.DistinctTags ∨ (∃ d : Draft, d.Reached ∧ d.program = p) ∨ ∃ script, ofScript script = .ok p) :
    p.canonical.canonical = p.canonical := by
  obtain hp | ⟨d, hd, rfl⟩ | ⟨script, hscript⟩ := hp
  · exact canonical_canonical hp
  · exact canonical_canonical hd.distinctTags
  · exact canonical_canonical (ofScript_distinctTags hscript)

/-- Two saves of one tag, which the order of the kinds exchanges. -/
def sharedTag : Program :=
  let entry (kind : SaveKind) (stream : String) : SaveEntry :=
    ⟨kind, "t", false, .list [.atom "@re", .atom "0", .atom stream]⟩
  { results := ⟨[entry .saveAll "r5", entry .save "r6"]⟩ }

/-- A program whose saves share a tag can be stored and read, and canonicalizing it twice gives other names
than canonicalizing it once. -/
theorem canonical_not_idempotent : deserialize? sharedTag.serialize = some sharedTag ∧
    ¬(sharedTag.canonical.canonical == sharedTag.canonical) = true := by
  have hchanged : (sharedTag.canonical.canonical == sharedTag.canonical) = false := by cbv
  refine ⟨?_, by simp [hchanged]⟩
  have hlength : sharedTag.serialize.length < Stored.limit := by decide +kernel
  simpa using deserialize_append hlength []

/-- Two streams that only saves read, registered in the other order. -/
theorem canonical_idempotent_swapped :
    let entry (tag stream : String) : SaveEntry :=
      ⟨.save, tag, false, .list [.atom "@re", .atom "0", .atom stream]⟩
    let p : Program := { results := ⟨[entry "b" "r1", entry "a" "atr_r2"]⟩ }
    p.DistinctTags ∧ p.canonical.results = ⟨[entry "a" "atr_r0", entry "b" "r1"]⟩ ∧
      p.canonical.canonical = p.canonical := by
  intro entry p
  have hp : p.DistinctTags := by decide
  exact ⟨hp, by cbv, canonical_idempotent p (.inl hp)⟩

end Program
end Qua
