import Qua.Proofs.Storage.Lawful

/-!
# The binary form of programs

A program is stored in bytes that say themselves where they end, and in one way only. Main statement:
`Program.serialize_selfDelimiting`.
-/

namespace Qua

open Stored (write read variant readVariant writeCounted readCounted)

-- ---------------------------------------------------------------------------
-- Actions
-- ---------------------------------------------------------------------------

instance : LawfulStored Matrix where
  forms := (Forms.read_bind le_rfl fun c00 => .read_bind le_rfl fun c01 => .read_bind le_rfl fun c10 =>
    .read_bind le_rfl fun c11 => .pure _ (Matrix.mk c00 c01 c10 c11)).congr fun ⟨_, _, _, _⟩ bs => by
    simp [write, and_assoc]

theorem startsBelow_pulse (x : Pulse) : StartsBelow 2 (write x) := by
  cases x <;> exact .variant (by decide) _

instance : LawfulStored Pulse where
  forms := by
    refine Forms.storedChoice startsBelow_pulse (by decide) fun n hn => ?_
    split
    · exact (Forms.read_bind le_rfl fun name => .pure _ (Pulse.named name)).congr fun x bs => by
        cases x <;> simp [write, variant_append_inj]
    · exact (Forms.read_bind le_rfl fun rate => .pure _ (Pulse.ramp rate)).congr fun x bs => by
        cases x <;> simp [write, variant_append_inj]
    · exact .unknown startsBelow_pulse (by grind) hn

theorem startsBelow_amp (x : Amp) : StartsBelow 2 (write x) := by
  cases x <;> exact .variant (by decide) _

instance : LawfulStored Amp where
  forms := by
    refine Forms.storedChoice startsBelow_amp (by decide) fun n hn => ?_
    split
    · exact (Forms.read_bind le_rfl fun value => .pure _ (Amp.scalar value)).congr fun x bs => by
        cases x <;> simp [write, variant_append_inj]
    · exact (Forms.read_bind le_rfl fun values => .pure _ (Amp.matrix values)).congr fun x bs => by
        cases x <;> simp [write, variant_append_inj]
    · exact .unknown startsBelow_amp (by grind) hn

instance : LawfulStored Chirp where
  forms := (Forms.read_bind le_rfl fun rate => .read_bind le_rfl fun times => .read_bind le_rfl
    fun units => .read_bind le_rfl fun continues => .pure _ (Chirp.mk rate times units continues)).congr
    fun ⟨_, _, _, _⟩ bs => by
    simp [write, and_assoc]

instance : LawfulStored Play where
  forms := (Forms.read_bind le_rfl fun pulse => .read_bind le_rfl fun element => .read_bind le_rfl
    fun amp => .read_bind le_rfl fun duration => .read_bind le_rfl fun condition => .read_bind le_rfl
    fun target => .read_bind le_rfl fun chirp => .read_bind le_rfl fun truncate => .read_bind le_rfl
    fun timestampStream => .pure _ (Play.mk pulse element amp duration condition target chirp truncate
      timestampStream)).congr fun ⟨_, _, _, _, _, _, _, _, _⟩ bs => by
    simp [write, and_assoc]

instance : LawfulStored Measure where
  forms := (Forms.read_bind le_rfl fun pulse => .read_bind le_rfl fun element => .read_bind le_rfl
    fun amp => .read_bind le_rfl fun stream => .read_bind le_rfl fun processes => .read_bind le_rfl
    fun timestampStream => .pure _ (Measure.mk pulse element amp stream processes timestampStream)).congr
    fun ⟨_, _, _, _, _, _⟩ bs => by
    simp [write, and_assoc]

instance : LawfulStored TriggerElement where
  forms := (Forms.read_bind le_rfl fun element => .read_bind le_rfl fun output =>
    .pure _ (TriggerElement.mk element output)).congr fun ⟨_, _⟩ bs => by
    simp [write, and_assoc]

instance : LawfulStored WaitForTrigger where
  forms := (Forms.read_bind le_rfl fun elements => .read_bind le_rfl fun pulse => .read_bind le_rfl
    fun trigger => .read_bind le_rfl fun target =>
      .pure _ (WaitForTrigger.mk elements pulse trigger target)).congr fun ⟨_, _, _, _⟩ bs => by
    simp [write, and_assoc]

namespace Action

theorem index_lt (a : Action) : a.index < 17 := by cases a <;> simp [index]

/-- What follows the index of an action is its content. -/
theorem forms_ofContent (hl : limit ≤ Stored.limit) (n : Nat) :
    Forms limit (ofContent n) fun a bs => a.index = n ∧ bs = a.content := by
  unfold ofContent
  split
  · exact (Forms.read_bind hl fun p => .pure _ (play p)).congr fun a bs => by
      cases a <;> simp [index, content]
  · exact (Forms.read_bind hl fun m => .pure _ (measure m)).congr fun a bs => by
      cases a <;> simp [index, content]
  · exact (Forms.read_bind hl fun duration => .read_bind hl fun elements =>
      .pure _ (wait duration elements)).congr fun a bs => by
      cases a <;> simp [index, content]
  · exact (Forms.read_bind hl fun elements => .pure _ (align elements)).congr fun a bs => by
      cases a <;> simp [index, content]
  · exact (Forms.read_bind hl fun target => .read_bind hl fun value =>
      .pure _ (assign target value)).congr fun a bs => by
      cases a <;> simp [index, content]
  · exact (Forms.read_bind hl fun source => .read_bind hl fun stream =>
      .pure _ (save source stream)).congr fun a bs => by
      cases a <;> simp [index, content]
  · exact (Forms.pure _ pause).congr fun a bs => by
      cases a <;> simp [index, content]
  · exact (Forms.read_bind hl fun element => .read_bind hl fun value => .read_bind hl fun units =>
      .read_bind hl fun keepPhase => .pure _ (updateFrequency element value units keepPhase)).congr
      fun a bs => by
      cases a <;> simp [index, content, and_assoc]
  · exact (Forms.read_bind hl fun element => .read_bind hl fun correction =>
      .pure _ (updateCorrection element correction)).congr fun a bs => by
      cases a <;> simp [index, content]
  · exact (Forms.read_bind hl fun element => .read_bind hl fun input => .read_bind hl fun offset =>
      .pure _ (setDcOffset element input offset)).congr fun a bs => by
      cases a <;> simp [index, content]
  · exact (Forms.read_bind hl fun stream => .pure _ (advanceInputStream stream)).congr fun a bs => by
      cases a <;> simp [index, content]
  · exact (Forms.read_bind hl fun element => .pure _ (resetPhase element)).congr fun a bs => by
      cases a <;> simp [index, content]
  · exact (Forms.read_bind hl fun element => .pure _ (resetFrame element)).congr fun a bs => by
      cases a <;> simp [index, content]
  · exact (Forms.read_bind hl fun angle => .read_bind hl fun element =>
      .pure _ (zRotation angle element)).congr fun a bs => by
      cases a <;> simp [index, content]
  · exact (Forms.read_bind hl fun element => .read_bind hl fun duration =>
      .pure _ (rampToZero element duration)).congr fun a bs => by
      cases a <;> simp [index, content]
  · exact (Forms.read_bind hl fun cosine => .read_bind hl fun sine => .read_bind hl fun element =>
      .pure _ (fastFrameRotation cosine sine element)).congr fun a bs => by
      cases a <;> simp [index, content]
  · exact (Forms.read_bind hl fun w => .pure _ (waitForTrigger w)).congr fun a bs => by
      cases a <;> simp [index, content]
  · exact (Forms.fail _).congr fun a bs => by
      cases a <;> simp [index] <;> grind

end Action

-- ---------------------------------------------------------------------------
-- Statements
-- ---------------------------------------------------------------------------

instance : LawfulStored Iterator where
  forms := (Forms.read_bind le_rfl fun variableName => .read_bind le_rfl fun array =>
    .pure _ (Iterator.mk variableName array)).congr fun ⟨_, _⟩ bs => by
    simp [write, and_assoc]

instance : TakesBytes Iterator where
  write_ne_nil x := by simp [write, writeCounted, wordBytes]

namespace Statement

/-- The bytes of a branch. -/
def branchBytes (branch : Branch Statement) : List UInt8 :=
  write branch.condition ++ writeCounted branch.body.length (branch.body.flatMap bytes)
    ++ write branch.location

theorem bytesOfBlock_eq (block : List Statement) : bytesOfBlock block = block.flatMap bytes := by
  induction block with
  | nil => rfl
  | cons s block ih => rw [bytesOfBlock, ih, List.flatMap_cons]

theorem bytesOfBranches_eq (branches : List (Branch Statement)) :
    bytesOfBranches branches = branches.flatMap branchBytes := by
  induction branches with
  | nil => rfl
  | cons branch branches ih =>
    rw [bytesOfBranches, ih, List.flatMap_cons, bytesOfBlock_eq, branchBytes]

theorem branchBytes_ne_nil (branch : Branch Statement) : branchBytes branch ≠ [] := by
  have := TakesBytes.write_ne_nil branch.condition
  simp [branchBytes, this]

theorem startsBelow_bytes (s : Statement) : StartsBelow 21 s.bytes := by
  cases s with
  | action a l =>
    rw [bytes, List.append_assoc]
    exact .variant (Nat.lt_of_lt_of_le a.index_lt (by decide)) _
  | _ => simp only [bytes, List.append_assoc]; exact .variant (by decide) _

theorem variant_append_action (hn : n < 256 ^ 4) {bs : List UInt8} :
    variant n ++ bs = (action a l).bytes ↔ n = a.index ∧ bs = a.content ++ write l := by
  rw [bytes, List.append_assoc]
  exact variant_append_inj hn (Nat.lt_trans a.index_lt (by decide))

/-- The index of a block is that of no action. -/
theorem not_variant_append_action (hn : n < 256 ^ 4) (hb : 17 ≤ n) {bs : List UInt8} :
    ¬ variant n ++ bs = (action a l).bytes := by
  rw [variant_append_action hn]
  have := a.index_lt
  omega

theorem forms_readBranch {r : Reader Statement} (hl : limit ≤ Stored.limit)
    (h : Forms limit (readCounted r) fun block bs => bs = writeCounted block.length (block.flatMap bytes)) :
    Forms limit (readBranch r) fun branch bs => bs = branchBytes branch :=
  (Forms.read_bind hl fun condition => h.bind fun body => .read_bind hl fun l =>
    .pure _ (Branch.mk condition body l)).congr fun ⟨_, _, _⟩ bs => by
    simp [branchBytes, and_assoc]

theorem forms_readOtherwise {r : Reader Statement}
    (h : Forms limit (readCounted r) fun block bs => bs = writeCounted block.length (block.flatMap bytes)) :
    Forms limit (readOtherwise r) fun otherwise bs => bs = bytesOfOtherwise otherwise := by
  refine Forms.tagged (fun tag => ?_) fun x => by cases x <;> simp [bytesOfOtherwise]
  split
  · exact (Forms.pure _ none).congr fun x bs => by cases x <;> simp [bytesOfOtherwise, eq_comm]
  · exact (h.map some).congr fun x bs => by cases x <;> simp [bytesOfOtherwise, bytesOfBlock_eq, eq_comm]
  · next h0 h1 =>
    exact (Forms.fail _).congr fun x bs => by
      cases x <;> simp [bytesOfOtherwise, Ne.symm h0, Ne.symm h1]

/-- A statement of fewer bytes than the fuel is read. -/
theorem forms_ofBytes (fuel : Nat) :
    Forms (min fuel Stored.limit) (ofBytes fuel) fun s bs => bs = s.bytes := by
  induction fuel with
  | zero => exact Forms.empty.mono (by simp)
  | succ fuel ih =>
    have hl : min fuel Stored.limit ≤ Stored.limit := Nat.min_le_right _ _
    have hblock := ih.counted (fun s => (startsBelow_bytes s).ne_nil) hl
    have hbranches := (forms_readBranch hl hblock).counted branchBytes_ne_nil hl
    have hotherwise := forms_readOtherwise hblock
    refine (Forms.choice startsBelow_bytes (by decide) fun n hn => ?_).mono
      (by omega : min (fuel + 1) Stored.limit ≤ min fuel Stored.limit + 1)
    split
    · exact (Forms.read_bind hl fun c => .read_bind hl fun u => hblock.bind fun body =>
        hbranches.bind fun elifs => hotherwise.bind fun otherwise => .read_bind hl fun l =>
          .pure _ (conditional c u body elifs otherwise l)).congr fun s bs => by
        cases s with
        | action a l => simpa using not_variant_append_action hn (by decide)
        | _ => simp [bytes, variant_append_inj, bytesOfBlock_eq, bytesOfBranches_eq, and_assoc]
    · exact (hblock.bind fun init => .read_bind hl fun c => hblock.bind fun update =>
        hblock.bind fun body => .read_bind hl fun l => .pure _ (loop init c update body l)).congr fun s bs => by
        cases s with
        | action a l => simpa using not_variant_append_action hn (by decide)
        | _ => simp [bytes, variant_append_inj, bytesOfBlock_eq, and_assoc]
    · exact (Forms.read_bind hl fun iterators => hblock.bind fun body => .read_bind hl fun l =>
        .pure _ (forEach iterators body l)).congr fun s bs => by
        cases s with
        | action a l => simpa using not_variant_append_action hn (by decide)
        | _ => simp [bytes, variant_append_inj, bytesOfBlock_eq, and_assoc]
    · exact (hblock.bind fun body => .read_bind hl fun l => .pure _ (strictTiming body l)).congr
        fun s bs => by
        cases s with
        | action a l => simpa using not_variant_append_action hn (by decide)
        | _ => simp [bytes, variant_append_inj, bytesOfBlock_eq]
    · exact ((Action.forms_ofContent hl n).bind fun a => .read_bind hl fun l =>
        .pure _ (action a l)).congr fun s bs => by
        cases s with
        | action a l =>
          rw [variant_append_action hn]
          simp [eq_comm]
        | _ => simp [bytes, variant_append_inj hn]; grind

instance : LawfulStored Statement where
  forms := Forms.fueled forms_ofBytes

instance : TakesBytes Statement where
  write_ne_nil s := (startsBelow_bytes s).ne_nil

end Statement

-- ---------------------------------------------------------------------------
-- Programs
-- ---------------------------------------------------------------------------

instance : LawfulStored Declaration where
  forms := (Forms.read_bind le_rfl fun name => .read_bind le_rfl fun scalarType => .read_bind le_rfl
    fun size => .read_bind le_rfl fun dimension => .read_bind le_rfl fun isInputStream =>
    .read_bind le_rfl fun value => .pure _ (Declaration.mk name scalarType size dimension isInputStream
      value)).congr fun ⟨_, _, _, _, _, _⟩ bs => by
    simp [write, and_assoc]

instance : TakesBytes Declaration where
  write_ne_nil d := by simp [write, writeCounted, wordBytes]

instance : LawfulStored SaveEntry where
  forms := (Forms.read_bind le_rfl fun kind => .read_bind le_rfl fun tag => .read_bind le_rfl
    fun auto => .read_bind le_rfl fun pipeline => .pure _ (SaveEntry.mk kind tag auto pipeline)).congr
    fun ⟨_, _, _, _⟩ bs => by
    simp [write, and_assoc]

instance : TakesBytes SaveEntry where
  write_ne_nil entry := by simp [write, writeCounted, wordBytes]

instance : LawfulStored ResultAnalysis where
  forms := (Forms.read_bind le_rfl fun entries => .pure _ (ResultAnalysis.mk entries)).congr fun ⟨_⟩ bs => by
    simp [write]

instance : LawfulStored Metadata where
  forms := (Forms.read_bind le_rfl fun timestamps => .read_bind le_rfl fun rotation =>
    .pure _ (Metadata.mk timestamps rotation)).congr fun ⟨_, _⟩ bs => by
    simp [write, and_assoc]

instance : LawfulStored Program where
  forms := (Forms.read_bind le_rfl fun declarations => .read_bind le_rfl fun body => .read_bind le_rfl
    fun results => .read_bind le_rfl fun metadata =>
      .pure _ (Program.mk declarations body results metadata)).congr fun ⟨_, _, _, _⟩ bs => by
    simp [write, and_assoc]

namespace Program

/-- A program is read back from its bytes, whatever follows them. -/
theorem deserialize_append {p : Program} (hp : p.serialize.length < Stored.limit) (rest : List UInt8) :
    deserialize? (p.serialize ++ rest) = some p := by
  have hread := LawfulStored.forms.reads (x := p) rfl hp rest
  exact congrArg (Option.map Prod.fst) hread

/-- The bytes that are read as a program start with its own. -/
theorem serialize_prefix (h : deserialize? bs = some p) : p.serialize <+: bs := by
  obtain ⟨⟨q, rest⟩, hread, rfl⟩ := Option.map_eq_some_iff.mp h
  obtain ⟨bytes, rfl, rfl⟩ := LawfulStored.forms.taken hread
  exact ⟨rest, rfl⟩

/-- Bytes that end too early are not read. -/
theorem deserialize_truncated {p : Program} (hp : p.serialize.length < Stored.limit)
    (hb : bs <+: p.serialize) (hne : bs ≠ p.serialize) : deserialize? bs = none := by
  rw [Option.eq_none_iff_forall_ne_some]
  intro q hq
  have hqb := serialize_prefix hq
  -- with the bytes of `q` those of `p` start, so that the two are one program
  obtain ⟨rest, hrest⟩ := hqb.trans hb
  have hlength : q.serialize.length < Stored.limit := Nat.lt_of_le_of_lt (hqb.trans hb).length_le hp
  have hqp : some q = some p := by
    rw [← deserialize_append hlength rest, hrest]
    simpa using deserialize_append hp []
  obtain rfl := Option.some.inj hqp
  exact hne (hb.eq_of_length_le hqb.length_le)

/-- The bytes of a program say where they end: it is read from them whatever follows and from no part
of them. No other bytes are read as the program. That the bytes can be counted by a word of 64 bits
holds of all bytes that are stored anywhere. -/
theorem serialize_selfDelimiting (p : Program) :
    (p.serialize.length < Stored.limit →
      (∀ rest, deserialize? (p.serialize ++ rest) = some p) ∧
        ∀ bs, bs <+: p.serialize → bs ≠ p.serialize → deserialize? bs = none) ∧
      ∀ bs, deserialize? bs = some p → p.serialize <+: bs :=
  ⟨fun hp => ⟨deserialize_append hp, fun _ => deserialize_truncated hp⟩, fun _ => serialize_prefix⟩

/-- A loop over an array whose cells are compared with a negative zero, and a save that it fills. -/
def storedExample : Program where
  declarations := [⟨"a1", .fixed, 1, 1, false, [.fixed ⟨0x8000000000000000⟩]⟩]
  body := [.forEach [⟨"v1", "a1"⟩]
    [.conditional (.binary .lt (.cell "a1" (.var (.io .io1))) (.literal (.fixed ⟨0x8000000000000000⟩))) true
      [.action (.save (.named "v1") "r1") "script:6"] [⟨.bool false, [], "script:5"⟩] (some []) "script:5"]
    "script:4"]
  results := ⟨[⟨.saveAll, "ä", true, .list [.atom "@re", .atom "0", .atom "r1"]⟩]⟩
  metadata := { usesCommandTimestamps := true }

theorem serialize_selfDelimiting_loop :
    storedExample.serialize.length < Stored.limit ∧
      (∀ rest, deserialize? (storedExample.serialize ++ rest) = some storedExample) ∧
        deserialize? (storedExample.serialize.take 40) = none ∧
          ∀ bs, deserialize? bs = some storedExample → storedExample.serialize <+: bs := by
  have hp : storedExample.serialize.length < Stored.limit := by decide +kernel
  obtain ⟨hcounted, hprefix⟩ := serialize_selfDelimiting storedExample
  obtain ⟨hread, htruncated⟩ := hcounted hp
  exact ⟨hp, hread, htruncated _ (List.take_prefix _ _) (by decide +kernel), hprefix⟩

end Program
end Qua
