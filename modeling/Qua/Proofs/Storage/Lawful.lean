import Qua.Proofs.Storage.Forms
import Qua.Storage.Program

/-!
# Lawfully stored types

Every type of which a program is made is lawfully stored. Records follow their fields, choices their
index; of expressions, stream tokens and statements, whose readers take fuel for the depth of their
nesting, this is an induction on the fuel.
-/

namespace Qua

open Stored (write read variant readVariant writeCounted readCounted writeChoice readChoice)

-- ---------------------------------------------------------------------------
-- Bytes, words and containers
-- ---------------------------------------------------------------------------

instance : LawfulStored UInt8 where
  forms := Forms.byte _

/-- A number of a type of words is stored as the word of the given width. -/
theorem Forms.ofWord (toWord : α → Nat) {ofWord : Nat → α} (hlt : ∀ x, toWord x < 256 ^ width)
    (hof : ∀ x, ofWord (toWord x) = x) (hto : ∀ n < 256 ^ width, toWord (ofWord n) = n) (limit : Nat) :
    Forms limit (do
      let n ← Reader.word width
      return ofWord n) fun x bs => bs = wordBytes width (toWord x) := by
  refine ((Forms.word limit width).bind fun n => Forms.pure limit (ofWord n)).congr fun x bs => ?_
  constructor
  · rintro ⟨n, _, _, ⟨hn, rfl⟩, ⟨rfl, rfl⟩, rfl⟩
    rw [hto n hn, List.append_nil]
  · rintro rfl
    exact ⟨toWord x, _, [], ⟨hlt x, rfl⟩, ⟨(hof x).symm, rfl⟩, by simp⟩

instance : LawfulStored UInt64 where
  forms := Forms.ofWord UInt64.toNat UInt64.toNat_lt (fun _ => UInt64.ofNat_toNat)
    (fun _ hn => UInt64.toNat_ofNat_of_lt hn) _

instance : LawfulStored Int32 where
  forms := Forms.ofWord (fun n : Int32 => n.toUInt32.toNat) (fun n => n.toUInt32.toNat_lt)
    (fun n => by simp) (fun n hn => by simpa using hn) _

instance : LawfulStored Int64 where
  forms := Forms.ofWord (fun n : Int64 => n.toUInt64.toNat) (fun n => n.toUInt64.toNat_lt)
    (fun n => by simp) (fun n hn => by simpa using hn) _

instance : LawfulStored Binary64 where
  forms := (Forms.read_bind le_rfl fun bits : UInt64 => .pure _ (⟨bits⟩ : Binary64)).congr
    fun ⟨bits⟩ bs => by simp [write]

/-- A byte that says what follows it. -/
theorem Forms.tagged {k : UInt8 → Reader α} {w : α → List UInt8}
    (h : ∀ tag, Forms limit (k tag) fun x bs => w x = tag :: bs) (hw : ∀ x, w x ≠ []) :
    Forms limit (Reader.byte >>= k) fun x bs => bs = w x := by
  refine ((Forms.byte limit).bind h).congr fun x bs => ?_
  constructor
  · rintro ⟨tag, _, rest, rfl, hx, rfl⟩
    exact hx.symm
  · rintro rfl
    obtain ⟨tag, rest, hx⟩ := List.exists_cons_of_ne_nil (hw x)
    exact ⟨tag, [tag], rest, rfl, hx, by simp [hx]⟩

instance : LawfulStored Bool where
  forms := by
    refine Forms.tagged (fun tag => ?_) fun b => by simp [write]
    split
    · exact (Forms.pure _ false).congr fun b bs => by cases b <;> simp [write, eq_comm]
    · exact (Forms.pure _ true).congr fun b bs => by cases b <;> simp [write, eq_comm]
    · next h0 h1 => exact (Forms.fail _).congr fun b bs => by cases b <;> simp [write, Ne.symm h0, Ne.symm h1]

instance [Stored α] [LawfulStored α] : LawfulStored (Option α) where
  forms := by
    refine Forms.tagged (fun tag => ?_) fun x => by cases x <;> simp [write]
    split
    · exact (Forms.pure _ none).congr fun x bs => by cases x <;> simp [write, eq_comm]
    · exact (LawfulStored.forms.map some).congr fun x bs => by cases x <;> simp [write, eq_comm]
    · next h0 h1 => exact (Forms.fail _).congr fun x bs => by cases x <;> simp [write, Ne.symm h0, Ne.symm h1]

instance [Stored α] [LawfulStored α] [TakesBytes α] : LawfulStored (List α) where
  forms := LawfulStored.forms.counted TakesBytes.write_ne_nil le_rfl

theorem ofUTF8_eq_some_iff {bs : List UInt8} {s : String} :
    String.fromUTF8? ⟨bs.toArray⟩ = some s ↔ bs = utf8Bytes s := by
  constructor
  · intro h
    unfold String.fromUTF8? at h
    split at h
    · obtain rfl := Option.some.inj h
      rfl
    · contradiction
  · rintro rfl
    exact dif_pos s.isValidUTF8

theorem length_utf8Bytes (s : String) : (utf8Bytes s).length = s.utf8ByteSize := rfl

instance : LawfulStored String where
  forms := by
    let decoded (bytes : List UInt8) : Reader String :=
      match String.fromUTF8? ⟨bytes.toArray⟩ with
      | some s => pure s
      | none => Reader.fail
    have hdecoded (bytes : List UInt8) :
        Forms Stored.limit (decoded bytes) fun s bs => bytes = utf8Bytes s ∧ bs = [] := by
      simp only [decoded]
      split
      · next s hs => exact (Forms.pure _ s).congr fun t bs => by simp [← ofUTF8_eq_some_iff, hs, eq_comm]
      · next hs => exact (Forms.fail _).congr fun t bs => by simp [← ofUTF8_eq_some_iff, hs]
    have h := (Forms.word Stored.limit 8).bind fun n => (Forms.bytes _ n).bind hdecoded
    constructor
    · rintro s bs rfl hb rest
      refine h.reads ⟨s.utf8ByteSize, _, _, ⟨?_, rfl⟩,
        ⟨utf8Bytes s, _, [], ⟨rfl, length_utf8Bytes s⟩, ⟨rfl, rfl⟩, rfl⟩, ?_⟩ hb rest
      · simp only [write, writeCounted, List.length_append, length_wordBytes, length_utf8Bytes] at hb
        exact Nat.lt_of_le_of_lt (by omega) hb
      · simp [write, writeCounted]
    · intro input s rest hr
      obtain ⟨_, ⟨_, _, _, ⟨-, rfl⟩, ⟨_, _, _, ⟨rfl, rfl⟩, ⟨rfl, rfl⟩, rfl⟩, rfl⟩, rfl⟩ := h.taken hr
      exact ⟨write s, rfl, by simp [write, writeCounted, length_utf8Bytes]⟩

instance : TakesBytes String where
  write_ne_nil s := by simp [write, writeCounted, wordBytes]

instance : TakesBytes Int64 where
  write_ne_nil n := by simp [write, wordBytes]

-- ---------------------------------------------------------------------------
-- Choices without content
-- ---------------------------------------------------------------------------

theorem Forms.readChoice [BEq α] [LawfulBEq α] {choices : List α} (hall : ∀ x, x ∈ choices)
    (hnodup : choices.Nodup) (hlen : choices.length ≤ 256 ^ 4) (limit : Nat) :
    Forms limit (Stored.readChoice choices) fun x bs => bs = writeChoice choices x := by
  have hk (n : Nat) : Forms limit (choices[n]?.elim Reader.fail Pure.pure)
      fun x bs => choices[n]? = some x ∧ bs = [] := by
    cases h : choices[n]? with
    | some choice => exact (Forms.pure limit choice).congr fun x bs => by simp [eq_comm]
    | none => exact (Forms.fail limit).congr fun x bs => by simp
  have hread : Stored.readChoice choices =
      Stored.readVariant >>= fun n => choices[n]?.elim Reader.fail Pure.pure := by
    unfold Stored.readChoice
    congr 1
    funext n
    cases choices[n]? <;> rfl
  rw [hread]
  refine ((Forms.word limit 4).bind hk).congr fun x bs => ?_
  constructor
  · rintro ⟨n, _, _, ⟨hn, rfl⟩, ⟨hx, rfl⟩, rfl⟩
    obtain ⟨hlt, rfl⟩ := List.getElem?_eq_some_iff.mp hx
    rw [writeChoice, hnodup.idxOf_getElem, List.append_nil, variant]
  · rintro rfl
    have hlt := List.idxOf_lt_length_of_mem (hall x)
    exact ⟨choices.idxOf x, _, [], ⟨by omega, rfl⟩,
      ⟨List.getElem?_eq_some_iff.mpr ⟨hlt, List.getElem_idxOf hlt⟩, rfl⟩, by simp [writeChoice, variant]⟩

instance : LawfulStored Register where
  forms := .readChoice (by rintro (_ | _) <;> decide) (by decide) (by decide) _

instance : LawfulStored BinaryOperator where
  forms := .readChoice (fun x => by cases x <;> decide) (by decide) (by decide) _

instance : LawfulStored Library where
  forms := .readChoice (fun x => by cases x <;> decide) (by decide) (by decide) _

instance : LawfulStored AnalogKind where
  forms := .readChoice (fun x => by cases x <;> decide) (by decide) (by decide) _

instance : LawfulStored TimeTaggingKind where
  forms := .readChoice (fun x => by cases x <;> decide) (by decide) (by decide) _

instance : LawfulStored ChirpUnits where
  forms := .readChoice (fun x => by cases x <;> decide) (by decide) (by decide) _

instance : LawfulStored FrequencyUnits where
  forms := .readChoice (fun x => by cases x <;> decide) (by decide) (by decide) _

instance : LawfulStored ScalarType where
  forms := .readChoice (fun x => by cases x <;> decide) (by decide) (by decide) _

instance : LawfulStored SaveKind where
  forms := .readChoice (fun x => by cases x <;> decide) (by decide) (by decide) _

-- ---------------------------------------------------------------------------
-- Literals, expressions and stream tokens
-- ---------------------------------------------------------------------------

theorem startsBelow_literal (x : Literal) : StartsBelow 3 (write x) := by
  cases x <;> exact .variant (by decide) _

instance : LawfulStored Literal where
  forms := by
    refine Forms.storedChoice startsBelow_literal (by decide) fun n hn => ?_
    split
    · exact (LawfulStored.forms.map Literal.int).congr fun x bs => by
        cases x <;> simp [write, variant_append_inj]
    · exact (LawfulStored.forms.map Literal.bool).congr fun x bs => by
        cases x <;> simp [write, variant_append_inj]
    · exact (LawfulStored.forms.map Literal.fixed).congr fun x bs => by
        cases x <;> simp [write, variant_append_inj]
    · exact .unknown startsBelow_literal (by grind) hn

instance : TakesBytes Literal where
  write_ne_nil x := (startsBelow_literal x).ne_nil

theorem startsBelow_variable (x : Variable) : StartsBelow 2 (write x) := by
  cases x <;> exact .variant (by decide) _

instance : LawfulStored Variable where
  forms := by
    refine Forms.storedChoice startsBelow_variable (by decide) fun n hn => ?_
    split
    · exact (LawfulStored.forms.map Variable.named).congr fun x bs => by
        cases x <;> simp [write, variant_append_inj]
    · exact (LawfulStored.forms.map Variable.io).congr fun x bs => by
        cases x <;> simp [write, variant_append_inj]
    · exact .unknown startsBelow_variable (by grind) hn

namespace Expression

theorem bytesOfAll_eq (es : List Expression) : bytesOfAll es = es.flatMap bytes := by
  induction es with
  | nil => rfl
  | cons e es ih => rw [bytesOfAll, ih, List.flatMap_cons]

theorem startsBelow_bytes (e : Expression) : StartsBelow 7 e.bytes := by
  cases e <;> simp only [bytes, List.append_assoc] <;> exact .variant (by decide) _

/-- An expression of fewer bytes than the fuel is read. -/
theorem forms_ofBytes (fuel : Nat) :
    Forms (min fuel Stored.limit) (ofBytes fuel) fun e bs => bs = e.bytes := by
  induction fuel with
  | zero => exact Forms.empty.mono (by simp)
  | succ fuel ih =>
    have hl : min fuel Stored.limit ≤ Stored.limit := Nat.min_le_right _ _
    refine (Forms.choice startsBelow_bytes (by decide) fun n hn => ?_).mono
      (by omega : min (fuel + 1) Stored.limit ≤ min fuel Stored.limit + 1)
    split
    · exact ((Forms.stored hl).map Expression.var).congr fun e bs => by
        cases e <;> simp [bytes, variant_append_inj]
    · exact ((Forms.stored hl).map Expression.array).congr fun e bs => by
        cases e <;> simp [bytes, variant_append_inj]
    · exact (Forms.read_bind hl fun array => ih.bind fun index =>
        .pure _ (Expression.cell array index)).congr fun e bs => by
        cases e <;> simp [bytes, variant_append_inj]
    · exact ((Forms.stored hl).map Expression.literal).congr fun e bs => by
        cases e <;> simp [bytes, variant_append_inj]
    · exact (Forms.read_bind hl fun operator => ih.bind fun left => ih.bind fun right =>
        .pure _ (Expression.binary operator left right)).congr fun e bs => by
        cases e <;> simp [bytes, variant_append_inj]
    · exact (Forms.read_bind hl fun library => .read_bind hl fun function =>
        (ih.counted (fun e => (startsBelow_bytes e).ne_nil) hl).bind fun arguments =>
          .pure _ (Expression.call library function arguments)).congr fun e bs => by
        cases e <;> simp [bytes, variant_append_inj, bytesOfAll_eq]
    · exact ((Forms.stored hl).map Expression.length).congr fun e bs => by
        cases e <;> simp [bytes, variant_append_inj]
    · exact .unknown startsBelow_bytes (by grind) hn

instance : LawfulStored Expression where
  forms := Forms.fueled forms_ofBytes

instance : TakesBytes Expression where
  write_ne_nil e := (startsBelow_bytes e).ne_nil

end Expression

namespace StreamToken

theorem bytesOfItems_eq (items : List StreamToken) : bytesOfItems items = items.flatMap bytes := by
  induction items with
  | nil => rfl
  | cons token items ih => rw [bytesOfItems, ih, List.flatMap_cons]

theorem startsBelow_bytes (token : StreamToken) : StartsBelow 2 token.bytes := by
  cases token <;> simp only [bytes] <;> exact .variant (by decide) _

/-- A token of fewer bytes than the fuel is read. -/
theorem forms_ofBytes (fuel : Nat) :
    Forms (min fuel Stored.limit) (ofBytes fuel) fun token bs => bs = token.bytes := by
  induction fuel with
  | zero => exact Forms.empty.mono (by simp)
  | succ fuel ih =>
    have hl : min fuel Stored.limit ≤ Stored.limit := Nat.min_le_right _ _
    refine (Forms.choice startsBelow_bytes (by decide) fun n hn => ?_).mono
      (by omega : min (fuel + 1) Stored.limit ≤ min fuel Stored.limit + 1)
    split
    · exact ((Forms.stored hl).map StreamToken.atom).congr fun token bs => by
        cases token <;> simp [bytes, variant_append_inj]
    · exact ((ih.counted (fun token => (startsBelow_bytes token).ne_nil) hl).map StreamToken.list).congr
        fun token bs => by
        cases token <;> simp [bytes, variant_append_inj, bytesOfItems_eq]
    · exact .unknown startsBelow_bytes (by grind) hn

instance : LawfulStored StreamToken where
  forms := Forms.fueled forms_ofBytes

end StreamToken

-- ---------------------------------------------------------------------------
-- Measure processes
-- ---------------------------------------------------------------------------

theorem startsBelow_weights (x : IntegrationWeights) : StartsBelow 2 (write x) := by
  cases x <;> simp only [write, List.append_assoc] <;> exact .variant (by decide) _

instance : LawfulStored IntegrationWeights where
  forms := by
    refine Forms.storedChoice startsBelow_weights (by decide) fun n hn => ?_
    split
    · exact (Forms.read_bind le_rfl fun weights => .read_bind le_rfl fun output =>
        .pure _ (IntegrationWeights.single weights output)).congr fun x bs => by
        cases x <;> simp [write, variant_append_inj]
    · exact (Forms.read_bind le_rfl fun weights1 => .read_bind le_rfl fun output1 =>
        .read_bind le_rfl fun weights2 => .read_bind le_rfl fun output2 =>
          .pure _ (IntegrationWeights.dual weights1 output1 weights2 output2)).congr fun x bs => by
        cases x <;> simp [write, variant_append_inj]
    · exact .unknown startsBelow_weights (by grind) hn

theorem startsBelow_target (x : ProcessTarget) : StartsBelow 4 (write x) := by
  cases x <;> simp only [write, List.append_assoc] <;> exact .variant (by decide) _

instance : LawfulStored ProcessTarget where
  forms := by
    refine Forms.storedChoice startsBelow_target (by decide) fun n hn => ?_
    split
    · exact (Forms.read_bind le_rfl fun target => .pure _ (ProcessTarget.full target)).congr fun x bs => by
        cases x <;> simp [write, variant_append_inj]
    · exact (Forms.read_bind le_rfl fun array => .read_bind le_rfl fun samples =>
        .pure _ (ProcessTarget.sliced array samples)).congr fun x bs => by
        cases x <;> simp [write, variant_append_inj]
    · exact (Forms.read_bind le_rfl fun array => .read_bind le_rfl fun samples =>
        .pure _ (ProcessTarget.accumulated array samples)).congr fun x bs => by
        cases x <;> simp [write, variant_append_inj]
    · exact (Forms.read_bind le_rfl fun array => .read_bind le_rfl fun samples =>
        .read_bind le_rfl fun chunks => .pure _ (ProcessTarget.movingWindow array samples chunks)).congr
        fun x bs => by
        cases x <;> simp [write, variant_append_inj]
    · exact .unknown startsBelow_target (by grind) hn

instance : LawfulStored AnalogProcess where
  forms := (Forms.read_bind le_rfl fun kind => .read_bind le_rfl fun weights => .read_bind le_rfl
    fun target => .pure _ (AnalogProcess.mk kind weights target)).congr fun ⟨_, _, _⟩ bs => by
    simp [write, and_assoc]

instance : LawfulStored TimeTagging where
  forms := (Forms.read_bind le_rfl fun kind => .read_bind le_rfl fun target => .read_bind le_rfl
    fun targetLength => .read_bind le_rfl fun maxTime => .read_bind le_rfl fun output =>
      .pure _ (TimeTagging.mk kind target targetLength maxTime output)).congr fun ⟨_, _, _, _, _⟩ bs => by
    simp [write, and_assoc]

instance : LawfulStored Counting where
  forms := (Forms.read_bind le_rfl fun outputs => .read_bind le_rfl fun target => .read_bind le_rfl
    fun maxTime => .pure _ (Counting.mk outputs target maxTime)).congr fun ⟨_, _, _⟩ bs => by
    simp [write, and_assoc]

theorem startsBelow_process (x : MeasureProcess) : StartsBelow 3 (write x) := by
  cases x <;> exact .variant (by decide) _

instance : LawfulStored MeasureProcess where
  forms := by
    refine Forms.storedChoice startsBelow_process (by decide) fun n hn => ?_
    split
    · exact (Forms.read_bind le_rfl fun process => .pure _ (MeasureProcess.analog process)).congr
        fun x bs => by
        cases x <;> simp [write, variant_append_inj]
    · exact (Forms.read_bind le_rfl fun process => .pure _ (MeasureProcess.timeTagging process)).congr
        fun x bs => by
        cases x <;> simp [write, variant_append_inj]
    · exact (Forms.read_bind le_rfl fun process => .pure _ (MeasureProcess.counting process)).congr
        fun x bs => by
        cases x <;> simp [write, variant_append_inj]
    · exact .unknown startsBelow_process (by grind) hn

instance : TakesBytes MeasureProcess where
  write_ne_nil x := (startsBelow_process x).ne_nil

end Qua
