import Qua.Build.Declare
import Qua.Proofs.Numbering
import Qua.Proofs.Script.Scanning

/-!
# Names that are handed out

Variables, arrays and streams are named by a stem and a number, input streams by a prefix and a name of
the script's own. All of these can be written, no two of them clash, and they hide nothing that a script
calls.
-/

namespace Qua

open Text (withoutTrailingDigits IsIdentifier)

/-- What numbered names start with. -/
def numberedStems : List String := ["v", "a", "r", ResultSource.tracePrefix ++ "r"]

/-- Whether a session can hand out the name. -/
def isAllocated (name : String) : Bool :=
  Text.startsWith inputStreamPrefix name || numberedStems.contains (withoutTrailingDigits name)

theorem withoutTrailingDigits_numbered (h : stem ∈ numberedStems) (n : Nat) :
    withoutTrailingDigits (stem ++ toString n) = stem := by
  have hstem : ∀ stem ∈ numberedStems, withoutTrailingDigits stem = stem := by decide
  have happend := Text.withoutTrailingDigits_append stem n
  rwa [hstem stem h] at happend

theorem isAllocated_numbered (h : stem ∈ numberedStems) (n : Nat) :
    isAllocated (stem ++ toString n) = true := by
  rw [isAllocated, withoutTrailingDigits_numbered h]
  simp [h]

theorem startsWith_append (p s : String) : Text.startsWith p (p ++ s) = true := by
  simp [Text.startsWith]

theorem isAllocated_inputStream (stream : String) : isAllocated (inputStreamPrefix ++ stream) = true := by
  rw [isAllocated, startsWith_append]
  rfl

/-- Numbered names differ if their stems or their numbers do. -/
theorem numbered_injective {n n' : Nat} (h : stem ∈ numberedStems) (h' : stem' ∈ numberedStems)
    (he : stem ++ toString n = stem' ++ toString n') : stem = stem' ∧ n = n' := by
  have hstem : stem = stem' := by
    rw [← withoutTrailingDigits_numbered h n, he, withoutTrailingDigits_numbered h']
  subst hstem
  exact ⟨rfl, by simpa using he⟩

/-- Numbered names are not those of input streams. -/
theorem numbered_ne_inputStream (h : stem ∈ numberedStems) (n : Nat) (stream : String) :
    stem ++ toString n ≠ inputStreamPrefix ++ stream := by
  intro he
  have hhead := congrArg (fun s : String => s.toList.head?) he
  have hstems : ∀ stem ∈ numberedStems, stem.toList.head?.any (· ≠ 'i') = true := by decide
  have hany := hstems stem h
  have hprefix : inputStreamPrefix.toList = 'i' :: "nput_stream_".toList := rfl
  simp only [String.toList_append, List.head?_append, hprefix, List.head?_cons, Option.some_or] at hhead
  cases hs : stem.toList.head? with
  | none => simp [hs] at hany
  | some c =>
    rw [hs, Option.some_or, Option.some.injEq] at hhead
    simp [hs, hhead] at hany

theorem isIdentifier_numbered (h : stem ∈ numberedStems) (n : Nat) :
    IsIdentifier (stem ++ toString n) := by
  have hstems : ∀ stem ∈ numberedStems, stem.toList.head?.any Text.isNameStart = true ∧
      stem.toList.all Text.isNamePart = true := by decide
  obtain ⟨hstart, hall⟩ := hstems stem h
  refine ⟨?_, ?_, ?_⟩
  · rw [String.toList_append, List.head?_append]
    cases hs : stem.toList.head? with
    | none => simp [hs] at hstart
    | some c =>
      rw [hs] at hstart
      exact hstart
  · rw [String.toList_append, List.all_append, hall, Bool.true_and, List.all_eq_true]
    exact fun c hc => Text.isNamePart_of_isDigit (Text.toList_toString_digits n c hc)
  · rw [Script.Keyword.ofText?, List.find?_eq_none]
    intro k hk he
    have hkeywords : ∀ k ∈ Script.Keyword.all, withoutTrailingDigits k.text ∉ numberedStems := by
      decide
    rw [decide_eq_true_eq] at he
    rw [← withoutTrailingDigits_numbered h n, ← he] at h
    exact hkeywords k hk h

theorem isIdentifier_inputStream (h : ∀ c ∈ stream.toList, Text.isNamePart c = true) :
    IsIdentifier (inputStreamPrefix ++ stream) := by
  refine ⟨?_, ?_, ?_⟩
  · rw [String.toList_append]
    rfl
  · rw [String.toList_append, List.all_append, List.all_eq_true.mpr h, Bool.and_true]
    decide
  · rw [Script.Keyword.ofText?, List.find?_eq_none]
    intro k hk he
    have hkeywords : ∀ k ∈ Script.Keyword.all, Text.startsWith inputStreamPrefix k.text = false := by
      decide
    rw [decide_eq_true_eq] at he
    have hprefix := hkeywords k hk
    rw [he, startsWith_append] at hprefix
    contradiction

-- ---------------------------------------------------------------------------
-- Streams
-- ---------------------------------------------------------------------------

/-- The name of the stream with a number. -/
def streamName (isAdcTrace : Bool) (n : Nat) : String :=
  (if isAdcTrace then ResultSource.tracePrefix ++ "r" else "r") ++ toString n

theorem streamStem_mem (isAdcTrace : Bool) :
    (if isAdcTrace then ResultSource.tracePrefix ++ "r" else "r") ∈ numberedStems := by
  cases isAdcTrace <;> decide

/-- The prefix of traces tells them from other streams. -/
theorem isTraceName_streamName (isAdcTrace : Bool) (n : Nat) :
    ResultSource.isTraceName (streamName isAdcTrace n) = isAdcTrace := by
  cases isAdcTrace with
  | true =>
    rw [streamName, if_pos rfl, String.append_assoc]
    exact startsWith_append _ _
  | false =>
    rw [streamName, if_neg (by simp), ResultSource.isTraceName, Text.startsWith, String.toList_append]
    rfl

theorem streamName_injective (h : streamName a n = streamName b m) : a = b ∧ n = m := by
  have hstem := numbered_injective (streamStem_mem a) (streamStem_mem b) h
  refine ⟨?_, hstem.2⟩
  rw [← isTraceName_streamName a n, h, isTraceName_streamName]

theorem withoutTrailingDigits_streamName (isAdcTrace : Bool) (n m : Nat) :
    withoutTrailingDigits (streamName isAdcTrace n) =
      withoutTrailingDigits (streamName isAdcTrace m) := by
  rw [streamName, withoutTrailingDigits_numbered (streamStem_mem _), streamName,
    withoutTrailingDigits_numbered (streamStem_mem _)]

end Qua
