import Qua.Proofs.Build.Course
import Qua.Proofs.Build.Names

/-!
# Names of declarations

Variables and arrays are numbered in the order in which they are declared, each kind by itself, and an
input stream that is named already is refused. So no two declarations of a draft have the same name
(`Numbered.nodup`), however they came about.
-/

namespace Qua

namespace Declaration

/-- Whether the name is a number behind the stem of arrays, or of variables. -/
def isNumbered (isArray : Bool) (d : Declaration) : Bool := !d.isInputStream && d.isArray == isArray

def stem (isArray : Bool) : String := if isArray then "a" else "v"

/-- The name is the one that is handed out after the declarations before. -/
def Follows (ds : List Declaration) (d : Declaration) : Prop :=
  if d.isInputStream then
    (∃ stream, d.name = inputStreamPrefix ++ stream ∧ stream ≠ "") ∧
      ∀ e ∈ ds, e.isInputStream = true → e.name ≠ d.name
  else d.name = stem d.isArray ++ toString (ds.countP (isNumbered d.isArray) + 1)

end Declaration

open Declaration (isNumbered stem)

-- ---------------------------------------------------------------------------
-- Declarations in their order
-- ---------------------------------------------------------------------------

/-- The declarations are those of a session, in their order. -/
inductive Numbered : List Declaration → Prop
  | nil : Numbered []
  | snoc (h : Numbered ds) (hd : d.Follows ds) : Numbered (ds ++ [d])

theorem stem_mem (isArray : Bool) : stem isArray ∈ numberedStems := by cases isArray <;> decide

theorem Declaration.Follows.allocated {d : Declaration} (h : d.Follows ds) : isAllocated d.name = true := by
  unfold Declaration.Follows at h
  split at h
  · obtain ⟨⟨stream, hn, -⟩, -⟩ := h
    rw [hn]
    exact isAllocated_inputStream stream
  · rw [h]
    exact isAllocated_numbered (stem_mem _) _

/-- The numbers handed out so far are small. -/
theorem Numbered.number_le (h : Numbered ds) {d : Declaration} (hd : d ∈ ds) (hi : d.isInputStream = false) :
    ∃ n ≤ ds.countP (isNumbered d.isArray), d.name = stem d.isArray ++ toString n := by
  induction h with
  | nil => contradiction
  | @snoc ds e _ he ih =>
    rw [List.countP_append]
    rcases List.mem_append.mp hd with hd | hd
    · obtain ⟨n, hn, hname⟩ := ih hd
      exact ⟨n, by omega, hname⟩
    · obtain rfl := List.mem_singleton.mp hd
      refine ⟨_, ?_, by simpa [Declaration.Follows, hi] using he⟩
      simp [isNumbered, hi]

theorem Numbered.inputStream_name (h : Numbered ds) {d : Declaration} (hd : d ∈ ds)
    (hi : d.isInputStream = true) : ∃ stream, d.name = inputStreamPrefix ++ stream := by
  induction h with
  | nil => contradiction
  | @snoc ds e _ he ih =>
    rcases List.mem_append.mp hd with hd | hd
    · exact ih hd
    · obtain rfl := List.mem_singleton.mp hd
      simp only [Declaration.Follows, hi, if_true] at he
      exact ⟨he.1.choose, he.1.choose_spec.1⟩

/-- A new name is none of the names before. -/
theorem Numbered.name_ne (h : Numbered ds) {d : Declaration} (hd : d.Follows ds) :
    ∀ e ∈ ds, e.name ≠ d.name := by
  intro e he hname
  -- which of the two are input streams
  cases hdi : d.isInputStream with
  | true =>
    simp only [Declaration.Follows, hdi, if_true] at hd
    obtain ⟨⟨stream, hs, -⟩, hall⟩ := hd
    cases hei : e.isInputStream with
    | true => exact hall e he hei hname
    | false =>
      obtain ⟨n, -, hn⟩ := h.number_le he hei
      exact numbered_ne_inputStream (stem_mem _) n stream (hn.symm.trans (hname.trans hs))
  | false =>
    simp only [Declaration.Follows, hdi, Bool.false_eq_true, if_false] at hd
    cases hei : e.isInputStream with
    | true =>
      obtain ⟨stream, hs⟩ := h.inputStream_name he hei
      exact absurd ((hd.symm.trans hname.symm).trans hs) (numbered_ne_inputStream (stem_mem _) _ stream)
    | false =>
      obtain ⟨n, hle, hn⟩ := h.number_le he hei
      obtain ⟨hstem, hnumber⟩ := numbered_injective (stem_mem _) (stem_mem _)
        (hn.symm.trans (hname.trans hd))
      have hsame : e.isArray = d.isArray := by
        cases hea : e.isArray <;> cases hda : d.isArray <;> simp_all [stem]
      rw [hsame] at hle
      omega

theorem Numbered.nodup (h : Numbered ds) : (ds.map Declaration.name).Nodup := by
  induction h with
  | nil => exact List.nodup_nil
  | @snoc ds d hds hd ih =>
    rw [List.map_append, List.map_singleton, List.nodup_append]
    refine ⟨ih, by simp, ?_⟩
    rintro _ hname _ hd' rfl
    obtain ⟨e, he, hne⟩ := List.mem_map.mp hname
    exact hds.name_ne hd e he (hne.trans (List.mem_singleton.mp hd'))

/-- Declarations are not named like streams. -/
theorem Numbered.name_ne_stream (h : Numbered ds) {d : Declaration} (hd : d ∈ ds) (isAdcTrace : Bool)
    (n : Nat) : d.name ≠ streamName isAdcTrace n := by
  intro hname
  cases hi : d.isInputStream with
  | true =>
    obtain ⟨stream, hs⟩ := h.inputStream_name hd hi
    exact numbered_ne_inputStream (streamStem_mem isAdcTrace) n stream (hname.symm.trans hs)
  | false =>
    obtain ⟨m, -, hm⟩ := h.number_le hd hi
    have hstem := (numbered_injective (stem_mem _) (streamStem_mem isAdcTrace) (hm.symm.trans hname)).1
    have hstems : ∀ isArray isAdcTrace : Bool, stem isArray ≠
        if isAdcTrace then ResultSource.tracePrefix ++ "r" else "r" := by decide
    exact hstems _ _ hstem

/-- Variables, and arrays, are named by their place among themselves. -/
theorem Numbered.names (h : Numbered ds) (isArray : Bool) :
    (ds.filter (isNumbered isArray)).map Declaration.name =
      (List.range (ds.countP (isNumbered isArray))).map fun i => stem isArray ++ toString (i + 1) := by
  induction h with
  | nil => rfl
  | @snoc ds d hds hd ih =>
    rw [List.filter_append, List.map_append, ih, List.countP_append]
    cases hn : isNumbered isArray d with
    | false => simp [hn]
    | true =>
      simp only [isNumbered, Bool.and_eq_true, Bool.not_eq_true', beq_iff_eq] at hn
      obtain ⟨hi, rfl⟩ := hn
      have hname : d.name = stem d.isArray ++ toString (ds.countP (isNumbered d.isArray) + 1) := by
        simpa [Declaration.Follows, hi] using hd
      have hone : isNumbered d.isArray d = true := by simp [isNumbered, hi]
      rw [List.filter_cons_of_pos hone, List.filter_nil, List.map_singleton, hname, List.countP_singleton,
        hone, if_pos rfl, List.range_succ, List.map_append, List.map_singleton]

-- ---------------------------------------------------------------------------
-- Steps that declare
-- ---------------------------------------------------------------------------

namespace Draft

/-- How many names of that kind have been handed out. -/
def handedOut (d : Draft) (isArray : Bool) : Nat := if isArray then d.arrays else d.scalars

/-- The next name of that kind is handed out. -/
def handOut (d : Draft) (isArray : Bool) : Draft :=
  if isArray then { d with arrays := d.arrays + 1 } else { d with scalars := d.scalars + 1 }

/-- The draft with one more declaration. -/
def declaring (d : Draft) (declaration : Declaration) : Draft :=
  { d with program := { d.program with declarations := d.program.declarations ++ [declaration] } }

theorem handedOut_handOut (d : Draft) (isArray other : Bool) :
    (d.handOut isArray).handedOut other = d.handedOut other + if isArray == other then 1 else 0 := by
  cases isArray <;> cases other <;> rfl

@[simp] theorem declarations_handOut (d : Draft) (isArray : Bool) :
    (d.handOut isArray).program.declarations = d.program.declarations := by cases isArray <;> rfl

@[simp] theorem inputStreams_handOut (d : Draft) (isArray : Bool) :
    (d.handOut isArray).inputStreams = d.inputStreams := by cases isArray <;> rfl

end Draft

namespace Build

/-- A declaration is added, with the next number of its kind or the name of a new input stream. -/
inductive Adds (declaration : Declaration) (d : Draft) : Draft → Prop
  | numbered (hi : declaration.isInputStream = false)
      (hn : declaration.name =
        stem declaration.isArray ++ toString (d.handedOut declaration.isArray + 1)) :
      Adds declaration d ((d.handOut declaration.isArray).declaring declaration)
  | inputStream (stream : String) (hi : declaration.isInputStream = true)
      (hn : declaration.name = inputStreamPrefix ++ stream) (hne : stream ≠ "")
      (hnew : declaration.name ∉ d.inputStreams) :
      Adds declaration d
        ({ d with inputStreams := declaration.name :: d.inputStreams }.declaring declaration)

theorem freshName_eq_ok (h : freshName isArray d = .ok (name, t)) :
    name = stem isArray ++ toString (d.handedOut isArray + 1) ∧ t = d.handOut isArray := by
  cases isArray <;>
  · obtain ⟨rfl, rfl⟩ := Prod.mk.inj (Except.ok.inj h)
    exact ⟨rfl, rfl⟩

theorem inputStreamName_eq_ok (h : inputStreamName stream d = .ok (name, t)) :
    stream ≠ "" ∧ name = inputStreamPrefix ++ stream ∧ name ∉ d.inputStreams ∧
      t = { d with inputStreams := name :: d.inputStreams } := by
  by_cases hn : stream = ""
  · simp [inputStreamName, hn, bind_run] at h
  · by_cases hc : d.inputStreams.contains (inputStreamPrefix ++ stream)
    · simp only [inputStreamName, hn, if_false, bind_run, get_run, hc, if_true, throw_run] at h
      cases h
    · simp only [inputStreamName, hn, if_false, bind_run, get_run, hc] at h
      obtain ⟨rfl, rfl⟩ := Prod.mk.inj (Except.ok.inj h)
      exact ⟨hn, rfl, by simpa using hc, rfl⟩

/-- What declaring does that succeeds, and what it gives. -/
theorem declareNamed_gives (h : declareNamed scalarType value size inputStream d = .ok (e, t)) :
    ∃ declaration, Adds declaration d t ∧ declaration.isInputStream = inputStream.isSome ∧
      shape value size = .ok (declaration.dimension, declaration.size, declaration.value) ∧
      (∀ stream, inputStream = some stream → declaration.name = inputStreamPrefix ++ stream) ∧
      e = if declaration.isArray then .array declaration.name else .named declaration.name := by
  unfold declareNamed at h
  cases hs : shape value size with
  | error e =>
    rw [hs] at h
    nomatch h
  | ok shape =>
    rw [hs] at h
    obtain ⟨⟨dimension, size, value⟩, _, ⟨⟩, h⟩ := bind_eq_ok.mp h
    cases inputStream with
    | none =>
      obtain ⟨name, s, hname, h⟩ := bind_eq_ok.mp h
      obtain ⟨_, u, hu, h⟩ := bind_eq_ok.mp h
      obtain ⟨-, rfl⟩ := Prod.mk.inj (Except.ok.inj hu)
      obtain ⟨rfl, rfl⟩ := pure_eq_ok.mp h
      obtain ⟨hn, rfl⟩ := freshName_eq_ok hname
      exact ⟨⟨name, scalarType, size, dimension, false, value⟩, .numbered rfl hn, rfl, rfl,
        fun _ hstream => (nomatch hstream), rfl⟩
    | some stream =>
      obtain ⟨name, s, hname, h⟩ := bind_eq_ok.mp h
      obtain ⟨_, u, hu, h⟩ := bind_eq_ok.mp h
      obtain ⟨-, rfl⟩ := Prod.mk.inj (Except.ok.inj hu)
      obtain ⟨rfl, rfl⟩ := pure_eq_ok.mp h
      obtain ⟨hne, hn, hnew, rfl⟩ := inputStreamName_eq_ok hname
      refine ⟨⟨name, scalarType, size, dimension, true, value⟩, .inputStream stream rfl hn hne hnew, rfl, rfl,
        fun _ hstream => ?_, rfl⟩
      obtain rfl := Option.some.inj hstream
      exact hn

theorem declareNamed_eq_ok (h : declareNamed scalarType value size inputStream d = .ok (e, t)) :
    ∃ declaration, Adds declaration d t ∧ declaration.isInputStream = inputStream.isSome ∧
      shape value size = .ok (declaration.dimension, declaration.size, declaration.value) ∧
      ∀ stream, inputStream = some stream → declaration.name = inputStreamPrefix ++ stream := by
  obtain ⟨declaration, hadds, hinput, hshape, hstream, -⟩ := declareNamed_gives h
  exact ⟨declaration, hadds, hinput, hshape, hstream⟩

theorem declareNamed_adds (h : declareNamed scalarType value size inputStream d = .ok (e, t)) :
    ∃ declaration, Adds declaration d t :=
  (declareNamed_eq_ok h).imp fun _ h => h.1

end Build
end Qua
