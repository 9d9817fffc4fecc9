import Mathlib.Data.List.Nodup
import Qua.Proofs.Replay.Taking
import Qua.Replay.Method

/-!
# Signatures

The parameters of a function that a script can call, and which arguments they accept: every argument has a
parameter of its own. A function takes its parameters one after the other, each by its position or by its
keyword, so that whatever it leaves nothing of has been accepted. Main statement: `Signature.Bounds.accepts`.
-/

namespace Qua.Replay

open Taking

/-- The parameters of a function. -/
structure Signature where
  /-- Those that are given by position or by keyword, in their order. -/
  named : List String := []
  /-- Whether more arguments by position follow them. -/
  variadic : Bool := false
  /-- Those that are given by keyword only. -/
  keywordOnly : List String := []
  distinct : (named ++ keywordOnly).Nodup := by decide

namespace Signature

def parameters (sig : Signature) : List String := sig.named ++ sig.keywordOnly

/-- Every argument of a call has a parameter of its own: those by position the first ones, and those by
keyword others. -/
structure Accepts (sig : Signature) (count : Nat) (keywords : List String) : Prop where
  positional : sig.variadic = true ∨ count ≤ sig.named.length
  distinct : keywords.Nodup
  keyword : ∀ name ∈ keywords, name ∈ sig.named.drop count ∨ name ∈ sig.keywordOnly

section

variable {sig : Signature} {count next next' : Nat} {keywords before after : List String} {name : String}

theorem not_mem_drop (h : name ∈ sig.named.take count) :
    name ∉ sig.named.drop count ∧ name ∉ sig.keywordOnly := by
  have hall := sig.distinct
  rw [← List.take_append_drop count sig.named, List.append_assoc, List.nodup_append] at hall
  have hne := hall.2.2 name h
  exact ⟨fun hd => hne name (List.mem_append_left _ hd) rfl,
    fun hk => hne name (List.mem_append_right _ hk) rfl⟩

/-- One more keyword is not accepted if it is no parameter, if its parameter has been given by position, or
if the keyword has been given. -/
theorem not_accepts_insert
    (hn : name ∉ sig.parameters ∨ name ∈ sig.named.take count ∨ name ∈ before ++ after) :
    ¬ sig.Accepts count (before ++ name :: after) := by
  intro hmore
  have hkeyword := hmore.keyword name (by simp)
  obtain hn | hn | hn := hn
  · exact hn (List.mem_append.mpr (hkeyword.imp_left (List.mem_of_mem_drop ·)))
  · obtain ⟨hd, hk⟩ := not_mem_drop hn
    exact hkeyword.elim hd hk
  · have hdistinct := hmore.distinct
    rw [List.nodup_middle, List.nodup_cons] at hdistinct
    exact hdistinct.1 hn

end

-- ---------------------------------------------------------------------------
-- What has been taken
-- ---------------------------------------------------------------------------

/-- Of the keywords, only the first of a name has been taken, and only if its parameter was not given by
position. -/
structure Kept (sig : Signature) (count : Nat) (names : List String) (a : Arguments) : Prop where
  keywords : a.keywords.map Prod.fst = names
  taken : ∀ i name, a.keywords[i]? = some (name, none) →
    names.idxOf name = i ∧ (name ∈ sig.named.drop count ∨ name ∈ sig.keywordOnly)

/-- The parameters before `next` have been looked at, and no argument by position behind them. -/
structure Progress (sig : Signature) (count : Nat) (names : List String) (next : Nat) (a : Arguments) : Prop
    extends Kept sig count names a where
  length : a.positional.length = count
  within : next ≤ sig.named.length
  untouched : ∀ i, next ≤ i → i < count → ∃ value, a.positional[i]? = some (some value)

/-- Nothing is taken. -/
def Quiet (m : Taking α) : Prop := ∀ ⦃a r a'⦄, m a = .ok (r, a') → a' = a

/-- The parameters from `next` on are looked at, up to `next'`. -/
def Advances (sig : Signature) (next next' : Nat) (m : Taking α) : Prop :=
  ∀ ⦃count names a r a'⦄, sig.Progress count names next a → m a = .ok (r, a') →
    sig.Progress count names next' a'

/-- Of the parameters from `next` on, none is taken twice. -/
def Bounds (sig : Signature) (next : Nat) (m : Taking α) : Prop :=
  ∀ ⦃count names a r a'⦄, sig.Progress count names next a → m a = .ok (r, a') →
    sig.Kept count names a' ∧ (sig.variadic = true ∨ ∃ next', sig.Progress count names next' a')

section

variable {sig : Signature} {next next' next'' : Nat} {m : Taking β} {f : β → Taking α} {name : String}

theorem progress_of (sig : Signature) (function : String) (values : List Value)
    (keywords : List (String × Value)) :
    sig.Progress values.length (keywords.map Prod.fst) 0 (.of function values keywords) where
  keywords := by simp [Arguments.of, Function.comp_def]
  taken i name h := by
    rw [Arguments.of, List.getElem?_map] at h
    obtain ⟨_, -, hk⟩ := Option.map_eq_some_iff.mp h
    cases hk
  length := by simp [Arguments.of]
  within := Nat.zero_le _
  untouched i _ hi := ⟨values[i], by simp [Arguments.of, hi]⟩

/-- What is taken without leaving anything has been accepted. -/
theorem Bounds.accepts {m : Taking α} (h : sig.Bounds 0 m) {function : String} {values : List Value}
    {keywords : List (String × Value)} (hm : m (.of function values keywords) = .ok (r, left))
    (hl : unexpected? left = none) : sig.Accepts values.length (keywords.map Prod.fst) := by
  obtain ⟨hkept, hend⟩ := h (progress_of sig function values keywords) hm
  obtain ⟨hpositional, hkeywords⟩ := Takes.unexpected_eq_none.mp hl
  have htaken (i) (hi : i < (keywords.map Prod.fst).length) :
      (keywords.map Prod.fst).idxOf (keywords.map Prod.fst)[i] = i ∧
        ((keywords.map Prod.fst)[i] ∈ sig.named.drop values.length ∨
          (keywords.map Prod.fst)[i] ∈ sig.keywordOnly) := by
    have hnames := hkept.keywords
    have hlength : i < left.keywords.length := by rwa [← hnames, List.length_map] at hi
    refine hkept.taken i _ ?_
    have hnone := hkeywords left.keywords[i] (List.getElem_mem hlength)
    have hname : left.keywords[i].1 = (keywords.map Prod.fst)[i] := by
      simp only [← hnames, List.getElem_map]
    rw [List.getElem?_eq_getElem hlength, ← hname, ← hnone]
  have hfits : (∃ next, sig.Progress values.length (keywords.map Prod.fst) next left) →
      values.length ≤ sig.named.length := by
    rintro ⟨next, hnext⟩
    by_contra hlt
    have hwithin := hnext.within
    obtain ⟨value, hv⟩ := hnext.untouched next (Nat.le_refl next) (by omega)
    cases hpositional _ (List.mem_of_getElem? hv)
  refine ⟨hend.imp_right hfits, ?_, fun name hn => ?_⟩
  · rw [List.nodup_iff_injective_getElem]
    rintro ⟨i, hi⟩ ⟨j, hj⟩ hij
    have hsame : (keywords.map Prod.fst)[i] = (keywords.map Prod.fst)[j] := hij
    have hi' := (htaken i hi).1
    rw [hsame, (htaken j hj).1] at hi'
    exact Fin.ext hi'.symm
  · obtain ⟨i, hi, rfl⟩ := List.mem_iff_getElem.mp hn
    exact (htaken i hi).2

-- ---------------------------------------------------------------------------
-- Steps that take nothing
-- ---------------------------------------------------------------------------

theorem quiet_pure (x : α) : Quiet (pure x : Taking α) := by
  rintro a r a' ⟨⟩
  rfl

theorem quiet_lift (x : Faulty α) : Quiet (liftM x : Taking α) := fun _ _ _ h => (lift_eq_ok.mp h).2

theorem quiet_throw (e : ReplayFault) : Quiet (throw e : Taking α) := by
  rintro a r a' ⟨⟩

theorem quiet_get : Quiet (get : Taking Arguments) := by
  rintro a r a' ⟨⟩
  rfl

theorem Quiet.bind (hm : Quiet m) (hf : ∀ x, Quiet (f x)) : Quiet (m >>= f) := by
  intro a r a' h
  obtain ⟨x, between, hx, hr⟩ := bind_eq_ok.mp h
  rw [hf x hr, hm hx]

theorem quiet_function : Quiet Taking.function := quiet_get.bind fun _ => quiet_pure _

theorem quiet_mapM {f : γ → Taking β} (hf : ∀ x, Quiet (f x)) (xs : List γ) : Quiet (xs.mapM f) := by
  induction xs with
  | nil => exact quiet_pure _
  | cons x xs ih =>
    rw [List.mapM_cons]
    exact (hf x).bind fun _ => ih.bind fun _ => quiet_pure _

theorem quiet_optionalAs (read : Value → Faulty β) (value : Option Value) :
    Quiet (optionalAs read value) := by
  cases value with
  | none => exact quiet_pure _
  | some value =>
    intro a r a' h
    rw [optionalAs, Option.mapM_some] at h
    obtain ⟨x, -, hx⟩ := map_eq_ok.mp h
    exact quiet_lift _ hx

theorem Quiet.advances (h : Quiet m) : sig.Advances next next m := by
  intro count names a r a' hp hm
  rwa [h hm]

-- ---------------------------------------------------------------------------
-- Steps that take a parameter
-- ---------------------------------------------------------------------------

theorem Advances.bind (hm : sig.Advances next next' m) (hf : ∀ x, sig.Advances next' next'' (f x)) :
    sig.Advances next next'' (m >>= f) := by
  intro count names a r a' hp h
  obtain ⟨x, between, hx, hr⟩ := bind_eq_ok.mp h
  exact hf x (hm hp hx) hr

/-- The first keyword of a name loses its value. -/
theorem splitKeyword_eq (name : String) (keywords : List (String × Option Value)) :
    (splitKeyword name keywords).2 = keywords.set ((keywords.map Prod.fst).idxOf name) (name, none) := by
  induction keywords with
  | nil => rfl
  | cons entry keywords ih =>
    obtain ⟨keyword, value⟩ := entry
    by_cases hk : keyword = name
    · subst hk
      simp [splitKeyword]
    · simp [splitKeyword, hk, ih, List.idxOf_cons_ne _ hk]

theorem set_idxOf (name : String) (names : List String) : names.set (names.idxOf name) name = names := by
  by_cases hm : name ∈ names
  · have hset := List.set_getElem_self (List.idxOf_lt_length_of_mem hm)
    rwa [List.getElem_idxOf] at hset
  · exact List.set_eq_of_length_le (Nat.le_of_eq (List.idxOf_eq_length hm).symm)

theorem Progress.takeKeyword {count : Nat} {names : List String} {a : Arguments}
    (h : sig.Progress count names next a) (hn : name ∈ sig.named.drop count ∨ name ∈ sig.keywordOnly) :
    sig.Progress count names next { a with keywords := (splitKeyword name a.keywords).2 } := by
  have hsplit := splitKeyword_eq name a.keywords
  rw [h.keywords] at hsplit
  refine ⟨⟨?_, fun i other hi => ?_⟩, h.length, h.within, h.untouched⟩
  · simp only [hsplit, List.map_set, h.keywords]
    exact set_idxOf name names
  · rw [hsplit, List.getElem?_set] at hi
    split at hi
    · next heq =>
      split at hi
      · obtain rfl : name = other := congrArg Prod.fst (Option.some.inj hi)
        exact ⟨heq, hn⟩
      · cases hi
    · exact h.taken i other hi

theorem Progress.later {count : Nat} {names : List String} {a : Arguments}
    (h : sig.Progress count names next a) (hn : sig.named[next]? = some name) :
    sig.Progress count names (next + 1) a := by
  obtain ⟨hlt, -⟩ := List.getElem?_eq_some_iff.mp hn
  exact ⟨h.toKept, h.length, hlt, fun i hi => h.untouched i (Nat.le_of_succ_le hi)⟩

/-- A parameter is taken by its position, or by its keyword if nothing stands there. -/
theorem advances_take? (hn : sig.named[next]? = some name) :
    sig.Advances next (next + 1) (Taking.take? next name) := by
  intro count names a r a' hp h
  rw [Taking.take?, bind_run, takeAt, bind_run, get_run] at h
  by_cases hlt : next < count
  · obtain ⟨value, hv⟩ := hp.untouched next (Nat.le_refl next) hlt
    simp only [hv] at h
    obtain ⟨-, rfl⟩ := pure_eq_ok.mp h
    refine ⟨⟨hp.keywords, hp.taken⟩, by simp [hp.length], (hp.later hn).within, fun i hi hc => ?_⟩
    rw [List.getElem?_set_ne (by omega)]
    exact (hp.later hn).untouched i hi hc
  · have hnone : a.positional[next]? = none := by rw [List.getElem?_eq_none_iff, hp.length]; omega
    simp only [hnone] at h
    obtain ⟨-, rfl⟩ := pure_eq_ok.mp h
    refine (hp.takeKeyword (.inl ?_)).later hn
    rw [List.mem_iff_getElem?]
    exact ⟨next - count, by rwa [List.getElem?_drop, Nat.add_sub_cancel' (by omega)]⟩

theorem advances_keyword (hn : name ∈ sig.keywordOnly) : sig.Advances next next (Taking.keyword name) := by
  intro count names a r a' hp h
  obtain ⟨-, rfl⟩ := pure_eq_ok.mp h
  exact hp.takeKeyword (.inr hn)

section

variable (hn : sig.named[next]? = some name)

include hn

theorem advances_required : sig.Advances next (next + 1) (Taking.required next name) := by
  refine (advances_take? hn).bind fun found => ?_
  cases found with
  | none => exact (quiet_function.bind fun _ => quiet_throw _).advances
  | some value => exact (quiet_pure value).advances

theorem advances_optional : sig.Advances next (next + 1) (Taking.optional next name) :=
  (advances_take? hn).bind fun _ => (quiet_pure _).advances

theorem advances_text : sig.Advances next (next + 1) (Taking.text next name) :=
  (advances_required hn).bind fun _ => (quiet_lift _).advances

theorem advances_expression : sig.Advances next (next + 1) (Taking.expression next name) :=
  (advances_required hn).bind fun _ => (quiet_lift _).advances

theorem advances_int : sig.Advances next (next + 1) (Taking.int next name) :=
  (advances_required hn).bind fun _ => (quiet_lift _).advances

/-- An optional parameter that is read. -/
theorem advances_read (read : Value → Faulty β) :
    sig.Advances next (next + 1) (Taking.optional next name >>= optionalAs read) :=
  (advances_optional hn).bind fun _ => (quiet_optionalAs _ _).advances

theorem advances_flag : sig.Advances next (next + 1) (Taking.flag next name) :=
  (advances_optional hn).bind fun _ => ((quiet_optionalAs _ _).bind fun _ => quiet_pure _).advances

theorem advances_choice (ofName? : String → Option β) :
    sig.Advances next (next + 1) (Taking.choice ofName? next name) := by
  refine (advances_optional hn).bind fun found => Quiet.advances ?_
  cases found with
  | none => exact quiet_pure _
  | some value =>
    refine (quiet_lift _).bind fun text => ?_
    cases ofName? text with
    | none => exact quiet_function.bind fun _ => quiet_throw _
    | some choice => exact quiet_pure _

end

-- ---------------------------------------------------------------------------
-- Functions
-- ---------------------------------------------------------------------------

theorem Advances.bounds (h : sig.Advances next next' m) : sig.Bounds next m :=
  fun _ _ _ _ _ hp hm => ⟨(h hp hm).toKept, .inr ⟨next', h hp hm⟩⟩

theorem Quiet.bounds (h : Quiet m) : sig.Bounds next m := h.advances.bounds

theorem Advances.then (hm : sig.Advances next next' m) (hf : ∀ x, sig.Bounds next' (f x)) :
    sig.Bounds next (m >>= f) := by
  intro count names a r a' hp h
  obtain ⟨x, between, hx, hr⟩ := bind_eq_ok.mp h
  exact hf x (hm hp hx) hr

theorem Quiet.then (hm : Quiet m) (hf : ∀ x, sig.Bounds next (f x)) : sig.Bounds next (m >>= f) :=
  hm.advances.then hf

theorem Bounds.bind (hm : sig.Bounds next m) (hf : ∀ x, Quiet (f x)) : sig.Bounds next (m >>= f) := by
  intro count names a r a' hp h
  obtain ⟨x, between, hx, hr⟩ := bind_eq_ok.mp h
  rw [hf x hr]
  exact hm hp hx

/-- A parameter that is read. -/
theorem bounds_required {read : Value → Faulty β} (hn : sig.named[next]? = some name)
    (hf : ∀ x, sig.Bounds (next + 1) (f x)) :
    sig.Bounds next (Taking.required next name >>= fun value => (liftM (read value) : Taking β) >>= f) :=
  (advances_required hn).then fun _ => (quiet_lift _).then hf

/-- An optional parameter that is read. -/
theorem bounds_optional {read : Value → Faulty β} {f : Option β → Taking α}
    (hn : sig.named[next]? = some name) (hf : ∀ x, sig.Bounds (next + 1) (f x)) :
    sig.Bounds next (Taking.optional next name >>= fun value => optionalAs read value >>= f) :=
  (advances_optional hn).then fun _ => (quiet_optionalAs _ _).then hf

/-- The same for one that is given by its keyword. -/
theorem bounds_keyword {read : Value → Faulty β} {f : Option β → Taking α} (hn : name ∈ sig.keywordOnly)
    (hf : ∀ x, sig.Bounds next (f x)) :
    sig.Bounds next (Taking.keyword name >>= fun value => optionalAs read value >>= f) :=
  (advances_keyword hn).then fun _ => (quiet_optionalAs _ _).then hf

theorem Bounds.map (hm : sig.Bounds next m) (g : β → α) : sig.Bounds next (g <$> m) := by
  rw [map_eq_pure_bind]
  exact hm.bind fun _ => quiet_pure _

/-- All other arguments by position. -/
theorem bounds_rest (hv : sig.variadic = true) : sig.Bounds next (rest next) := by
  intro count names a r a' hp h
  obtain ⟨-, rfl⟩ := pure_eq_ok.mp h
  exact ⟨⟨hp.keywords, hp.taken⟩, .inl hv⟩

theorem bounds_texts (hv : sig.variadic = true) : sig.Bounds next (texts next) :=
  (bounds_rest hv).bind fun _ => quiet_mapM (fun _ => quiet_lift _) _

end

end Signature
end Qua.Replay
