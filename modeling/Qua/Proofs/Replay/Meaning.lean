import Qua.Proofs.Replay.Evaluation
import Qua.Proofs.Script.OneLine

/-!
# What written texts mean

At a state of a replay a text means a value if it is written as a term with that value. Lists, tuples,
calls and methods mean what is made of the meanings of their parts.
-/

namespace Qua.Replay

open Script (Term IsPrimary IsOperand IsTerm IsKeyword IsSeparator)
open Text (IsIdentifier)

-- ---------------------------------------------------------------------------
-- Meanings
-- ---------------------------------------------------------------------------

/-- The text is written as a term whose evaluation at `s` gives the value and ends at `s'`. -/
def Yields (written : String → Term → Prop) (s : State) (text : String) (v : Value)
    (s' : State) : Prop :=
  ∃ t, written text t ∧ evaluate t s = .ok (v, s')

/-- The text stands for the value. -/
abbrev Means (s : State) (text : String) (v : Value) : Prop := Yields IsTerm s text v s

abbrev OperandMeans (s : State) (text : String) (v : Value) : Prop := Yields IsOperand s text v s

abbrev PrimaryMeans (s : State) (text : String) (v : Value) : Prop := Yields IsPrimary s text v s

/-- The text is a keyword argument with the value. -/
def KeywordMeans (s : State) (text : String) (entry : String × Value) : Prop :=
  ∃ t, IsKeyword text (entry.1, t) ∧ evaluate t s = .ok (entry.2, s)

theorem Yields.operand (h : Yields IsPrimary s text v s') : Yields IsOperand s text v s' := by
  obtain ⟨t, ht, he⟩ := h
  exact ⟨t, IsPrimary.operand ht, he⟩

theorem Yields.term (h : Yields IsOperand s text v s') : Yields IsTerm s text v s' := by
  obtain ⟨t, ht, he⟩ := h
  exact ⟨t, IsOperand.term ht, he⟩

theorem PrimaryMeans.means (h : PrimaryMeans s text v) : Means s text v := Yields.term (Yields.operand h)

theorem KeywordMeans.of (hn : IsIdentifier name) (h : Means s text v) :
    KeywordMeans s (name ++ "=" ++ text) (name, v) := by
  obtain ⟨t, ht, he⟩ := h
  exact ⟨t, ht.keyword hn, he⟩

section

variable {s : State}

theorem means_bound (hn : IsIdentifier name) (h : s.environment.lookup name = some v) :
    PrimaryMeans s name v := by
  refine ⟨.name name, .name hn, ?_⟩
  rw [evaluate]
  exact lookup_bound h

theorem means_string (text : String) : PrimaryMeans s (Text.quote text) (.string text) := by
  refine ⟨.string text, .quote text, ?_⟩
  rw [evaluate]
  rfl

theorem means_bool (b : Bool) : PrimaryMeans s (renderBool b) (.bool b) := by
  refine ⟨.bool b, .bool b, ?_⟩
  rw [evaluate]
  rfl

theorem means_none : PrimaryMeans s "None" .none := by
  refine ⟨.none, .none, ?_⟩
  rw [evaluate]
  rfl

/-- An integer of 64 bits other than the least one, whose magnitude a script cannot hold. -/
theorem means_integer {n : Int64} (h : n ≠ Int64.minValue) :
    OperandMeans s (integerText n) (.int n) := by
  have hmin : n.toInt ≠ -2 ^ 63 := by
    intro hn
    apply h
    rw [← Int64.toInt_inj, hn]
    rfl
  have hl := n.le_toInt
  have hh := n.toInt_lt
  have hsize : UInt64.size = 2 ^ 64 := rfl
  refine ⟨integerTerm n.toInt, isOperand_integer _ (by omega), ?_⟩
  rw [evaluate_integer (by omega), Int64.ofInt_toInt]

theorem means_real {x : Binary64} (h : x.isFinite = true) :
    OperandMeans s (NumberStyle.script.write x) (.float x) := by
  obtain ⟨text, ht, hx⟩ := render_real h
  rw [renderReal, if_pos h] at ht
  obtain rfl := Except.ok.inj ht
  exact ⟨realTerm x, hx, evaluate_real x s⟩

theorem means_literal (l : Literal) (h : l.Finite) :
    ∃ text, l.render = .ok text ∧ OperandMeans s text l.replayed := by
  obtain ⟨text, hr, ht⟩ := l.render_reads h
  exact ⟨text, hr, l.term, ht, evaluate_literal l s⟩

theorem means_expression (e : Expression) (h : e.Writable) (hs : Resolves s e.handles) :
    ∃ text, e.render = .ok text ∧ OperandMeans s text e.replayed := by
  obtain ⟨text, hr, ht⟩ := e.render_reads h
  exact ⟨text, hr, e.term, ht, evaluate_term e h hs⟩

end

-- ---------------------------------------------------------------------------
-- Lists and tuples
-- ---------------------------------------------------------------------------

theorem evaluateAll_nil (s : State) : evaluateAll [] s = .ok ([], s) := by
  rw [evaluateAll]
  rfl

/-- Several texts with their meanings are several terms with their values. -/
theorem Means.all (h : List.Forall₂ (Means s) texts vs) :
    ∃ ts, List.Forall₂ IsTerm texts ts ∧ evaluateAll ts s = .ok (vs, s) := by
  induction h with
  | nil => exact ⟨[], .nil, evaluateAll_nil s⟩
  | cons h _ ih =>
    obtain ⟨t, ht, he⟩ := h
    obtain ⟨ts, hts, hes⟩ := ih
    exact ⟨t :: ts, .cons ht hts, evaluateAll_cons he hes⟩

theorem KeywordMeans.all (h : List.Forall₂ (KeywordMeans s) texts entries) :
    ∃ ts, List.Forall₂ IsKeyword texts ts ∧ evaluateKeywords ts s = .ok (entries, s) := by
  induction h with
  | nil => exact ⟨[], .nil, evaluateKeywords_nil s⟩
  | @cons text entry texts entries h _ ih =>
    obtain ⟨t, ht, he⟩ := h
    obtain ⟨ts, hts, hes⟩ := ih
    refine ⟨(entry.1, t) :: ts, .cons ht hts, ?_⟩
    rw [evaluateKeywords, bind_run, he]
    simp only
    rw [bind_run, hes]
    rfl

theorem means_list (hsep : IsSeparator sep) (h : List.Forall₂ (Means s) texts vs) :
    PrimaryMeans s ("[" ++ sep.intercalate texts ++ "]") (.list vs) := by
  obtain ⟨ts, hts, he⟩ := Means.all h
  refine ⟨.list ts, .list hsep hts, ?_⟩
  rw [evaluate, bind_run, he]
  rfl

/-- A tuple of two or more items. -/
theorem means_tuple (hsep : IsSeparator sep) (h : List.Forall₂ (Means s) texts vs)
    (hl : 2 ≤ texts.length) : PrimaryMeans s ("(" ++ sep.intercalate texts ++ ")") (.tuple vs) := by
  obtain ⟨ts, hts, he⟩ := Means.all h
  refine ⟨.tuple ts, .tuple hsep hts hl, ?_⟩
  rw [evaluate, bind_run, he]
  rfl

theorem means_tuple_one (h : Means s text v) :
    PrimaryMeans s ("(" ++ text ++ ",)") (.tuple [v]) := by
  obtain ⟨t, ht, he⟩ := h
  refine ⟨.tuple [t], .tupleOne ht, ?_⟩
  rw [evaluate, bind_run, evaluateAll_cons he (evaluateAll_nil s)]
  rfl

theorem means_tuple_none : PrimaryMeans s "()" (.tuple []) := by
  refine ⟨.tuple [], .tupleNone, ?_⟩
  rw [evaluate, bind_run, evaluateAll_nil]
  rfl

theorem means_parenthesized (h : Yields IsTerm s text v s') :
    Yields IsPrimary s ("(" ++ text ++ ")") v s' := by
  obtain ⟨t, ht, he⟩ := h
  exact ⟨t, ht.parenthesized, he⟩

/-- Operands around an operator. -/
theorem means_binary (h : OperandMeans s text v) (h' : OperandMeans s text' v')
    (hop : op.level? = some above) (ha : 0 < above) (hb : binary op v v' = .ok w) :
    Means s (text ++ op.text ++ text') w := by
  obtain ⟨t, ht, he⟩ := h
  obtain ⟨t', ht', he'⟩ := h'
  refine ⟨.binary op t t', ht.binary ht' hop ha, ?_⟩
  rw [evaluate, bind_run, he]
  simp only
  rw [bind_run, he']
  simp only [hb]
  rfl

-- ---------------------------------------------------------------------------
-- Calls
-- ---------------------------------------------------------------------------

section

variable {s : State} {texts keywords : List String} {vs : List Value}
  {entries : List (String × Value)}

/-- The call of a function by its name. -/
theorem yields_builtin (hn : IsIdentifier name) (hf : s.environment.lookup name = none)
    (hi : s.inProgram = true) (hsep : IsSeparator sep) (ha : List.Forall₂ (Means s) texts vs)
    (hk : List.Forall₂ (KeywordMeans s) keywords entries)
    (hp : perform (builtin name) (.of name vs entries) s = .ok (v, s')) :
    Yields IsPrimary s (name ++ "(" ++ sep.intercalate (texts ++ keywords) ++ ")") v s' := by
  obtain ⟨ts, hts, he⟩ := Means.all ha
  obtain ⟨ks, hks, hek⟩ := KeywordMeans.all hk
  refine ⟨.call (.name name) ts ks, (IsPrimary.name hn).call hsep hts hks, ?_⟩
  rw [evaluate, bind_run, isBound_run, hf]
  simp only [Option.isSome_none, Bool.false_eq_true, if_false]
  rw [bind_run, he]
  simp only
  rw [bind_run, hek]
  simp only
  rw [callBuiltin, bind_run, get_run]
  simp only [hi, if_true]
  exact hp

/-- The call of a function of a module. -/
theorem yields_module (hm : IsIdentifier module) (hn : IsIdentifier name)
    (hf : s.environment.lookup module = none) (hmodule : isModule module = true)
    (hsep : IsSeparator sep) (ha : List.Forall₂ (Means s) texts vs)
    (hk : List.Forall₂ (KeywordMeans s) keywords entries)
    (hp : perform (moduleFunction s.inProgram module name) (.of (module ++ "." ++ name) vs entries) s =
      .ok (v, s')) :
    Yields IsPrimary s
      (module ++ "." ++ name ++ "(" ++ sep.intercalate (texts ++ keywords) ++ ")") v s' := by
  obtain ⟨ts, hts, he⟩ := Means.all ha
  obtain ⟨ks, hks, hek⟩ := KeywordMeans.all hk
  refine ⟨.call (.attribute (.name module) name) ts ks,
    ((IsPrimary.name hm).attribute hn).call hsep hts hks, ?_⟩
  rw [evaluate, bind_run, get_run]
  simp only
  rw [bind_run, isBound_run, hf]
  simp only [Option.isSome_none, Bool.not_false, Bool.true_and, hmodule, if_true]
  rw [bind_run, he]
  simp only
  rw [bind_run, hek]
  exact hp

/-- A name that stands for a stream has been assigned to. -/
theorem bound_of_isStream (h : evaluate (.name name) s = .ok (receiver, s))
    (hr : receiver.isStream = true) : s.environment.lookup name = some receiver := by
  rw [evaluate, lookup, bind_run, get_run] at h
  simp only at h
  cases hb : s.environment.lookup name with
  | some v =>
    rw [hb] at h
    obtain ⟨rfl, -⟩ := Prod.mk.inj (Except.ok.inj h)
    rfl
  | none =>
    rw [hb] at h
    simp only at h
    cases ht : ScalarType.ofName? name with
    | some scalarType =>
      rw [ht] at h
      obtain ⟨rfl, -⟩ := Prod.mk.inj (Except.ok.inj h)
      contradiction
    | none =>
      rw [ht] at h
      simp only at h
      cases hr' : Register.ofName? name with
      | some r =>
        rw [hr'] at h
        obtain ⟨rfl, -⟩ := Prod.mk.inj (Except.ok.inj h)
        contradiction
      | none =>
        rw [hr'] at h
        contradiction

/-- The call of a method of a stream. -/
theorem yields_method (hr : PrimaryMeans s text receiver) (hstream : receiver.isStream = true)
    (hn : IsIdentifier name) (hsep : IsSeparator sep) (ha : List.Forall₂ (Means s) texts vs)
    (hk : List.Forall₂ (KeywordMeans s) keywords entries)
    (hp : perform (method s.inProgram receiver name) (.of name vs entries) s = .ok (v, s')) :
    Yields IsPrimary s
      (text ++ "." ++ name ++ "(" ++ sep.intercalate (texts ++ keywords) ++ ")") v s' := by
  obtain ⟨t, ht, het⟩ := hr
  obtain ⟨ts, hts, he⟩ := Means.all ha
  obtain ⟨ks, hks, hek⟩ := KeywordMeans.all hk
  refine ⟨.call (.attribute t name) ts ks, (ht.attribute hn).call hsep hts hks, ?_⟩
  by_cases hname : ∃ bound, t = .name bound
  · obtain ⟨bound, rfl⟩ := hname
    have hb := bound_of_isStream het hstream
    rw [evaluate, bind_run, get_run]
    simp only
    rw [bind_run, isBound_run, hb]
    simp only [Option.isSome_some, Bool.not_true, Bool.false_and, Bool.false_eq_true, if_false]
    rw [bind_run, lookup_bound hb]
    simp only
    rw [bind_run, he]
    simp only
    rw [bind_run, hek]
    exact hp
  · rw [evaluate, bind_run, get_run]
    · simp only
      rw [bind_run, het]
      simp only
      rw [bind_run, he]
      simp only
      rw [bind_run, hek]
      exact hp
    · intro bound ht
      exact hname ⟨bound, ht⟩

end

end Qua.Replay
