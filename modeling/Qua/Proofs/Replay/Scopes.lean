import Qua.Proofs.Build.Plan
import Qua.Proofs.Replay.Actions
import Qua.Replay.Run
import Qua.Statement.Render

/-!
# Scopes of written blocks

The line that opens a block is a call too, whose step opens the scope in which the block is built.
-/

namespace Qua.Replay

open Script (Term IsPrimary IsTerm IsKeyword IsSeparator)
open Text (IsIdentifier)

/-- The text stands for the step that opens the scope of a block. -/
def Opens (s : State) (text : String) (step : Build Nat) : Prop :=
  ∃ t, IsTerm text t ∧ ∀ number d, step s.draft = .ok (number, d) →
    openScope t s = .ok (number, { s with draft := d })

section

variable {hs : List (String × Expression)} {s : State}

theorem Ready.opens {name : String} {keywords : List String} (h : Ready hs s) (hn : IsIdentifier name)
    (hp : name ≠ "program") (ha : List.Forall₂ (Means s) texts values)
    (hk : List.Forall₂ (KeywordMeans s) keywords entries) (hsep : IsSeparator sep)
    (ht : Takes (scope name) (.of name values entries) step) :
    Opens s (name ++ "(" ++ sep.intercalate (texts ++ keywords) ++ ")") step := by
  obtain ⟨ts, hts, he⟩ := Means.all ha
  obtain ⟨ks, hks, hek⟩ := KeywordMeans.all hk
  refine ⟨_, ((IsPrimary.name hn).call hsep hts hks).term, fun number d hstep => ?_⟩
  rw [openScope, bind_run, get_run]
  simp only [h.inProgram, Bool.not_true, Bool.false_eq_true, if_false, Term.name?, hp]
  rw [bind_run, he]
  simp only
  rw [bind_run, hek]
  have hrun := ht.perform hstep
  rwa [h.inProgram] at hrun

-- ---------------------------------------------------------------------------
-- What the calls take
-- ---------------------------------------------------------------------------

theorem if_takes (condition : Expression) (isUnsafe : Bool) :
    Takes (scope "if_") (.of "if_" [condition.replayed]
        (keywordOf "unsafe" (if isUnsafe then some (.bool true) else none)))
      (Build.openIf condition isUnsafe) := by
  rw [Arguments.of_eq, map_keywordOf]
  refine .expression (toExpression_replayed condition) (.flag_keyword (by decide) ?_ (.done _ ?_))
  · rw [splitKeyword_last]
  · rw [splitKeyword_last]
    exact fun k hk => slot_taken hk

theorem elif_takes (condition : Expression) :
    Takes (scope "elif_") (.of "elif_" [condition.replayed] []) (Build.openElif condition) := by
  have h : Takes (Taking.expression 0 "condition" >>= pure) (.of "elif_" [condition.replayed] [])
      condition := .expression (toExpression_replayed condition) (.done _ (by simp))
  rw [bind_pure] at h
  exact h.map Build.openElif

theorem Takes.nothing (function : String) (r : α) : Takes (pure r) (.of function [] []) r :=
  show Takes (pure r) (.after function 0 [] []) r from .done r (by simp)

theorem else_takes : Takes (scope "else_") (.of "else_" [] []) Build.openElse := .nothing _ _

theorem loopPart_takes (which : LoopBlock) :
    let name := match which with
      | .init => "for_init_"
      | .update => "for_update_"
      | .body => "for_body_"
    Takes (scope name) (.of name [] []) (Build.openLoopPart which.selector) := by
  cases which <;> exact .nothing _ _

theorem while_takes (condition : Expression) :
    Takes (scope "while_") (.of "while_" [condition.replayed] []) (Opening.whileLoop condition).enter :=
  .optional (isNone_replayed condition)
    (.of_lift (toExpression_replayed condition) (.done _ (by simp)))

theorem infiniteLoop_takes :
    Takes (scope "infinite_loop_") (.of "infinite_loop_" [] []) Opening.infiniteLoop.enter :=
  .nothing _ _

theorem strictTiming_takes :
    Takes (scope "strict_timing_") (.of "strict_timing_" [] []) Opening.strictTiming.enter :=
  .nothing _ _

theorem results_takes :
    Takes (scope "stream_processing") (.of "stream_processing" [] []) Build.openResults :=
  .nothing _ _

theorem loop_takes : Takes (scope "for_") (.of "for_" [] []) Build.openLoop := by
  change Takes countedLoop _ _
  exact .bind rfl (.nothing _ _)

theorem counted_takes (target init condition update : Expression) :
    Takes (scope "for_")
      (.of "for_" [target.replayed, init.replayed, condition.replayed, update.replayed] [])
      (Opening.counted target init condition update).enter := by
  change Takes countedLoop _ _
  refine .bind rfl ?_
  exact .expression (toExpression_replayed target) (.expression (toExpression_replayed init)
    (.expression (toExpression_replayed condition) (.expression (toExpression_replayed update)
      (.done _ (by simp)))))

-- ---------------------------------------------------------------------------
-- Loops over arrays
-- ---------------------------------------------------------------------------

/-- The value of items in parentheses, of which a single one stands for itself. -/
def grouped : List Value → Value
  | [v] => v
  | vs => .tuple vs

theorem means_grouped (h : List.Forall₂ (Means s) texts values) (hne : texts ≠ []) :
    Means s ("(" ++ String.intercalate "," texts ++ ")") (grouped values) := by
  have hsep : IsSeparator "," := .inl rfl
  cases h with
  | nil => contradiction
  | cons ht hts =>
    cases hts with
    | nil =>
      rw [String.intercalate_singleton]
      exact PrimaryMeans.means (means_parenthesized ht)
    | cons hu hus => exact (means_tuple hsep (.cons ht (.cons hu hus)) (by simp)).means

def iteratorVariable (i : Iterator) : Expression := .named i.variableName

def iteratorArray (i : Iterator) : Expression := .array i.array

theorem toForEachValues_arrays (iterators : List Iterator) :
    (iterators.map fun i => Value.expression (iteratorArray i)).mapM Value.toForEachValues =
      .ok (iterators.map fun i => .array (iteratorArray i)) := by
  induction iterators with
  | nil => rfl
  | cons i rest ih =>
    rw [List.map_cons, List.mapM_cons, ih]
    rfl

theorem toExpression_variables (iterators : List Iterator) :
    (iterators.map fun i => Value.expression (iteratorVariable i)).mapM Value.toExpression =
      .ok (iterators.map iteratorVariable) := by
  have hread : ∀ e, (Value.expression e).toExpression = .ok e := fun _ => rfl
  have h := mapM_map_ok hread (iterators.map iteratorVariable)
  rwa [List.map_map] at h

theorem forEachArguments_grouped {iterators : List Iterator} (hne : iterators ≠ []) :
    forEachArguments (grouped (iterators.map fun i => .expression (iteratorVariable i)))
        (grouped (iterators.map fun i => .expression (iteratorArray i))) =
      .ok (iterators.map fun i => .expression (iteratorVariable i),
        iterators.map fun i => .array (iteratorArray i)) := by
  have harrays := toForEachValues_arrays iterators
  cases iterators with
  | nil => contradiction
  | cons first rest =>
    cases rest with
    | nil => rfl
    | cons second rest =>
      change (do
        let values ← ((first :: second :: rest).map fun i =>
          Value.expression (iteratorArray i)).mapM Value.toForEachValues
        return (_, values)) = _
      rw [harrays]
      rfl

theorem forEach_takes {iterators : List Iterator} (hne : iterators ≠ []) :
    Takes (scope "for_each_") (.of "for_each_"
        [grouped (iterators.map fun i => .expression (iteratorVariable i)),
          grouped (iterators.map fun i => .expression (iteratorArray i))] [])
      (Opening.forEach (iterators.map iteratorVariable)
        (iterators.map fun i => .array (iteratorArray i))).enter := by
  change Takes forEach _ _
  exact .required (.required (.of_lift (forEachArguments_grouped hne)
    (.mapped (toExpression_variables iterators) (.done _ (by simp)))))

/-- Variables and arrays are the iterators that they come from. -/
theorem iterators_run {iterators : List Iterator} (hne : iterators ≠ []) (d : Draft) :
    Build.iterators (iterators.map iteratorVariable)
      (iterators.map fun i => .array (iteratorArray i)) d = .ok (iterators, d) := by
  have hnames : ∀ (its : List Iterator) (index : Nat),
      Build.forEachVariables index (its.map iteratorVariable) d =
        .ok (its.map Iterator.variableName, d) := by
    intro its
    induction its with
    | nil => exact fun _ => rfl
    | cons i rest ih =>
      intro index
      rw [List.map_cons, Build.forEachVariables]
      simp only [iteratorVariable, Expression.named, Expression.variableName?]
      rw [bind_run, ih]
      rfl
  have harrays : ∀ its : List Iterator,
      (its.map fun i => ForEachValues.array (iteratorArray i)).mapM Build.forEachArray d =
        .ok (its.map Iterator.array, d) := by
    intro its
    induction its with
    | nil => rfl
    | cons i rest ih =>
      have hi : Build.forEachArray (.array (iteratorArray i)) d = .ok (i.array, d) := rfl
      rw [List.map_cons, List.mapM_cons, bind_run, hi]
      simp only
      rw [bind_run, ih]
      rfl
  have hempty : (iterators.map fun i => ForEachValues.array (iteratorArray i)).isEmpty = false := by
    cases iterators with
    | nil => contradiction
    | cons i rest => rfl
  have hzip : (iterators.map Iterator.variableName).zipWith Iterator.mk (iterators.map Iterator.array) =
      iterators := by
    induction iterators with
    | nil => rfl
    | cons i rest ih => simp
  rw [Build.iterators, bind_run, hnames]
  simp only [hempty, Bool.false_eq_true, if_false]
  rw [bind_run, harrays]
  simp only [List.length_map, ne_eq, not_true_eq_false, if_false, pure_run, hzip]

-- ---------------------------------------------------------------------------
-- Headers
-- ---------------------------------------------------------------------------

/-- The line opens a block, and its call stands for the step that opens the scope. -/
def Heads (hs : List (String × Expression)) (header : String) (step : Build Nat) : Prop :=
  ∃ text, header = "with " ++ text ++ ":" ∧ ∀ s, Ready hs s → Opens s text step

theorem Ready.rendered (h : Ready hs s) {e : Expression} (he : e.Over hs) (hr : e.render = .ok text) :
    Means s text e.replayed := by
  obtain ⟨text', hr', ht⟩ := h.expression he
  obtain rfl := Except.ok.inj (hr.symm.trans hr')
  exact ht.term

theorem Ready.allRendered (h : Ready hs s) {es : List Expression} (he : ∀ e ∈ es, e.Over hs)
    (hr : es.mapM Expression.render = .ok texts) :
    List.Forall₂ (Means s) texts (es.map Expression.replayed) := by
  obtain ⟨texts', hr', ht⟩ := h.expressions he
  obtain rfl := Except.ok.inj (hr.symm.trans hr')
  exact ht

/-- The header of a block whose call has no keywords. -/
theorem Heads.of {name sep : String} {texts : List String} {values : List Value}
    (htext : header = "with " ++ (name ++ "(" ++ sep.intercalate texts ++ ")") ++ ":")
    (hn : IsIdentifier name) (hp : name ≠ "program") (hsep : IsSeparator sep)
    (ha : ∀ s, Ready hs s → List.Forall₂ (Means s) texts values)
    (ht : Takes (scope name) (.of name values []) step) : Heads hs header step := by
  refine ⟨_, htext, fun s h => ?_⟩
  have ho := h.opens hn hp (ha s h) .nil hsep ht
  rwa [List.append_nil] at ho

/-- The header of a block whose call has no arguments. -/
theorem heads_nothing {name : String} (hn : IsIdentifier name) (hp : name ≠ "program")
    (ht : Takes (scope name) (.of name [] []) step) : Heads hs ("with " ++ name ++ "():") step := by
  refine .of ?_ hn hp (.inl rfl) (fun _ _ => .nil) ht
  have hparens : "():" = "(" ++ (")" ++ ":") := by decide
  simp only [hparens, String.intercalate_nil, String.append_empty, String.append_assoc]

theorem heads_if {condition : Expression} (hc : condition.Over hs)
    (hr : ifHeader condition isUnsafe = .ok header) :
    Heads hs header (Build.openIf condition isUnsafe) := by
  obtain ⟨text, ht, hr⟩ := except_bind_eq_ok.mp hr
  obtain rfl := Except.ok.inj hr
  have hopening : "with if_(" = "with " ++ ("if_" ++ "(") := by decide
  have hclosing : "):" = ")" ++ ":" := by decide
  have htakes := if_takes condition isUnsafe
  cases isUnsafe with
  | false =>
    refine .of ?_ (by decide) (by decide) comma
      (fun s h => .cons (h.rendered hc ht) .nil) htakes
    simp only [hopening, hclosing, Bool.false_eq_true, if_false, String.empty_append,
      String.intercalate_singleton, String.append_assoc]
  | true =>
    refine ⟨"if_" ++ "(" ++ String.intercalate ", " ([text] ++ ["unsafe" ++ "=" ++ "True"]) ++ ")", ?_,
      fun s h => ?_⟩
    · have hkeyword : ", unsafe=True" = ", " ++ ("unsafe" ++ ("=" ++ "True")) := by decide
      simp only [hopening, hclosing, hkeyword, if_true, List.cons_append, List.nil_append,
        String.intercalate_cons_cons, String.intercalate_singleton, String.append_assoc]
    · exact h.opens (by decide) (by decide) (.cons (h.rendered hc ht) .nil)
        (.cons (.of (by decide) (means_bool true).means) .nil) comma htakes

theorem heads_elif {condition : Expression} (hc : condition.Over hs)
    (hr : elifHeader condition = .ok header) : Heads hs header (Build.openElif condition) := by
  obtain ⟨text, ht, hr⟩ := except_bind_eq_ok.mp hr
  obtain rfl := Except.ok.inj hr
  refine .of ?_ (by decide) (by decide) comma
    (fun s h => .cons (h.rendered hc ht) .nil) (elif_takes condition)
  have hopening : "with elif_(" = "with " ++ ("elif_" ++ "(") := by decide
  have hclosing : "):" = ")" ++ ":" := by decide
  simp only [hopening, hclosing, String.intercalate_singleton, String.append_assoc]

theorem heads_while {condition : Expression} (hc : condition.Over hs)
    (hr : (LoopShape.while condition).header = .ok header) :
    Heads hs header (Opening.whileLoop condition).enter := by
  obtain ⟨text, ht, hr⟩ := except_bind_eq_ok.mp hr
  obtain rfl := Except.ok.inj hr
  refine .of ?_ (by decide) (by decide) comma
    (fun s h => .cons (h.rendered hc ht) .nil) (while_takes condition)
  have hopening : "with while_(" = "with " ++ ("while_" ++ "(") := by decide
  have hclosing : "):" = ")" ++ ":" := by decide
  simp only [hopening, hclosing, String.intercalate_singleton, String.append_assoc]

theorem heads_counted {target init condition update : Expression}
    (he : ∀ e ∈ [target, init, condition, update], e.Over hs)
    (hr : (LoopShape.counted target init condition update).header = .ok header) :
    Heads hs header (Opening.counted target init condition update).enter := by
  obtain ⟨text, ht, hr⟩ := except_bind_eq_ok.mp hr
  obtain rfl := Except.ok.inj hr
  obtain ⟨texts, hts, ht⟩ := except_map_eq_ok.mp ht
  obtain rfl := ht
  refine .of ?_ (by decide) (by decide) (.inl rfl)
    (fun s h => h.allRendered he hts) (counted_takes target init condition update)
  have hopening : "with for_(" = "with " ++ ("for_" ++ "(") := by decide
  have hclosing : "):" = ")" ++ ":" := by decide
  simp only [hopening, hclosing, String.append_assoc]

theorem forEach_text (names arrays : String) :
    "with for_each_((" ++ names ++ "),(" ++ arrays ++ ")):" =
      "with " ++ ("for_each_" ++ "(" ++
        String.intercalate "," ["(" ++ names ++ ")", "(" ++ arrays ++ ")"] ++ ")") ++ ":" := by
  rw [String.intercalate_cons_cons, String.intercalate_singleton]
  simp [String.append_assoc, ← String.toList_inj]

theorem heads_forEach {iterators : List Iterator} (hne : iterators ≠ [])
    (hi : ∀ i ∈ iterators, (iteratorVariable i).Over hs ∧ (iteratorArray i).Over hs) :
    Heads hs (forEachHeader iterators) (Opening.forEach (iterators.map iteratorVariable)
      (iterators.map fun i => .array (iteratorArray i))).enter := by
  have hall : ∀ s, Ready hs s →
      List.Forall₂ (Means s) (iterators.map Iterator.variableName)
        (iterators.map fun i => .expression (iteratorVariable i)) ∧
      List.Forall₂ (Means s) (iterators.map Iterator.array)
        (iterators.map fun i => .expression (iteratorArray i)) := by
    intro s h
    clear hne
    induction iterators with
    | nil => exact ⟨.nil, .nil⟩
    | cons i rest ih =>
      rw [List.forall_mem_cons] at hi
      obtain ⟨hn, ha⟩ := ih hi.2
      exact ⟨.cons (h.named hi.1.1).means hn, .cons (h.array hi.1.2).means ha⟩
  have hnames : iterators.map Iterator.variableName ≠ [] ∧ iterators.map Iterator.array ≠ [] := by
    simpa using hne
  have hparts : ∀ s, Ready hs s → List.Forall₂ (Means s)
      ["(" ++ String.intercalate "," (iterators.map Iterator.variableName) ++ ")",
        "(" ++ String.intercalate "," (iterators.map Iterator.array) ++ ")"]
      [grouped (iterators.map fun i => .expression (iteratorVariable i)),
        grouped (iterators.map fun i => .expression (iteratorArray i))] := by
    intro s h
    obtain ⟨hv, ha⟩ := hall s h
    exact .cons (means_grouped hv hnames.1) (.cons (means_grouped ha hnames.2) .nil)
  exact .of (forEach_text _ _) (by decide) (by decide) (.inl rfl) hparts (forEach_takes hne)

end

end Qua.Replay
