import Qua.Proofs.Replay.Operands

/-!
# Measure processes read back

The text of a measure process is the call of a function of a module, which gives that process.
-/

namespace Qua

open Script (IsSeparator)

/-- The name of the function of a target. -/
def ProcessTarget.method : ProcessTarget → String
  | .full _ => "full"
  | .sliced .. => "sliced"
  | .accumulated .. => "accumulated"
  | .movingWindow .. => "moving_window"

namespace Replay

open Taking
open MeasureProcess (singleModule dualModule targetParts)

theorem fullOf_placed {target : Expression} (h : Build.IsPlace target) :
    ProcessTarget.fullOf target = .ok (.full target) := by
  cases target <;> first | rfl | exact h.elim

theorem replayed_placed {target : Expression} (h : Build.IsPlace target) :
    target.replayed = .expression target := by
  cases target <;> first | rfl | exact h.elim

/-- Functions of these modules take their arguments as measure processes. -/
theorem takes_process {module name : String} (hm : module ∈ processModules)
    (h : Takes (measureProcess module name) arguments process) (inProgram : Bool) :
    Takes (moduleFunction inProgram module name) arguments (pure (.process process)) := by
  have hmodules : ∀ module ∈ processModules,
      Library.ofNamespace? module = none ∧ module ≠ functionsModule := by decide
  obtain ⟨hl, hf⟩ := hmodules module hm
  rw [moduleFunction, hl]
  simp only [hf, if_false]
  have hmap := h.map fun process => (pure (Value.process process) : Build Value)
  rwa [map_eq_pure_bind] at hmap

section

variable {function : String} {n : Nat} {keywords : List (String × Option Value)}

/-- The output of an element at the end. -/
theorem Takes.output {f : String → Taking α} {out : String}
    (h : Takes (f out) (.after function (n + 1) [] keywords) r) :
    Takes (Replay.output n >>= f) (.after function n [.string out] keywords) r := by
  have hread : (Value.string out).toText = .ok out := rfl
  rw [Replay.output, bind_assoc]
  simp only [bind_assoc, pure_bind]
  exact .given hread rfl h

theorem Takes.made {g : β → α} {x : Except ExpressionError β} (hx : x = .ok b) :
    Takes (g <$> Replay.ofExpression x) (.after function n [] []) (g b) := by
  rw [hx]
  exact .map g (.done b (by simp))

variable (kind : AnalogKind) {target : ProcessTarget}

theorem single_takes (weights out : String) (h : target.Placed) :
    Takes (measureProcess (singleModule kind) target.method)
      (.of function ([.string weights, .expression target.expression] ++
        target.integers.map .int ++ [.string out]) [])
      (.analog ⟨kind, .single weights out, target⟩) := by
  have hm : measureProcess (singleModule kind) target.method =
      singleProcess kind (singleModule kind) target.method := by cases kind <;> rfl
  rw [Arguments.of_eq, hm]
  cases target with
  | full target => exact .text (.expression rfl (.output (.made (fullOf_placed h))))
  | sliced array samples => exact .text (.expression rfl (.int (.output (.made rfl))))
  | accumulated array samples => exact .text (.expression rfl (.int (.output (.made rfl))))
  | movingWindow array samples chunks =>
    exact .text (.expression rfl (.int (.int (.output (.made rfl)))))

theorem dual_takes (weights1 output1 weights2 output2 : String) (h : target.Placed) :
    Takes (measureProcess (dualModule kind) target.method)
      (.of function ([weights1, output1, weights2, output2].map .string ++
        target.integers.map .int ++ [.expression target.expression]) [])
      (.analog ⟨kind, .dual weights1 output1 weights2 output2, target⟩) := by
  have hm : measureProcess (dualModule kind) target.method =
      dualProcess kind target.method := by cases kind <;> rfl
  rw [Arguments.of_eq, hm]
  cases target with
  | full target =>
    exact .text (.text (.text (.text (.expression rfl (.made (fullOf_placed h))))))
  | sliced array samples =>
    exact .text (.text (.text (.text (.int (.expression rfl (.made rfl))))))
  | accumulated array samples =>
    exact .text (.text (.text (.text (.int (.expression rfl (.made rfl))))))
  | movingWindow array samples chunks =>
    exact .text (.text (.text (.text (.int (.int (.expression rfl (.made rfl)))))))

theorem timeTagging_takes (process : TimeTagging) :
    Takes (measureProcess "time_tagging" process.kind.name)
      (.of function [.expression (.array process.target), .int process.maxTime,
        (process.targetLength.map fun name => .expression (.named name)).getD .none,
        .string process.output] [])
      (.timeTagging process) := by
  obtain ⟨kind, target, targetLength, maxTime, out⟩ := process
  have hk : timeTaggingKind? kind.name = some kind := by cases kind <;> rfl
  rw [Arguments.of_eq]
  change Takes (timeTagging kind.name) _ _
  rw [timeTagging, hk]
  refine .expression rfl (.int ?_)
  cases targetLength with
  | none => exact .given_none (.output (.done_lift rfl (by simp)))
  | some name => exact .given rfl rfl (.output (.done_lift rfl (by simp)))

theorem counting_takes (process : Counting) :
    Takes (measureProcess "counting" "digital")
      (.of function [.expression (.named process.target), .int process.maxTime,
        .tuple (process.outputs.map .string)] [])
      (.counting process) := by
  have houts : outputs (.tuple (process.outputs.map .string)) = .ok process.outputs :=
    mapM_map_ok (v := Value.string) (fun _ => rfl) process.outputs
  rw [Arguments.of_eq]
  change Takes (counting "digital") _ _
  rw [counting, if_pos rfl]
  exact .expression rfl (.int (.given houts rfl (.done_lift rfl (by simp))))

end

-- ---------------------------------------------------------------------------
-- Texts
-- ---------------------------------------------------------------------------

section

variable {s : State} {hs : List (String × Expression)}

/-- The call of a function of a module that has only positional arguments. -/
theorem means_process {module name : String} (h : Ready hs s) (hm : module ∈ processModules)
    (hn : Text.IsIdentifier name) (ha : List.Forall₂ (Means s) parts values)
    (ht : Takes (measureProcess module name) (.of (module ++ "." ++ name) values []) process) :
    Means s (module ++ "." ++ name ++ "(" ++ String.intercalate ", " parts ++ ")")
      (.process process) := by
  have hmodules : ∀ module ∈ processModules,
      Text.IsIdentifier module ∧ isAllocated module = false ∧ isModule module = true := by decide
  obtain ⟨hmn, hfree, hmodule⟩ := hmodules module hm
  have hsep : IsSeparator ", " := .inr rfl
  have hnone : List.Forall₂ (KeywordMeans s) [] [] := .nil
  have hmeans := yields_module hmn hn (h.free module hfree) hmodule hsep ha hnone
    ((takes_process hm ht s.inProgram).perform rfl)
  rw [List.append_nil] at hmeans
  exact hmeans.operand.term

/-- The text of a target, and the numbers that go with it. -/
theorem targetParts_means (h : Ready hs s) {target : ProcessTarget}
    (he : target.expression.Over hs) (hp : target.Placed) :
    ∃ text, targetParts target = .ok (target.method, text, target.integers) ∧
      Means s text (.expression target.expression) := by
  cases target with
  | full target =>
    obtain ⟨text, hr, ht⟩ := h.expression he
    change OperandMeans s text target.replayed at ht
    rw [replayed_placed hp] at ht
    refine ⟨text, ?_, ht.term⟩
    rw [targetParts, show target.render = .ok text from hr]
    rfl
  | sliced array _ => exact ⟨array, rfl, (h.array he).means⟩
  | accumulated array _ => exact ⟨array, rfl, (h.array he).means⟩
  | movingWindow array _ _ => exact ⟨array, rfl, (h.array he).means⟩

theorem isIdentifier_method (target : ProcessTarget) : Text.IsIdentifier target.method := by
  have hnames : Text.IsIdentifier "full" ∧ Text.IsIdentifier "sliced" ∧
      Text.IsIdentifier "accumulated" ∧ Text.IsIdentifier "moving_window" := by decide
  obtain ⟨hfull, hsliced, haccumulated, hmoving⟩ := hnames
  cases target with
  | full _ => exact hfull
  | sliced _ _ => exact hsliced
  | accumulated _ _ => exact haccumulated
  | movingWindow _ _ _ => exact hmoving

theorem singleModule_mem (kind : AnalogKind) : singleModule kind ∈ processModules := by
  cases kind <;> decide

theorem dualModule_mem (kind : AnalogKind) : dualModule kind ∈ processModules := by
  cases kind <;> decide

theorem renderAnalog_means (h : Ready hs s) {process : AnalogProcess}
    (he : process.target.expression.Over hs)
    (hi : ∀ n ∈ process.target.integers, n ≠ Int64.minValue) (hp : process.target.Placed) :
    ∃ text, MeasureProcess.renderAnalog process = .ok text ∧
      Means s text (.process (.analog process)) := by
  obtain ⟨kind, weights, target⟩ := process
  obtain ⟨text, hparts, ht⟩ := targetParts_means h he hp
  rw [MeasureProcess.renderAnalog, hparts]
  cases weights with
  | single weights out =>
    refine ⟨_, rfl, means_process h (singleModule_mem kind) (isIdentifier_method target) ?_
      (single_takes kind weights out hp)⟩
    refine List.rel_append ?_ (.cons (means_string out).means .nil)
    exact List.rel_append (.cons (means_string weights).means (.cons ht .nil)) (means_integers hi)
  | dual weights1 output1 weights2 output2 =>
    refine ⟨_, rfl, means_process h (dualModule_mem kind) (isIdentifier_method target) ?_
      (dual_takes kind weights1 output1 weights2 output2 hp)⟩
    refine List.rel_append ?_ (.cons ht .nil)
    exact List.rel_append (means_quoted [weights1, output1, weights2, output2]) (means_integers hi)

theorem timeTagging_text (name a b c d : String) :
    "time_tagging." ++ name ++ "(" ++ a ++ ", " ++ b ++ ", " ++ c ++ ", " ++ d ++ ")" =
      "time_tagging" ++ "." ++ name ++ "(" ++ String.intercalate ", " [a, b, c, d] ++ ")" := by
  have hprefix : "time_tagging." = "time_tagging" ++ "." := by decide
  simp only [ hprefix, String.intercalate_cons_cons, String.intercalate_singleton,
    String.append_assoc]

theorem counting_text (a b c d : String) :
    "counting.digital(" ++ a ++ ", " ++ b ++ ", (" ++ c ++ d ++ "))" =
      "counting" ++ "." ++ "digital" ++ "("
        ++ String.intercalate ", " [a, b, "(" ++ c ++ d ++ ")"] ++ ")" := by
  have hprefix : "counting.digital(" = "counting" ++ ("." ++ ("digital" ++ "(")) := by decide
  have hcomma : ", (" = ", " ++ "(" := by decide
  have hend : "))" = ")" ++ ")" := by decide
  rw [ hprefix, hcomma, hend]
  simp only [String.intercalate_cons_cons, String.intercalate_singleton, String.append_assoc]

theorem renderTimeTagging_means (h : Ready hs s) {process : TimeTagging}
    (he : ∀ e ∈ (MeasureProcess.timeTagging process).expressions, e.Over hs)
    (hi : process.maxTime ≠ Int64.minValue) :
    Means s (MeasureProcess.renderTimeTagging process) (.process (.timeTagging process)) := by
  have htarget := (h.array (he (.array process.target) List.mem_cons_self)).means
  have hlength : Means s (process.targetLength.getD "None")
      ((process.targetLength.map fun name => .expression (.named name)).getD .none) := by
    cases hl : process.targetLength with
    | none => exact means_none.means
    | some name =>
      refine (h.named (he (.named name) ?_)).means
      simp [MeasureProcess.expressions, hl]
  have hname : Text.IsIdentifier process.kind.name := by cases process.kind <;> decide
  have ha : List.Forall₂ (Means s)
      [process.target, integerText process.maxTime, process.targetLength.getD "None",
        Text.quote process.output]
      [.expression (.array process.target), .int process.maxTime,
        (process.targetLength.map fun name => .expression (.named name)).getD .none,
        .string process.output] :=
    .cons htarget (.cons (means_integer hi).term (.cons hlength
      (.cons (means_string process.output).means .nil)))
  have hmeans := means_process h (by decide) hname ha (timeTagging_takes process)
  rw [← timeTagging_text] at hmeans
  exact hmeans

/-- A tuple of strings, in any number. -/
theorem means_strings (strings : List String) :
    Means s ("(" ++ quoteAll "," strings ++ (if strings.length = 1 then "," else "") ++ ")")
      (.tuple (strings.map .string)) := by
  match strings with
  | [] => exact means_tuple_none.means
  | [text] =>
    have ht := (means_tuple_one (means_string (s := s) text).means).means
    simpa [quoteAll, String.append_assoc] using ht
  | first :: second :: rest =>
    have hsep : IsSeparator "," := .inl rfl
    have ht := means_tuple hsep (means_quoted (s := s) (first :: second :: rest)) (by simp)
    simpa [quoteAll] using ht.means

theorem renderCounting_means (h : Ready hs s) {process : Counting}
    (he : (Expression.named process.target).Over hs) (hi : process.maxTime ≠ Int64.minValue) :
    Means s (MeasureProcess.renderCounting process) (.process (.counting process)) := by
  have ha : List.Forall₂ (Means s)
      [process.target, integerText process.maxTime, "(" ++ quoteAll "," process.outputs ++
        (if process.outputs.length = 1 then "," else "") ++ ")"]
      [.expression (.named process.target), .int process.maxTime,
        .tuple (process.outputs.map .string)] :=
    .cons (h.named he).means (.cons (means_integer hi).term
      (.cons (means_strings process.outputs) .nil))
  have hmeans := means_process h (by decide) (by decide) ha (counting_takes process)
  rw [← counting_text] at hmeans
  exact hmeans

/-- The text of a measure process stands for it. -/
theorem Ready.process (h : Ready hs s) {process : MeasureProcess}
    (he : ∀ e ∈ process.expressions, e.Over hs) (hi : ∀ n ∈ process.integers, n ≠ Int64.minValue)
    (hp : process.Placed) :
    ∃ text, process.render = .ok text ∧ Means s text (.process process) := by
  cases process with
  | analog process => exact renderAnalog_means h (he _ List.mem_cons_self) hi hp
  | timeTagging process => exact ⟨_, rfl, renderTimeTagging_means h he (hi _ List.mem_cons_self)⟩
  | counting process =>
    exact ⟨_, rfl, renderCounting_means h (he _ List.mem_cons_self) (hi _ List.mem_cons_self)⟩

end

end Replay
end Qua
