import Qua.Proofs.Replay.Blocks
import Qua.Proofs.Replay.Bodies
import Qua.Proofs.Replay.Remaking
import Qua.Proofs.Replay.Triggers
import Qua.Proofs.Stream.RoundTrip

/-!
# Integers read back

An integer is written with its sign, but a script has a sign and a numeral without one: the numeral is read
as 64 bits without a sign and taken as 64 bits with one before the sign is applied. So the least integer
has no text, and every other one is read back, wherever it stands. Main statement: `integers_readBack`.
-/

namespace Qua

open Replay
open Script (Outline ReadsAll linesOf linesOf_append)

namespace Replay

/-- The text is one term, which has a value of the given kind. -/
def ReadsBack (s : State) (text : String) (P : Value → Prop) : Prop :=
  ∃ t v, Script.parse text = .ok [.term 1 t] ∧ evaluate t s = .ok (v, s) ∧ P v

section

variable {s : State} {text : String} {v : Value} {P : Value → Prop}

theorem Means.readsBack (h : Means s text v) (hv : P v) : ReadsBack s text P := by
  obtain ⟨t, ht, he⟩ := h
  exact ⟨t, v, ht.parse, he, hv⟩

end

-- ---------------------------------------------------------------------------
-- Numerals
-- ---------------------------------------------------------------------------

/-- The least integer fails before its sign is applied. -/
theorem evaluate_least (s : State) :
    evaluate (integerTerm Int64.minValue.toInt) s =
      .error ⟨.expression (.integerOutOfRange (2 ^ 63)), none⟩ := by
  have hterm : integerTerm Int64.minValue.toInt = .unary .minus (.int (.ofNat (2 ^ 63))) := rfl
  have hnumeral : integer (.ofNat (2 ^ 63)) = .error (.expression (.integerOutOfRange (2 ^ 63))) := rfl
  rw [hterm, evaluate, bind_run, evaluate, hnumeral]
  rfl

/-- The text of an integer is a term, which has the integer as its value unless it is the least one. -/
theorem integer_parses (n : Int64) (s : State) :
    ∃ t, Script.parse (integerText n) = .ok [.term 1 t] ∧
      evaluate t s = if n = Int64.minValue then .error ⟨.expression (.integerOutOfRange (2 ^ 63)), none⟩
        else .ok (.int n, s) := by
  have hl := n.le_toInt
  have hh := n.toInt_lt
  have hsize : UInt64.size = 2 ^ 64 := rfl
  have hoperand := isOperand_integer n.toInt (by omega)
  refine ⟨integerTerm n.toInt, hoperand.term.parse, ?_⟩
  split
  · next hleast => rw [hleast, evaluate_least]
  · next hne =>
    obtain ⟨t, ht, he⟩ := means_integer (s := s) hne
    obtain rfl := hoperand.term.unique ht.term
    exact he

end Replay

-- ---------------------------------------------------------------------------
-- Statements
-- ---------------------------------------------------------------------------

section

variable {ds : List Declaration} {os : List Outline} {y : Stage} {texts : List String}

/-- Behind the declarations of a program, lines that can be replayed build their statements. -/
theorem ofScript_declared {placing : Placing α} {built : α → List Statement} (hn : Numbered ds)
    (hw : ∀ d ∈ ds, d.Writable) (hd : ∀ d ∈ ds, d.Shaped) (hr : ds.mapM Declaration.render = .ok declared)
    (hne : os ≠ []) (hlines : linesOf 1 os = texts.map fun text => ⟨1, text⟩)
    (h : Replays (handlesOf ds) os (.declared ds) y [⟨0, .program⟩] [] placing built) :
    ∃ a lines, Program.ofScript (Script.ofLines (declared ++ texts)) =
        .ok { y.draft.program with body := built a } ∧
      (∀ rest, placing ⟨[], lines ++ rest⟩ = (a, ⟨y.names, rest⟩)) := by
  obtain ⟨before, hbefore, hdeclared⟩ := declarations_run hn hw hd hr
  obtain ⟨⟨stmts₀, hreads₀⟩, hall⟩ := hdeclared standing_started
  have hreads : ∃ stmts, ReadsAll (before ++ os) stmts := by
    obtain ⟨-, s, -, hst⟩ := hall stmts₀ hreads₀
    obtain ⟨⟨after, hafter⟩, -⟩ := h hst
    exact ⟨stmts₀ ++ after, hreads₀.append hafter⟩
  have hbuilds (stmts) (hread : ReadsAll (before ++ os) stmts) : ∃ s,
      statements stmts State.started = .ok ((), s) ∧ s.programs = 1 ∧ s.draft.scopes.length = 1 ∧
        ∃ a lines, s.draft.program = { y.draft.program with body := built a } ∧
          ∀ rest, placing ⟨[], lines ++ rest⟩ = (a, ⟨y.names, rest⟩) := by
    obtain ⟨first, after, rfl, hb, ha⟩ := hread.of_append
    obtain ⟨-, s, hrun, hst⟩ := hall first hb
    obtain ⟨a, s', hplaced, hrun', hst'⟩ := (h hst).2 after ha
    obtain ⟨number, location, hdraft⟩ := hst'.draft
    refine ⟨s', by rw [statements_append hrun, hrun'], hst'.programs, ?_, a, _, ?_, hplaced⟩
    · rw [hdraft]; rfl
    · rw [hdraft]; rfl
  obtain ⟨-, p, hscript, a, lines, rfl, hplaced⟩ := ofScript_programLines
    (P := fun _ p => ∃ a lines, p = { y.draft.program with body := built a } ∧
      ∀ rest, placing ⟨[], lines ++ rest⟩ = (a, ⟨y.names, rest⟩))
    (by simp [hne]) hreads hbuilds
  have hall : linesOf 1 (before ++ os) = (declared ++ texts).map fun line => ⟨1, line⟩ := by
    rw [linesOf_append, hbefore, hlines, List.map_append]
  exact ⟨a, lines, by rwa [Script.ofLines_eq hall], hplaced⟩

variable {shorthand? : String → Option String} {a made : Action} {written : List String} {l : String}

/-- An action that can be made again behind the declarations has a text. -/
theorem Action.listing_ok (hn : Numbered ds) (hw : ∀ d ∈ ds, d.Writable) (hd : ∀ d ∈ ds, d.Shaped)
    (hr : ds.mapM Declaration.render = .ok written)
    (ho : (Statement.action a l).HeadOver (handlesOf ds) shorthand?)
    (ha : a.Arranges shorthand? (.declared ds) made y) (depth : Nat) :
    ∃ (texts : List String) (names : List String),
      Listing.action shorthand? depth a [] = .ok (texts.map fun text => ⟨depth, text⟩, names) := by
  obtain ⟨_, _, hdeclared⟩ := declarations_run hn hw hd hr
  obtain ⟨⟨first, hfirst⟩, hall⟩ := hdeclared standing_started
  obtain ⟨-, s, -, hst⟩ := hall first hfirst
  have hnew : ∀ name ∈ undeclared shorthand? (Stage.declared ds).names a.streamNames,
      StreamFits (handlesOf ds) name :=
    fun name hn => ho.2 name (mem_undeclared.mp hn).1 (mem_undeclared.mp hn).2.1
  obtain ⟨⟨stmts, hreads⟩, hstreams⟩ := declarations_replay hnew hst
  obtain ⟨_, s', -, -, hst'⟩ := hstreams stmts hreads
  obtain ⟨number, location, hdraft⟩ := hst'.draft
  have hstands : Standing (handlesOf ds) _ (Context.plug [] []) [⟨0, .program⟩] s' := hst'
  obtain ⟨text, hrender, -⟩ := hstands.acts hdraft ho ha rfl
  refine ⟨(undeclared shorthand? [] a.streamNames).map Listing.streamDeclaration ++ [text],
    (undeclared shorthand? [] a.streamNames).reverse ++ [], ?_⟩
  rw [Listing.action, bind_run, Listing.declareStreams_run]
  simp only [bind_run, hrender, List.map_append, List.map_map]
  rfl

/-- Behind the declarations of a program, the lines of an action build the action with the same integers,
if it can be made again. -/
theorem Action.lines_rebuild (hn : Numbered ds) (hw : ∀ d ∈ ds, d.Writable) (hd : ∀ d ∈ ds, d.Shaped)
    (ho : (Statement.action a l).HeadOver (handlesOf ds) shorthand?)
    (ha : a.Arranges shorthand? (.declared ds) made y) :
    ∃ written lines names p location, ds.mapM Declaration.render = .ok written ∧
      Listing.action shorthand? 1 a [] = .ok (lines, names) ∧
      Program.ofScript (Script.ofLines (written ++ lines.map Line.text)) = .ok p ∧
      p.body = [.action made location] ∧ made.integers = a.integers := by
  obtain ⟨written, hr⟩ := declarations_rendered hw hd
  obtain ⟨texts, names, hl⟩ := Action.listing_ok hn hw hd hr ho ha 1
  have hσ : Stage.Names shorthand? (y.newName shorthand?) y := Stage.names_newName
  obtain ⟨-, os, hlines, hne, hreplays⟩ := action_replays l ho hl ha hσ
  have hpath : [Frame.mk 0 .program].head?.bind (·.scope.blockPath?) = some (Context.path []) := rfl
  obtain ⟨s, lines, hscript, hplaced⟩ := ofScript_declared hn hw hd hr hne hlines
    (@hreplays [] [] [⟨0, .program⟩] hpath)
  have hmade := ha.renamed ho.1.formed hσ
  obtain ⟨location, rfl⟩ : ∃ location, s = .action made location := by
    rw [hmade]
    exact ⟨_, (congrArg Prod.fst (hplaced [])).symm⟩
  refine ⟨written, _, names, { y.draft.program with body := [.action made location] }, location, hr, hl,
    ?_, rfl, by rw [hmade, integers_mapStreams]⟩
  rw [show (texts.map fun text => Line.mk 1 text).map Line.text = texts by simp [Function.comp_def]]
  exact hscript

end

-- ---------------------------------------------------------------------------
-- Wherever an integer stands
-- ---------------------------------------------------------------------------

/-- The integers of a program are read back, except for the least one of 64 bits: a numeral by itself, the
literals of an expression, a measure process, a pipeline, and an action behind the declarations. -/
theorem integers_readBack (s : State) :
    (∀ n : Int64, ∃ t, Script.parse (integerText n) = .ok [.term 1 t] ∧
      evaluate t s = if n = Int64.minValue then .error ⟨.expression (.integerOutOfRange (2 ^ 63)), none⟩
        else .ok (.int n, s)) ∧
    (∀ e : Expression, e.Writable → Resolves s e.handles →
      ∃ text, e.render = .ok text ∧ ReadsBack s text fun v => v.toExpression = .ok e) ∧
    (∀ (process : MeasureProcess) (hs : List (String × Expression)), Ready hs s →
      (∀ e ∈ process.expressions, e.Over hs) → process.Placed → (∀ n ∈ process.integers, n ≠ Int64.minValue) →
      ∃ text, process.render = .ok text ∧ ReadsBack s text fun v => v = .process process) ∧
    (∀ p : Pipeline, p.Writable → Declares s p.sources →
      ∃ text, p.token.render = .ok text ∧ ReadsBack s text fun v => v.toOperand = .ok (.stream p.token)) ∧
    (∀ (ds : List Declaration) (a made : Action) (shorthand? : String → Option String) (y : Stage),
      Numbered ds → (∀ d ∈ ds, d.Writable) → (∀ d ∈ ds, d.Shaped) →
      (Statement.action a "").HeadOver (handlesOf ds) shorthand? → a.Arranges shorthand? (.declared ds) made y →
      ∃ written lines names p location, ds.mapM Declaration.render = .ok written ∧
        Listing.action shorthand? 1 a [] = .ok (lines, names) ∧
        Program.ofScript (Script.ofLines (written ++ lines.map Line.text)) = .ok p ∧
        p.body = [.action made location] ∧ made.integers = a.integers) := by
  refine ⟨fun n => integer_parses n s, fun e hw hs => ?_, fun process hs hr he hp hi => ?_, fun p hw hs => ?_,
    fun ds a made shorthand? y hn hw hd ho ha => a.lines_rebuild hn hw hd ho ha⟩
  · obtain ⟨text, hrender, hmeans⟩ := means_expression e hw hs
    exact ⟨text, hrender, Means.readsBack hmeans.term (toExpression_replayed e)⟩
  · obtain ⟨text, hrender, hmeans⟩ := hr.process he hi hp
    exact ⟨text, hrender, Means.readsBack hmeans rfl⟩
  · obtain ⟨text, htext, v, hmeans, -, hv⟩ := pipeline_reads p hw hs
    exact ⟨text, htext, Means.readsBack hmeans.means hv⟩

/-- The least integers that come back: of 32 bits in an expression, and of 64 bits in a process, in a
pipeline and in an action. -/
theorem integers_readBack_extreme :
    let least : Int64 := Int64.minValue + 1
    let s : State := { State.started with environment := [("r1", .source ⟨"r1", false, .values, none, false⟩),
      ("v1", .expression (.named "v1"))] }
    (∃ t, Script.parse (integerText least) = .ok [.term 1 t] ∧ evaluate t s = .ok (.int least, s)) ∧
    (∃ text, (Expression.literal (.int Int32.minValue)).render = .ok text ∧
      ReadsBack s text fun v => v.toExpression = .ok (.literal (.int Int32.minValue))) ∧
    (∃ text, (MeasureProcess.counting ⟨[], "v1", least⟩).render = .ok text ∧
      ReadsBack s text fun v => v = .process (.counting ⟨[], "v1", least⟩)) ∧
    (∃ text, (Pipeline.take least (.source ⟨"r1", false, .values, none, false⟩)).token.render = .ok text ∧
      ReadsBack s text fun v => v.toOperand =
        .ok (.stream (Pipeline.take least (.source ⟨"r1", false, .values, none, false⟩)).token)) ∧
    ∃ written lines names p location, ([] : List Declaration).mapM Declaration.render = .ok written ∧
      Listing.action (fun _ => none) 1 (.rampToZero "q" (some least)) [] = .ok (lines, names) ∧
      Program.ofScript (Script.ofLines (written ++ lines.map Line.text)) = .ok p ∧
      p.body = [.action (.rampToZero "q" (some least)) location] ∧
      (Action.rampToZero "q" (some least)).integers = [least] := by
  intro least s
  obtain ⟨hnumeral, hexpression, hprocess, hpipeline, haction⟩ := integers_readBack s
  have hleast : least ≠ Int64.minValue := by decide
  have hready : Ready [("v1", .named "v1")] s :=
    ⟨rfl, List.forall_mem_singleton.2 rfl, fun name hn => by
      have hr : name ≠ "r1" := by rintro rfl; revert hn; decide
      have hv : name ≠ "v1" := by rintro rfl; revert hn; decide
      simp [s, List.lookup_cons, beq_false_of_ne hr, beq_false_of_ne hv]⟩
  refine ⟨?_, hexpression _ trivial (hready.resolves.mono (by simp [Expression.handles])),
    hprocess _ _ hready ?_ trivial ?_, hpipeline _ ⟨hleast, trivial⟩ ⟨rfl, ?_, ?_⟩,
    haction [] _ _ (fun _ => none) (.declared []) .nil nofun nofun ⟨⟨nofun, ?_, trivial⟩, nofun⟩ ⟨rfl, rfl⟩⟩
  · obtain ⟨t, hparse, hrun⟩ := hnumeral least
    exact ⟨t, hparse, by rwa [if_neg hleast] at hrun⟩
  · exact List.forall_mem_singleton.2 ⟨(by decide : Text.IsIdentifier "v1"),
      by simp [Expression.named, Expression.handles]⟩
  · exact List.forall_mem_singleton.2 hleast
  · exact List.forall_mem_singleton.2 (by decide)
  · exact List.forall_mem_singleton.2 rfl
  · exact List.forall_mem_singleton.2 hleast

/-- The builder takes the least integer too, but its line fails when it is replayed. -/
theorem least_integer_not_readBack :
    (∃ d, Build.act (.rampToZero "q" (some Int64.minValue)) {} = .ok ((), d) ∧
      d.program.body = [.action (.rampToZero "q" (some Int64.minValue)) ""]) ∧
    (Action.rampToZero "q" (some Int64.minValue)).render = .ok "ramp_to_zero(\"q\", -9223372036854775808)" ∧
    ∀ p, Program.ofScript (Script.ofLines ["ramp_to_zero(\"q\", -9223372036854775808)"]) ≠ .ok p := by
  refine ⟨⟨_, rfl, rfl⟩, by decide +kernel, fun p hp => ?_⟩
  have hfails : (Program.ofScript
      (Script.ofLines ["ramp_to_zero(\"q\", -9223372036854775808)"])).toBool = false := by decide +kernel
  rw [hp] at hfails
  nomatch hfails

end Qua
