import Qua.Proofs.Script.Progress
import Qua.Proofs.Script.Reading

/-!
# Scripts of one term

The text of a term is a script, whose one statement is the term.
-/

namespace Qua.Script

open Qua.Script.Parser

/-- The first token of a text that starts with one stands where the text does. -/
theorem scanFrom_head (h : startsToken c = true)
    (hs : scanFrom fuel p (c :: cs) = .ok (l :: ls)) : l.line = p.line ∧ l.column = p.column := by
  cases fuel with
  | zero => simp [scanFrom] at hs
  | succ fuel =>
    rw [scanFrom, skipTrivia_cons p _ h] at hs
    simp only [List.isEmpty_cons, Bool.false_eq_true, if_false] at hs
    split at hs
    · contradiction
    · next found _ =>
      cases htail : scanFrom fuel (p.after found.text) found.rest with
      | error e =>
        rw [htail] at hs
        contradiction
      | ok ls' =>
        rw [htail] at hs
        obtain ⟨rfl, -⟩ := List.cons.inj (Except.ok.inj hs)
        exact ⟨rfl, rfl⟩

/-- The tokens of a text up to the end of the script. -/
theorem Scans.scan {text : String} (h : Scans text.toList ts follow) :
    ∃ ls finish, ls.map Located.token = ts ∧ finish.token = .finish ∧
      Script.scan text = .ok (ls ++ [finish]) := by
  have hlen := h.length_le
  obtain ⟨ls, hl, hrun⟩ := h (text.toList.length + 1) {} [] (by simp) (by omega)
  obtain ⟨fuel, hfuel⟩ : ∃ fuel, text.toList.length + 1 - ts.length = fuel + 1 :=
    ⟨text.toList.length - ts.length, by omega⟩
  rw [hfuel, List.append_nil] at hrun
  exact ⟨ls, _, hl, rfl, hrun⟩

/-- The tokens of a text that is written, up to the end of the script. -/
theorem Written.scan (h : Written follow P text) :
    ∃ ts ls finish, P ts ∧ Inline ts ∧ ls.map Located.token = ts ∧ finish.token = .finish ∧
      Script.scan text = .ok (ls ++ [finish]) := by
  obtain ⟨ts, hs, hi, ht⟩ := h.tokens
  obtain ⟨ls, finish, hl, hf, hscan⟩ := hs.scan
  exact ⟨ts, ls, finish, ht, hi, hl, hf, hscan⟩

/-- A line that starts at the level of its block opens and closes none. -/
theorem layoutFrom_lineStart {l : Located} (hn : l.token ≠ .newLine) (hf : l.token ≠ .finish)
    (hc : l.column = level) (outer : List Nat) (rest : List Located) :
    layoutFrom (level :: outer) depth true (l :: rest) =
      layoutFrom (level :: outer) depth false (l :: rest) := by
  have hindent : indentLine (level :: outer) l = .ok ([], level :: outer) := by
    simp [indentLine, closeLevels, hc]
  rw [layoutFrom, layoutFrom]
  cases ht : l.token <;> simp_all

/-- The end of the script ends its last line. -/
theorem layoutFrom_finish {finish : Located} (hf : finish.token = .finish) :
    layoutFrom [1] 0 false [finish] = .ok [finish.with .newLine, finish] := by
  rw [layoutFrom, hf]
  rfl

theorem Token.startsTerm_ne (h : Token.startsTerm t = true) :
    t ≠ .newLine ∧ t ≠ .finish ∧ t ≠ .indent ∧ (∀ k, t = .keyword k → k ≠ .pass_ ∧ k ≠ .import_ ∧
      k ≠ .from_ ∧ k ≠ .with_) := by
  refine ⟨?_, ?_, ?_, ?_⟩
  · rintro rfl
    contradiction
  · rintro rfl
    contradiction
  · rintro rfl
    contradiction
  · rintro k rfl
    cases k <;> first | contradiction | decide

/-- The layout of a text that is one term. -/
theorem IsTerm.lex (h : IsTerm text v) :
    ∃ ts ls finish, ReadsTerm ts v ∧ ls.map Located.token = ts ∧ finish.token = .finish ∧
      (∃ l ∈ ls.head?, l.line = 1) ∧ Script.lex text = .ok (ls ++ [finish.with .newLine, finish]) := by
  obtain ⟨c, cs, htext, hstart, -⟩ := h.starts
  obtain ⟨ts, ls, finish, ht, hi, hl, hf, hscan⟩ := h.scan
  obtain ⟨t, ts', rfl, hstarts⟩ := ht.starts
  obtain ⟨l, ls', rfl, rfl, hm⟩ := List.map_eq_cons_iff.mp hl
  obtain ⟨hn, hne, -, -⟩ := Token.startsTerm_ne hstarts
  have hhead : l.line = 1 ∧ l.column = 1 := by
    rw [Script.scan, htext] at hscan
    exact scanFrom_head hstart hscan
  refine ⟨_, l :: ls', finish, ht, hl, hf, ⟨l, rfl, hhead.1⟩, ?_⟩
  have hend := layoutFrom_finish hf
  rw [Script.lex, hscan]
  change layoutFrom [1] 0 true (l :: (ls' ++ [finish])) = _
  rw [layoutFrom_lineStart hn hne hhead.2, ← List.cons_append, hi [1] 0 _ _ hl, hend]
  rfl

theorem expression_run (h : ReadsTerm ts v) {ls : List Located} (hl : ls.map Located.token = ts)
    (rest : List Located) (hrest : ∃ t ∈ rest.head?, EndsTerm t.token) :
    expression (ls ++ rest) = .ok (v, rest) := by
  refine h _ ls rest hl hrest ?_
  rw [← hl, List.length_map, List.length_append]
  omega

/-- A statement that starts with a term. -/
theorem simpleContent_run {l : Located} (h : Token.startsTerm l.token = true)
    (ls : List Located) :
    simpleContent (l :: ls) = (do
      let target ← expression
      let after ← peek
      if after.token = .equals then
        skip
        let value ← expression
        return Stmt.assign l.line target value
      else return Stmt.term l.line target : Parser Stmt) (l :: ls) := by
  obtain ⟨-, -, -, hkeyword⟩ := Token.startsTerm_ne h
  rw [simpleContent, bind_run, peek_run]
  simp only
  cases ht : l.token with
  | keyword k =>
    obtain ⟨hp, hi, hf, -⟩ := hkeyword k ht
    cases k <;> first | contradiction | rfl
  | _ => rfl

/-- A line that opens no block. -/
theorem statement_simple {l : Located} (h : l.token ≠ .keyword .with_) (ls : List Located)
    (fuel : Nat) : statement (fuel + 1) (l :: ls) = simple (l :: ls) := by
  rw [statement, bind_run, peek_run]
  simp only [h, if_false]

theorem simple_run {ls : List Located} {n : Located} (hn : n.token = .newLine)
    (h : simpleContent (ls ++ n :: rest) = .ok (stmt, n :: rest)) :
    simple (ls ++ n :: rest) = .ok (stmt, rest) := by
  rw [simple, bind_run, h]
  simp only
  rw [bind_run, expect_run hn]
  rfl

theorem not_with_of_startsTerm (h : Token.startsTerm t = true) : t ≠ .keyword .with_ :=
  fun ht => ((Token.startsTerm_ne h).2.2.2 _ ht).2.2.2 rfl

/-- A term and the end of its line are a statement. -/
theorem statement_run (h : ReadsTerm ts v) {ls : List Located} {l n : Located}
    (hl : (l :: ls).map Located.token = ts) (hn : n.token = .newLine) (rest : List Located)
    (fuel : Nat) :
    statement (fuel + 1) (l :: ls ++ n :: rest) = .ok (.term l.line v, rest) := by
  obtain ⟨t, ts', rfl, hstarts⟩ := h.starts
  obtain rfl : l.token = t := by simpa using (List.cons.inj hl).1
  have hrun := expression_run h hl (n :: rest) ⟨n, rfl, by simp [hn, EndsTerm, EndsOperand]⟩
  rw [List.cons_append, statement_simple (not_with_of_startsTerm hstarts), ← List.cons_append]
  refine simple_run hn ?_
  rw [List.cons_append, simpleContent_run hstarts, bind_run, ← List.cons_append, hrun]
  simp only
  rw [bind_run, peek_run]
  simp [hn]

/-- Tokens of a term on the first line are a script of one statement. -/
theorem ReadsTerm.parse (ht : ReadsTerm ts v) {ls : List Located} (hl : ls.map Located.token = ts)
    (hf : finish.token = .finish) (hline : ∃ l ∈ ls.head?, l.line = 1)
    (hlex : Script.lex text = .ok (ls ++ [finish.with .newLine, finish])) :
    Script.parse text = .ok [.term 1 v] := by
  obtain ⟨l, hhead, hline⟩ := hline
  obtain ⟨t, ts', rfl, hstarts⟩ := ht.starts
  obtain ⟨l', ls', rfl, rfl, -⟩ := List.map_eq_cons_iff.mp hl
  obtain rfl : l' = l := by simpa using hhead
  obtain ⟨-, hne, hindent, -⟩ := Token.startsTerm_ne hstarts
  have hnewLine : (finish.with .newLine).token = .newLine := rfl
  have hstatement (fuel : Nat) := statement_run ht hl hnewLine [finish] fuel
  rw [Script.parse, hlex]
  simp only [bind, Except.bind]
  have hfuel : 3 * (l' :: ls' ++ [finish.with .newLine, finish]).length + 3 =
      3 * (l' :: ls' ++ [finish.with .newLine, finish]).length + 2 + 1 := rfl
  rw [hfuel]
  generalize 3 * (l' :: ls' ++ [finish.with .newLine, finish]).length = n
  have hblock : Parser.block .finish (n + 2 + 1) (l' :: ls' ++ [finish.with .newLine, finish]) =
      .ok ([.term l'.line v], []) := by
    rw [block, List.cons_append, bind_run, peek_run]
    simp only [hne, hindent, if_false]
    rw [bind_run, ← List.cons_append, hstatement]
    simp only
    rw [bind_run, block, bind_run, peek_run]
    simp only [hf, if_true]
    rw [bind_run, skip_run]
    rfl
  rw [hblock, hline]
  rfl

/-- The text of a term is a script of one statement. -/
theorem IsTerm.parse (h : IsTerm text v) : Script.parse text = .ok [.term 1 v] := by
  obtain ⟨ts, ls, finish, ht, hl, hf, hhead, hlex⟩ := h.lex
  exact ht.parse hl hf hhead hlex

end Qua.Script
