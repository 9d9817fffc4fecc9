import Qua.Program.Listing
import Qua.Proofs.Script.OneLine

/-!
# Outlines of scripts

A script is written line by line, with blocks indented under the lines that open them. An outline is
the text of such lines as a tree. Its lines are scanned, laid out and parsed as the statements that
the outline stands for, whatever their numbers are. Main statement: `ReadsAll.parse`.
-/

namespace Qua.Script

open Qua.Script.Parser
open Text (IsIdentifier)

-- ---------------------------------------------------------------------------
-- Outlines and their statements
-- ---------------------------------------------------------------------------

/-- A line of a script, or a line and the block under it. -/
inductive Outline
  | pass
  | term (text : String)
  | assign (name text : String)
  | block (context : String) (body : List Outline)

mutual

/-- The lines of an outline at a depth. -/
def Outline.lines (depth : Nat) : Outline → List Line
  | .pass => [⟨depth, "pass"⟩]
  | .term text => [⟨depth, text⟩]
  | .assign name text => [⟨depth, name ++ " = " ++ text⟩]
  | .block context body => ⟨depth, "with " ++ context ++ ":"⟩ :: linesOf (depth + 1) body

def linesOf (depth : Nat) : List Outline → List Line
  | [] => []
  | o :: rest => o.lines depth ++ linesOf depth rest

end

theorem linesOf_append (depth : Nat) (os os' : List Outline) :
    linesOf depth (os ++ os') = linesOf depth os ++ linesOf depth os' := by
  induction os with
  | nil => rfl
  | cons o os ih => rw [List.cons_append, linesOf, ih, linesOf, List.append_assoc]

/-- What a block opens with, after `with` and up to the colon: a term, and a name that it may be
given. -/
def ReadsContext (ts : List Token) (context : Term × Option String) : Prop :=
  ∀ (ls : List Located) (c : Located) (rest : List Located), ls.map Located.token = ts →
    c.token = .colon →
    (do let t ← expression; let target ← blockTarget; expect .colon; return (t, target) :
      Parser (Term × Option String)) (ls ++ c :: rest) = .ok (context, rest)

abbrev IsContext (text : String) (context : Term × Option String) : Prop :=
  Written EndsNumber (ReadsContext · context) text

mutual

/-- The statement that an outline stands for, at any line. -/
inductive Reads : Outline → Stmt → Prop
  | pass (line : Nat) : Reads .pass (.pass line)
  | term (line : Nat) (h : IsTerm text t) : Reads (.term text) (.term line t)
  | assign (line : Nat) (hn : IsIdentifier name) (h : IsTerm text t) :
    Reads (.assign name text) (.assign line (.name name) t)
  | block (line : Nat) (hc : IsContext context (t, target)) (hne : body ≠ [])
    (h : ReadsAll body stmts) : Reads (.block context body) (.block line t target stmts)

inductive ReadsAll : List Outline → List Stmt → Prop
  | nil : ReadsAll [] []
  | cons (h : Reads o stmt) (hs : ReadsAll os stmts) : ReadsAll (o :: os) (stmt :: stmts)

end

theorem ReadsAll.append (h : ReadsAll os stmts) (h' : ReadsAll os' stmts') :
    ReadsAll (os ++ os') (stmts ++ stmts') := by
  induction os generalizing stmts with
  | nil =>
    cases h
    exact h'
  | cons o os ih =>
    cases h with
    | cons ho hos => exact .cons ho (ih hos)

theorem ReadsAll.of_append (h : ReadsAll (os ++ os') stmts) :
    ∃ before after, stmts = before ++ after ∧ ReadsAll os before ∧ ReadsAll os' after := by
  induction os generalizing stmts with
  | nil => exact ⟨[], stmts, rfl, .nil, h⟩
  | cons o os ih =>
    cases h with
    | cons ho hos =>
      obtain ⟨before, after, rfl, hb, ha⟩ := ih hos
      exact ⟨_ :: before, after, rfl, .cons ho hb, ha⟩

-- ---------------------------------------------------------------------------
-- The numbers of lines
-- ---------------------------------------------------------------------------

mutual

/-- The lines of a statement and of those in it. -/
def Stmt.lineNumbers : Stmt → List Nat
  | .block line _ _ body => line :: lineNumbersOf body
  | .assign line _ _ => [line]
  | .term line _ => [line]
  | .pass line => [line]
  | .importing line _ _ => [line]

def lineNumbersOf : List Stmt → List Nat
  | [] => []
  | s :: rest => s.lineNumbers ++ lineNumbersOf rest

end

theorem lineNumbersOf_append (before after : List Stmt) :
    lineNumbersOf (before ++ after) = lineNumbersOf before ++ lineNumbersOf after := by
  induction before with
  | nil => rfl
  | cons s before ih => rw [List.cons_append, lineNumbersOf, ih, lineNumbersOf, List.append_assoc]

/-- The number of the next line; there may be line breaks in the text of a line. -/
def numberAfter (number : Nat) (line : Line) : Nat := number + line.text.toList.count '\n' + 1

/-- The numbers of lines one after the other, from the first one on. -/
def numbersFrom (number : Nat) : List Line → List Nat
  | [] => []
  | line :: rest => number :: numbersFrom (numberAfter number line) rest

theorem numbersFrom_append (number : Nat) (lines lines' : List Line) :
    numbersFrom number (lines ++ lines') =
      numbersFrom number lines ++ numbersFrom (lines.foldl numberAfter number) lines' := by
  induction lines generalizing number with
  | nil => rfl
  | cons line lines ih =>
    rw [List.cons_append, numbersFrom, ih]
    rfl

theorem length_numbersFrom (number : Nat) (lines : List Line) :
    (numbersFrom number lines).length = lines.length := by
  induction lines generalizing number with
  | nil => rfl
  | cons line lines ih => rw [numbersFrom, List.length_cons, ih, List.length_cons]

theorem Position.after_line (p : Position) (text : List Char) :
    (p.after text).line = p.line + text.count '\n' := by
  induction text generalizing p with
  | nil => rfl
  | cons c text ih =>
    have hnext : (p.next c).line = p.line + if c == '\n' then 1 else 0 := by
      by_cases hc : c = '\n' <;> simp [Position.next, hc]
    change ((p.next c).after text).line = _
    rw [ih, hnext, List.count_cons]
    omega

-- ---------------------------------------------------------------------------
-- Texts are written in one way
-- ---------------------------------------------------------------------------

/-- A text is written as one term only. -/
theorem IsTerm.unique (h : IsTerm text t) (h' : IsTerm text t') : t = t' := by
  have hp := h.parse
  rw [h'.parse] at hp
  simpa using hp.symm

/-- A text is written as one sequence of tokens only. -/
theorem Written.tokens_unique (h : Written follow P text) (h' : Written follow' P' text) :
    ∃ ts, P ts ∧ P' ts := by
  obtain ⟨ts, ls, finish, ht, -, hl, -, hscan⟩ := h.scan
  obtain ⟨ts', ls', finish', ht', -, hl', -, hscan'⟩ := h'.scan
  rw [hscan] at hscan'
  obtain ⟨rfl, -⟩ := List.append_inj' (Except.ok.inj hscan') rfl
  obtain rfl : ts = ts' := hl.symm.trans hl'
  exact ⟨ts, ht, ht'⟩

theorem IsContext.unique (h : IsContext text context) (h' : IsContext text context') :
    context = context' := by
  obtain ⟨ts, ht, ht'⟩ := h.tokens_unique h'
  obtain ⟨ls, hl⟩ := exists_located ts
  have hrun := ht ls ⟨.colon, 0, 0⟩ [] hl rfl
  rw [ht' ls ⟨.colon, 0, 0⟩ [] hl rfl] at hrun
  exact (Prod.mk.inj (Except.ok.inj hrun)).1.symm

-- ---------------------------------------------------------------------------
-- Scanning a line
-- ---------------------------------------------------------------------------

theorem Scans.newLine : Scans ['\n'] [.newLine] fun _ => True :=
  .of_lexeme (by decide) fun _ _ => rfl

theorem Scans.indentation (depth : Nat) : Scans (Line.indentation depth).toList [] fun _ => True := by
  induction depth with
  | zero => exact .nil _
  | succ depth ih =>
    rw [Line.indentation, String.toList_append]
    have hblanks : Scans "    ".toList [] fun _ => True :=
      (Scans.blank _).append ((Scans.blank _).append ((Scans.blank _).append (.blank _)
        fun _ _ _ _ => trivial) fun _ _ _ _ => trivial) fun _ _ _ _ => trivial
    exact hblanks.append ih fun _ _ _ _ => trivial

theorem after_indentation (depth : Nat) (p : Position) :
    p.after (Line.indentation depth).toList = ⟨p.line, p.column + 4 * depth⟩ := by
  induction depth generalizing p with
  | zero => rfl
  | succ depth ih =>
    have hsplit : p.after (Line.indentation (depth + 1)).toList =
        (p.after "    ".toList).after (Line.indentation depth).toList := by
      rw [Line.indentation, String.toList_append, Position.after, List.foldl_append]
      rfl
    have hblanks : p.after "    ".toList = ⟨p.line, p.column + 4⟩ := rfl
    rw [hsplit, hblanks, ih, Nat.mul_succ, Nat.add_comm (4 * depth), ← Nat.add_assoc]

theorem after_newLine (p : Position) (cs : List Char) : (p.after (cs ++ ['\n'])).column = 1 := by
  simp [Position.after, Position.next]

/-- The column at which the lines of a depth start. -/
def columnOf (depth : Nat) : Nat := 4 * depth + 1

/-- The tokens start in a line, and where lines of a depth do. -/
def StartsLine (depth number : Nat) (ls : List Located) : Prop :=
  ∃ l ∈ ls.head?, l.line = number ∧ l.column = columnOf depth

/-- The tokens of a line of a script, with the line break at its end. -/
structure IsLine (depth number : Nat) (P : List Token → Prop) (ls : List Located) (n : Located) : Prop where
  tokens : P (ls.map Located.token)
  inline : Inline (ls.map Located.token)
  starts : StartsLine depth number ls
  newLine : n.token = .newLine

/-- Tokens that start where lines of a depth do, with the line break after them. -/
structure Aligned (depth number : Nat) (ts : List Token) (ls : List Located) (n : Located) : Prop where
  tokens : ls.map Located.token = ts
  starts : StartsLine depth number ls
  newLine : n.token = .newLine

theorem Aligned.isLine (h : Aligned depth number ts ls n) (hi : Inline ts) (hp : P ts) :
    IsLine depth number P ls n :=
  ⟨h.tokens ▸ hp, h.tokens ▸ hi, h.starts, h.newLine⟩

/-- A line is scanned as the tokens of its text, which start where its depth says, and a line break. -/
theorem scan_line (hs : Scans text.toList ts EndsNumber)
    (hstarts : ∃ c cs, text.toList = c :: cs ∧ startsToken c = true) (hne : ts ≠ []) (depth : Nat)
    (p : Position) (hp : p.column = 1) (fuel : Nat) (rest : List Char)
    (hfuel : ((Line.render ⟨depth, text⟩).toList ++ rest).length < fuel) :
    ∃ fuel' p', rest.length < fuel' ∧ p'.column = 1 ∧ p'.line = numberAfter p.line ⟨depth, text⟩ ∧
      ∀ tail, scanFrom fuel' p' rest = .ok tail → ∃ ls n, Aligned depth p.line ts ls n ∧
        scanFrom fuel p ((Line.render ⟨depth, text⟩).toList ++ rest) = .ok (ls ++ n :: tail) := by
  obtain ⟨c, cs, htext, hstart⟩ := hstarts
  have hlen := hs.length_le
  have hrender : (Line.render ⟨depth, text⟩).toList ++ rest =
      (Line.indentation depth).toList ++ (text.toList ++ '\n' :: rest) := by
    simp [Line.render]
  rw [hrender] at hfuel ⊢
  simp only [List.length_append, List.length_cons] at hfuel
  -- the indentation has no tokens
  obtain ⟨ls₀, hl₀, hindent⟩ := Scans.indentation depth fuel p (text.toList ++ '\n' :: rest)
    (fun _ _ => trivial) (Nat.zero_le _)
  obtain rfl := List.map_eq_nil_iff.mp hl₀
  rw [after_indentation depth p] at hindent
  let q : Position := ⟨p.line, p.column + 4 * depth⟩
  have hends : ∀ c ∈ ('\n' :: rest).head?, EndsNumber c := by
    intro c hc
    obtain rfl : '\n' = c := by simpa using hc
    exact ⟨by decide, by decide⟩
  obtain ⟨ls, hl, hline⟩ := hs fuel q ('\n' :: rest) hends (by omega)
  obtain ⟨ns, hn, hbreak⟩ := Scans.newLine (fuel - ts.length) (q.after text.toList) rest
    (fun _ _ => trivial) (by simp only [List.length_singleton]; omega)
  obtain ⟨n, ns, rfl, hbreakToken, hm⟩ := List.map_eq_cons_iff.mp hn
  obtain rfl := List.map_eq_nil_iff.mp hm
  refine ⟨fuel - ts.length - 1, (q.after text.toList).after ['\n'], by omega, ?_, ?_, ?_⟩
  · exact after_newLine (q.after text.toList) []
  · rw [Position.after_line, Position.after_line]
    rfl
  · intro tail htail
    have hscan : scanFrom fuel q (text.toList ++ '\n' :: rest) = .ok (ls ++ n :: tail) := by
      rw [List.singleton_append, List.length_singleton, htail] at hbreak
      rw [hline, hbreak]
      rfl
    refine ⟨ls, n, ⟨hl, ?_, hbreakToken⟩, ?_⟩
    · cases ls with
      | nil => exact absurd hl.symm hne
      | cons l ls =>
        rw [htext, List.cons_append] at hscan
        obtain ⟨hline, hcolumn⟩ := scanFrom_head hstart hscan
        refine ⟨l, rfl, hline, hcolumn.trans ?_⟩
        change p.column + 4 * depth = columnOf depth
        rw [hp, columnOf, Nat.add_comm]
    · rw [hindent, List.length_nil, Nat.sub_zero, hscan]
      rfl

-- ---------------------------------------------------------------------------
-- The layout of a line
-- ---------------------------------------------------------------------------

/-- The levels that are open inside blocks of a depth. -/
def levelsOf : Nat → List Nat
  | 0 => [columnOf 0]
  | depth + 1 => columnOf (depth + 1) :: levelsOf depth

/-- What follows the lines of a block of a depth: a line that is not deeper, or the end. -/
def FollowsBlock (depth : Nat) (ls : List Located) : Prop :=
  ∃ l ∈ ls.head?, l.token = .finish ∨
    l.token ≠ .newLine ∧ ∃ outer ≤ depth, l.column = columnOf outer

theorem FollowsBlock.mono (h : FollowsBlock depth ls) (hd : depth ≤ depth') :
    FollowsBlock depth' ls := by
  obtain ⟨l, hl, hf | ⟨hn, outer, ho, hc⟩⟩ := h
  · exact ⟨l, hl, .inl hf⟩
  · exact ⟨l, hl, .inr ⟨hn, outer, Nat.le_trans ho hd, hc⟩⟩

theorem levelsOf_eq (depth : Nat) : ∃ outer, levelsOf depth = columnOf depth :: outer := by
  cases depth with
  | zero => exact ⟨[], rfl⟩
  | succ depth => exact ⟨levelsOf depth, rfl⟩

theorem length_levelsOf (depth : Nat) : (levelsOf depth).length = depth + 1 := by
  induction depth with
  | zero => rfl
  | succ depth ih => rw [levelsOf, List.length_cons, ih]

/-- A line that is not deeper than the block outside closes one level more. -/
theorem indentLine_succ {l : Located} (hd : outer ≤ depth) (hc : l.column = columnOf outer) :
    indentLine (levelsOf (depth + 1)) l =
      (fun (marks, levels) => (l.with .dedent :: marks, levels)) <$>
        indentLine (levelsOf depth) l := by
  obtain ⟨rest, hlevels⟩ := levelsOf_eq depth
  have hlt : l.column < columnOf (depth + 1) := by
    rw [hc, columnOf, columnOf]
    omega
  have hle : ¬ columnOf depth < l.column := by
    rw [hc, columnOf, columnOf]
    omega
  have hclose : closeLevels l.column (levelsOf (depth + 1)) =
      ((closeLevels l.column (levelsOf depth)).1 + 1, (closeLevels l.column (levelsOf depth)).2) := by
    rw [levelsOf, closeLevels, if_pos hlt]
  have hhead : (levelsOf (depth + 1)).head?.any (· < l.column) = false := by
    simp only [levelsOf, List.head?_cons, Option.any_some, decide_eq_false_iff_not]
    omega
  have hhead' : (levelsOf depth).head?.any (· < l.column) = false := by
    simp only [hlevels, List.head?_cons, Option.any_some, decide_eq_false_iff_not]
    exact hle
  rw [indentLine, indentLine, hhead, hhead', hclose]
  simp only [Bool.false_eq_true, if_false]
  split
  · rw [List.replicate_succ]
    rfl
  · rfl

/-- The layout of a token that is no line break and not the end. -/
theorem layoutFrom_token {l : Located} (hn : l.token ≠ .newLine) (hf : l.token ≠ .finish)
    (levels : List Nat) (depth : Nat) (atLineStart : Bool) (rest : List Located) :
    layoutFrom levels depth atLineStart (l :: rest) = do
      let (marks, levels) ← if atLineStart then indentLine levels l else .ok ([], levels)
      let depth ← bracketDepth depth l
      let rest ← layoutFrom levels depth false rest
      return marks ++ l :: rest := by
  rw [layoutFrom]
  cases ht : l.token <;> first | exact absurd ht hn | exact absurd ht hf | rfl

/-- The end of a block. -/
theorem layoutFrom_dedent (h : FollowsBlock depth ls) :
    ∃ t : Located, t.token = .dedent ∧
      layoutFrom (levelsOf (depth + 1)) 0 true ls =
        (t :: ·) <$> layoutFrom (levelsOf depth) 0 true ls := by
  obtain ⟨l, hl, h⟩ := h
  cases ls with
  | nil => contradiction
  | cons l' ls =>
    obtain rfl : l' = l := by simpa using hl
    refine ⟨l'.with .dedent, rfl, ?_⟩
    by_cases hf : l'.token = .finish
    · rw [layoutFrom, layoutFrom, hf]
      simp [closing, length_levelsOf, List.replicate_succ, Functor.map, Except.map]
    · obtain ⟨hn, outer, ho, hc⟩ := h.resolve_left hf
      rw [layoutFrom_token hn hf, layoutFrom_token hn hf]
      simp only [if_true, indentLine_succ ho hc]
      cases indentLine (levelsOf depth) l' with
      | error e => rfl
      | ok result =>
        obtain ⟨marks, levels⟩ := result
        simp only [Functor.map, Except.map, bind, Except.bind]
        cases bracketDepth 0 l' with
        | error e => rfl
        | ok depth' =>
          simp only
          cases layoutFrom levels depth' false ls <;> rfl

/-- The beginning of a block. -/
theorem layoutFrom_indent {l : Located} (hn : l.token ≠ .newLine) (hf : l.token ≠ .finish)
    (hc : l.column = columnOf (depth + 1)) (ls : List Located) :
    layoutFrom (levelsOf depth) 0 true (l :: ls) =
      (l.with .indent :: ·) <$> layoutFrom (levelsOf (depth + 1)) 0 true (l :: ls) := by
  obtain ⟨outer, hlevels⟩ := levelsOf_eq depth
  have hdeeper : indentLine (levelsOf depth) l =
      .ok ([l.with .indent], levelsOf (depth + 1)) := by
    have hhead : (levelsOf depth).head?.any (· < l.column) = true := by
      simp only [hlevels, List.head?_cons, Option.any_some, decide_eq_true_eq, hc, columnOf]
      omega
    rw [indentLine, if_pos hhead, hc]
    rfl
  have hsame : indentLine (levelsOf (depth + 1)) l = .ok ([], levelsOf (depth + 1)) := by
    simp [indentLine, closeLevels, levelsOf, hc]
  rw [layoutFrom_token hn hf, layoutFrom_token hn hf]
  simp only [if_true, hdeeper, hsame, bind, Except.bind]
  cases bracketDepth 0 l with
  | error e => rfl
  | ok depth' =>
    simp only
    cases layoutFrom (levelsOf (depth + 1)) depth' false ls <;> rfl

/-- A line of a block leaves the levels as they are. -/
theorem IsLine.layout (h : IsLine depth number P ls n) (hs : ∀ l ∈ ls.head?, l.token ≠ .newLine ∧
    l.token ≠ .finish) (rest : List Located) :
    layoutFrom (levelsOf depth) 0 true (ls ++ n :: rest) =
      (ls ++ n :: ·) <$> layoutFrom (levelsOf depth) 0 true rest := by
  obtain ⟨l, hl, -, hc⟩ := h.starts
  obtain ⟨outer, hlevels⟩ := levelsOf_eq depth
  have hbreak : layoutFrom (levelsOf depth) 0 false (n :: rest) =
      (n :: ·) <$> layoutFrom (levelsOf depth) 0 true rest := by
    rw [layoutFrom, h.newLine]
    simp only [decide_true, Bool.not_false, Bool.and_self, if_true, bind, Except.bind]
    cases layoutFrom (levelsOf depth) 0 true rest <;> rfl
  have hinline := h.inline (levelsOf depth) 0 ls (n :: rest) rfl
  cases ls with
  | nil => contradiction
  | cons l' ls =>
    obtain rfl : l' = l := by simpa using hl
    obtain ⟨hn, hf⟩ := hs l' rfl
    rw [hlevels] at hinline hbreak ⊢
    rw [List.cons_append, layoutFrom_lineStart hn hf hc, ← List.cons_append, hinline, hbreak]
    cases layoutFrom (columnOf depth :: outer) 0 true rest <;> simp [Functor.map, Except.map]

-- ---------------------------------------------------------------------------
-- Lines as they are written
-- ---------------------------------------------------------------------------

theorem isLine_pass : Written EndsNumber (· = [.keyword .pass_]) "pass" := by
  refine ⟨⟨'p', ['a', 's', 's'], rfl, by decide, by simp [EndsOperator]⟩, [.keyword .pass_], ?_,
    .token rfl, rfl⟩
  have h : Scans ('p' :: ['a', 's', 's']) [(nameLexeme ['p', 'a', 's', 's']).token] EndsName :=
    .word (by decide) rfl
  exact h.mono fun _ hc => hc.1

theorem Scans.assign {name : String} (hn : IsIdentifier name) (hs : Scans text.toList ts EndsNumber) :
    Scans (name ++ " = " ++ text).toList (.name name :: .equals :: ts) EndsNumber := by
  have htext : (name ++ " = " ++ text).toList =
      name.toList ++ ' ' :: '=' :: ' ' :: text.toList := by
    rw [String.toList_append, String.toList_append, List.append_assoc]
    rfl
  have hblank : Scans (' ' :: text.toList) ([] ++ ts) EndsNumber :=
    (Scans.blank fun _ => True).append hs fun _ _ _ _ => trivial
  have hequals : Scans ('=' :: ' ' :: text.toList) ([.equals] ++ ts) EndsNumber :=
    Scans.equals.append_cons hblank ⟨by decide, by decide, by decide⟩
  have hright : Scans (' ' :: '=' :: ' ' :: text.toList) ([] ++ ([.equals] ++ ts)) EndsNumber :=
    (Scans.blank fun _ => True).append hequals fun _ _ _ _ => trivial
  rw [htext]
  exact (Scans.name hn).append_cons hright (show Text.isNamePart _ = false by decide)

theorem isLine_assign (hn : IsIdentifier name) (h : IsTerm text t) :
    Written EndsNumber (ReadsKeyword · (name, t)) (name ++ " = " ++ text) := by
  obtain ⟨ts, hs, hi, ht⟩ := h.tokens
  have hname := IsPrimary.name hn
  exact ⟨by rw [String.append_assoc]; exact hname.starts_append _, .name name :: .equals :: ts,
    .assign hn hs, (Inline.token (t := .name name) rfl).append ((Inline.token (t := .equals) rfl).append hi),
    ts, rfl, ht⟩

/-- The line that opens a block. -/
def ReadsHeader (ts : List Token) (context : Term × Option String) : Prop :=
  ∃ ts', ts = .keyword .with_ :: (ts' ++ [.colon]) ∧ ReadsContext ts' context

theorem isLine_header (h : IsContext text context) :
    Written EndsNumber (ReadsHeader · context) ("with " ++ text ++ ":") := by
  obtain ⟨ts, hs, hi, ht⟩ := h.tokens
  refine ⟨⟨'w', "ith ".toList ++ text.toList ++ [':'], by simp, by decide, by simp [EndsOperator]⟩,
    .keyword .with_ :: (ts ++ [.colon]), ?_,
    (Inline.token (t := .keyword .with_) rfl).append (hi.append (.token (t := .colon) rfl)), ts, rfl, ht⟩
  have hword : Scans ('w' :: ['i', 't', 'h']) [(nameLexeme ['w', 'i', 't', 'h']).token] EndsName :=
    .word (by decide) rfl
  have hcolon : Scans (text.toList ++ [':']) (ts ++ [.colon]) EndsNumber :=
    hs.append_cons (Scans.colon.mono fun _ _ => trivial) ⟨by decide, by decide⟩
  have hblank : Scans (' ' :: (text.toList ++ [':'])) ([] ++ (ts ++ [.colon])) EndsNumber :=
    (Scans.blank fun _ => True).append hcolon fun _ _ _ _ => trivial
  have htext : ("with " ++ text ++ ":").toList =
      ['w', 'i', 't', 'h'] ++ ' ' :: (text.toList ++ [':']) := by simp
  rw [htext]
  exact hword.append_cons hblank (show Text.isNamePart _ = false by decide)

theorem IsTerm.context (h : IsTerm text t) : IsContext text (t, none) := by
  refine h.mono (fun _ hc => hc) fun ts ht ls c rest hl hc => ?_
  have hrun := expression_run ht hl (c :: rest) ⟨c, rfl, by simp [hc, EndsTerm, EndsOperand]⟩
  rw [bind_run, hrun]
  simp only
  rw [bind_run, blockTarget, bind_run, peek_run]
  simp only [hc, reduceCtorEq, if_false, pure_run]
  rw [bind_run, expect_run hc]
  rfl

/-- A context with a name. -/
theorem IsTerm.named (h : IsTerm text t) (hn : IsIdentifier name) :
    IsContext (text ++ " as " ++ name) (t, some name) := by
  obtain ⟨ts, hs, hi, ht⟩ := h.tokens
  have hinline : Inline [.keyword .as_, .name name] :=
    (Inline.token (t := .keyword .as_) rfl).append (.token (t := .name name) rfl)
  refine ⟨by rw [String.append_assoc]; exact h.starts_append _, ts ++ [.keyword .as_, .name name], ?_,
    hi.append hinline, ?_⟩
  · have hword : Scans ('a' :: ['s']) [(nameLexeme ['a', 's']).token] EndsName :=
      .word (by decide) rfl
    have hname : Scans (' ' :: name.toList) ([] ++ [.name name]) EndsNumber :=
      (Scans.blank fun _ => True).append ((Scans.name hn).mono fun _ hc => hc.1)
        fun _ _ _ _ => trivial
    have has : Scans (['a', 's'] ++ ' ' :: name.toList) ([.keyword .as_] ++ [.name name]) EndsNumber :=
      hword.append_cons hname (show Text.isNamePart _ = false by decide)
    have hblank : Scans (' ' :: (['a', 's'] ++ ' ' :: name.toList))
        ([] ++ ([.keyword .as_] ++ [.name name])) EndsNumber :=
      (Scans.blank fun _ => True).append has fun _ _ _ _ => trivial
    have htext : (text ++ " as " ++ name).toList =
        text.toList ++ ' ' :: (['a', 's'] ++ ' ' :: name.toList) := by simp
    rw [htext]
    exact hs.append_cons hblank ⟨by decide, by decide⟩
  · intro ls c rest hl hc
    obtain ⟨ls₁, ls₂, rfl, hl₁, hl₂⟩ := List.map_eq_append_iff.mp hl
    obtain ⟨la, ls₂, rfl, ha, hl₂⟩ := List.map_eq_cons_iff.mp hl₂
    obtain ⟨ln, ls₂, rfl, hn, hl₂⟩ := List.map_eq_cons_iff.mp hl₂
    obtain rfl := List.map_eq_nil_iff.mp hl₂
    have hrun := expression_run ht hl₁ (la :: ln :: c :: rest)
      ⟨la, rfl, by simp [ha, EndsTerm, EndsOperand]⟩
    rw [List.append_assoc]
    change (do let t ← expression; let target ← blockTarget; expect .colon; return (t, target) :
      Parser (Term × Option String)) (ls₁ ++ la :: ln :: c :: rest) = _
    rw [bind_run, hrun]
    simp only
    rw [bind_run, blockTarget, bind_run, peek_run]
    simp only [ha, if_true]
    rw [bind_run, skip_run]
    simp only
    rw [map_run, takeName, bind_run, next_run]
    simp only [hn, pure_run]
    rw [bind_run, expect_run hc]
    rfl

-- ---------------------------------------------------------------------------
-- Lines as statements
-- ---------------------------------------------------------------------------

/-- With the end of the line, the tokens are a statement at the line of the first one. -/
def ReadsStatement (ls : List Located) (n : Located) (stmt : Nat → Stmt) : Prop :=
  ∃ l ∈ ls.head?, l.token ≠ .newLine ∧ l.token ≠ .finish ∧ l.token ≠ .indent ∧ l.token ≠ .dedent ∧
    ∀ fuel rest, statement (fuel + 1) (ls ++ n :: rest) = .ok (stmt l.line, rest)

theorem readsStatement_pass {ls : List Located} (hl : ls.map Located.token = [.keyword .pass_])
    (hn : n.token = .newLine) : ReadsStatement ls n .pass := by
  obtain ⟨l, ls, rfl, ht, hm⟩ := List.map_eq_cons_iff.mp hl
  obtain rfl := List.map_eq_nil_iff.mp hm
  refine ⟨l, rfl, by simp [ht], by simp [ht], by simp [ht], by simp [ht], fun fuel rest => ?_⟩
  rw [List.singleton_append, statement_simple (by simp [ht]), ← List.singleton_append]
  refine simple_run hn ?_
  rw [simpleContent, List.singleton_append, bind_run, peek_run]
  simp only [ht]
  rw [bind_run, skip_run]
  rfl

theorem not_dedent_of_startsTerm (h : Token.startsTerm t = true) : t ≠ .dedent := by
  rintro rfl
  contradiction

theorem readsStatement_term (h : ReadsTerm (ls.map Located.token) t) (hn : n.token = .newLine) :
    ReadsStatement ls n (.term · t) := by
  obtain ⟨t₀, ts', hts, hstarts⟩ := h.starts
  obtain ⟨l, ls, rfl, rfl, -⟩ := List.map_eq_cons_iff.mp hts
  obtain ⟨hb, hf, hi, -⟩ := Token.startsTerm_ne hstarts
  exact ⟨l, rfl, hb, hf, hi, not_dedent_of_startsTerm hstarts,
    fun fuel rest => statement_run h rfl hn rest fuel⟩

theorem readsStatement_assign (h : ReadsKeyword (ls.map Located.token) (name, t))
    (hn : n.token = .newLine) : ReadsStatement ls n (.assign · (.name name) t) := by
  obtain ⟨ts', hts, ht⟩ := h
  obtain ⟨l, ls, rfl, hl, hm⟩ := List.map_eq_cons_iff.mp hts
  obtain ⟨le, ls, rfl, he, hm⟩ := List.map_eq_cons_iff.mp hm
  refine ⟨l, rfl, by simp [hl], by simp [hl], by simp [hl], by simp [hl], fun fuel rest => ?_⟩
  have hstarts : Token.startsTerm l.token = true := by
    rw [hl]
    rfl
  have hname : ReadsTerm [.name name] (.name name) :=
    (ReadsAtom.token (t := .name name) rfl).primary.operand.term
  have hsingle : [l].map Located.token = [.name name] := by simp [hl]
  have htarget := expression_run hname hsingle (le :: (ls ++ n :: rest))
    ⟨le, rfl, by simp [he, EndsTerm, EndsOperand]⟩
  have hvalue := expression_run ht hm (n :: rest) ⟨n, rfl, by simp [hn, EndsTerm, EndsOperand]⟩
  rw [List.cons_append, statement_simple (by simp [hl]), ← List.cons_append]
  refine simple_run hn ?_
  rw [List.cons_append, simpleContent_run hstarts]
  rw [List.singleton_append] at htarget
  rw [bind_run, List.cons_append, htarget]
  simp only
  rw [bind_run, peek_run]
  simp only [he, if_true]
  rw [bind_run, skip_run]
  simp only
  rw [bind_run, hvalue]
  rfl

-- ---------------------------------------------------------------------------
-- The tokens of an outline
-- ---------------------------------------------------------------------------

/-- Laid out tokens that are parsed as the statement of an outline, at the lines with the numbers. The fuel
grows with them. -/
def Parsed (numbers : List Nat) (o : Outline) (laid : List Located) : Prop :=
  (∃ l ∈ laid.head?, l.token ≠ .finish ∧ l.token ≠ .indent ∧ l.token ≠ .dedent) ∧
    ∃ stmt, Reads o stmt ∧ stmt.lineNumbers = numbers ∧
      ∀ fuel rest, 3 * laid.length ≤ fuel → statement fuel (laid ++ rest) = .ok (stmt, rest)

/-- Laid out tokens that are parsed as the statements of outlines, up to the end of their block. -/
def AllParsed (numbers : List Nat) (os : List Outline) (laid : List Located) : Prop :=
  ∃ stmts, ReadsAll os stmts ∧ lineNumbersOf stmts = numbers ∧
    ∀ (stop : Token) (fuel : Nat) (t : Located) (rest : List Located),
      stop = .dedent ∨ stop = .finish → t.token = stop → 3 * laid.length < fuel →
        block stop fuel (laid ++ t :: rest) = .ok (stmts, rest)

/-- Before what may follow a block, the layout of the tokens has a property. -/
def LaysOut (depth : Nat) (P : List Located → Prop) (ls : List Located) : Prop :=
  ∀ rest, FollowsBlock depth rest → ∃ laid, P laid ∧
    layoutFrom (levelsOf depth) 0 true (ls ++ rest) =
      (laid ++ ·) <$> layoutFrom (levelsOf depth) 0 true rest

/-- The first token is that of a line of the depth. -/
def StartsAt (depth : Nat) (ls : List Located) : Prop :=
  ∃ l ∈ ls.head?, l.token ≠ .newLine ∧ l.token ≠ .finish ∧ l.column = columnOf depth

theorem StartsAt.append (h : StartsAt depth ls) (rest : List Located) : StartsAt depth (ls ++ rest) := by
  obtain ⟨l, hl, h⟩ := h
  cases ls with
  | nil => contradiction
  | cons l' ls => exact ⟨l, hl, h⟩

theorem StartsAt.follows (h : StartsAt depth ls) : FollowsBlock depth ls := by
  obtain ⟨l, hl, hn, -, hc⟩ := h
  exact ⟨l, hl, .inr ⟨hn, depth, Nat.le_refl _, hc⟩⟩

/-- A line that is a statement. -/
theorem IsLine.parsed (h : IsLine depth number P ls n) (hs : ReadsStatement ls n stmt)
    (ho : ∀ line, Reads o (stmt line) ∧ (stmt line).lineNumbers = [line]) :
    StartsAt depth (ls ++ [n]) ∧ LaysOut depth (Parsed [number] o) (ls ++ [n]) := by
  obtain ⟨l, hl, hn, hf, hi, hd, hrun⟩ := hs
  obtain ⟨l', hl', hnumber, hc⟩ := h.starts
  obtain rfl : l = l' := by
    rw [Option.mem_def] at hl hl'
    exact Option.some.inj (hl.symm.trans hl')
  have hstart : StartsAt depth ls := ⟨l, hl, hn, hf, hc⟩
  refine ⟨hstart.append _, fun rest _ => ⟨ls ++ [n], ⟨?_, stmt l.line, (ho _).1, ?_, ?_⟩, ?_⟩⟩
  · obtain ⟨l', hl', -⟩ := hstart.append [n]
    cases ls with
    | nil => contradiction
    | cons l'' ls => exact ⟨l, hl, hf, hi, hd⟩
  · rw [(ho l.line).2, hnumber]
  · intro fuel rest hfuel
    rw [List.length_append, List.length_singleton] at hfuel
    obtain ⟨fuel, rfl⟩ : ∃ m, fuel = m + 1 := ⟨fuel - 1, by omega⟩
    rw [List.append_assoc, List.singleton_append, hrun]
  · have hhead : ∀ l' ∈ ls.head?, l'.token ≠ .newLine ∧ l'.token ≠ .finish := fun l' hl' => by
      obtain rfl : l = l' := by
        rw [Option.mem_def] at hl hl'
        exact Option.some.inj (hl.symm.trans hl')
      exact ⟨hn, hf⟩
    have hlayout := h.layout hhead rest
    rw [List.append_assoc, List.singleton_append, hlayout]
    simp

/-- A line and the block under it. -/
theorem IsLine.parsed_block {inner : List Located}
    (h : IsLine depth number (ReadsHeader · (t, target)) ls n) (hc : IsContext context (t, target))
    (hne : body ≠ []) (hstart : StartsAt (depth + 1) inner)
    (hinner : LaysOut (depth + 1) (AllParsed numbers body) inner) :
    StartsAt depth (ls ++ n :: inner) ∧
      LaysOut depth (Parsed (number :: numbers) (.block context body)) (ls ++ n :: inner) := by
  obtain ⟨ts', hts, hcontext⟩ := h.tokens
  obtain ⟨w, ls, rfl, hw, hm⟩ := List.map_eq_cons_iff.mp hts
  obtain ⟨ls, lc, rfl, hl, hlc⟩ := List.map_eq_append_iff.mp hm
  obtain ⟨c, lc, rfl, hcolon, hnil⟩ := List.map_eq_cons_iff.mp hlc
  obtain rfl := List.map_eq_nil_iff.mp hnil
  obtain ⟨hnumber, hcol⟩ : w.line = number ∧ w.column = columnOf depth := by
    obtain ⟨l, hl, hplace⟩ := h.starts
    obtain rfl : w = l := by simpa using hl
    exact hplace
  refine ⟨⟨w, rfl, by simp [hw], by simp [hw], hcol⟩, fun rest hrest => ?_⟩
  obtain ⟨laid, ⟨stmts, hreads, hnumbers, hrun⟩, hlayout⟩ := hinner rest (hrest.mono (Nat.le_succ _))
  obtain ⟨d, hd, hdedent⟩ := layoutFrom_dedent hrest
  have hheader := h.layout (fun l hl => by
    obtain rfl : w = l := by simpa using hl
    exact ⟨by simp [hw], by simp [hw]⟩) (inner ++ rest)
  obtain ⟨b, hb, hbn, hbf, hbc⟩ := hstart
  cases inner with
  | nil => contradiction
  | cons b' inner =>
    obtain rfl : b' = b := by simpa using hb
    have hindent := layoutFrom_indent hbn hbf hbc (inner ++ rest)
    refine ⟨w :: (ls ++ [c]) ++ n :: b'.with .indent :: (laid ++ [d]),
      ⟨⟨w, rfl, by simp [hw], by simp [hw], by simp [hw]⟩, .block w.line t target stmts,
        .block _ hc hne hreads, by rw [Stmt.lineNumbers, hnumber, hnumbers], ?_⟩, ?_⟩
    · intro fuel rest' hfuel
      simp only [List.length_append, List.length_cons, List.length_nil] at hfuel
      obtain ⟨fuel, rfl⟩ : ∃ m, fuel = m + 2 := ⟨fuel - 2, by omega⟩
      have hopen := hcontext ls c (n :: b'.with .indent :: (laid ++ d :: rest')) hl hcolon
      have hbody := hrun .dedent fuel d rest' (.inl rfl) hd (by omega)
      have hsuite : suite (fuel + 1) (n :: b'.with .indent :: (laid ++ d :: rest')) =
          .ok (stmts, rest') := by
        rw [suite, bind_run, peek_run]
        simp only [h.newLine, if_true]
        rw [bind_run, skip_run]
        simp only
        rw [bind_run, expect_run (by rfl)]
        exact hbody
      have hlist : w :: (ls ++ [c]) ++ n :: b'.with .indent :: (laid ++ [d]) ++ rest' =
          w :: (ls ++ c :: n :: b'.with .indent :: (laid ++ d :: rest')) := by simp
      rw [hlist, statement, bind_run, peek_run]
      simp only [hw, if_true]
      rw [bind_run, skip_run]
      simp only
      obtain ⟨t', s₁, ht, hopen⟩ := bind_eq_ok.mp hopen
      obtain ⟨target', s₂, htarget, hopen⟩ := bind_eq_ok.mp hopen
      obtain ⟨_, s₃, hexpect, hopen⟩ := bind_eq_ok.mp hopen
      obtain ⟨⟨⟩, rfl⟩ := pure_eq_ok.mp hopen
      rw [bind_run, ht]
      simp only
      rw [bind_run, htarget]
      simp only
      rw [bind_run, hexpect]
      simp only
      rw [bind_run, hsuite]
      rfl
    · have hlist : w :: (ls ++ [c]) ++ n :: b' :: inner ++ rest =
          w :: (ls ++ [c]) ++ n :: (b' :: inner ++ rest) := by simp
      rw [List.cons_append] at hlayout
      rw [hlist, hheader, List.cons_append (a := b'), hindent, hlayout, hdedent]
      cases layoutFrom (levelsOf depth) 0 true rest <;> simp [Functor.map, Except.map]

/-- A part of a script and the parts after it in its block. -/
theorem allParsed_cons (h : LaysOut depth (Parsed numbers o) ls)
    (hs' : os = [] ∧ ls' = [] ∨ StartsAt depth ls') (h' : LaysOut depth (AllParsed numbers' os) ls') :
    LaysOut depth (AllParsed (numbers ++ numbers') (o :: os)) (ls ++ ls') := by
  intro rest hrest
  obtain ⟨laid', ⟨stmts, hreads', hnumbers', hrun'⟩, hlayout'⟩ := h' rest hrest
  have hfollows : FollowsBlock depth (ls' ++ rest) := by
    obtain ⟨-, rfl⟩ | hs' := hs'
    · exact hrest
    · exact (hs'.append rest).follows
  obtain ⟨laid, ⟨⟨l, hl, hf, hi, hd⟩, stmt, hreads, hnumbers, hrun⟩, hlayout⟩ := h _ hfollows
  refine ⟨laid ++ laid', ⟨stmt :: stmts, .cons hreads hreads',
    by rw [lineNumbersOf, hnumbers, hnumbers'], ?_⟩, ?_⟩
  · intro stop fuel t rest' hstop ht hfuel
    cases laid with
    | nil => contradiction
    | cons l' laid =>
      obtain rfl : l' = l := by simpa using hl
      simp only [List.length_append, List.length_cons] at hfuel
      obtain ⟨fuel, rfl⟩ : ∃ m, fuel = m + 1 := ⟨fuel - 1, by omega⟩
      have hfirst := hrun fuel (laid' ++ t :: rest') (by simp only [List.length_cons]; omega)
      have hothers := hrun' stop fuel t rest' hstop ht (by omega)
      have hne : l'.token ≠ stop := by
        obtain rfl | rfl := hstop
        · exact hd
        · exact hf
      rw [List.append_assoc, block, List.cons_append, bind_run, peek_run]
      simp only [hne, hi, if_false]
      rw [bind_run, ← List.cons_append, hfirst]
      simp only
      rw [bind_run, hothers]
      rfl
  · rw [List.append_assoc, hlayout, hlayout']
    cases layoutFrom (levelsOf depth) 0 true rest <;> simp [Functor.map, Except.map]

theorem allParsed_nil (depth : Nat) : LaysOut depth (AllParsed [] []) [] := by
  intro rest _
  refine ⟨[], ⟨[], .nil, rfl, ?_⟩, ?_⟩
  · intro stop fuel t rest' _ ht hfuel
    obtain ⟨fuel, rfl⟩ : ∃ m, fuel = m + 1 := ⟨fuel - 1, by omega⟩
    rw [List.nil_append, block, bind_run, peek_run]
    simp only [ht, if_true]
    rw [bind_run, skip_run]
    rfl
  · rw [List.nil_append]
    cases layoutFrom (levelsOf depth) 0 true rest <;> simp [Functor.map, Except.map]

-- ---------------------------------------------------------------------------
-- Scanning an outline
-- ---------------------------------------------------------------------------

/-- The text is scanned as tokens with a property, from a column where a line starts. The property may
depend on the numbers of the first line and of the one after the text. -/
def ScansLines (text : String) (P : Nat → Nat → List Located → Prop) : Prop :=
  ∀ (fuel : Nat) (p : Position) (rest : List Char), p.column = 1 →
    (text.toList ++ rest).length < fuel → ∃ fuel' p', rest.length < fuel' ∧ p'.column = 1 ∧
      ∀ tail, scanFrom fuel' p' rest = .ok tail →
        ∃ ls, P p.line p'.line ls ∧ scanFrom fuel p (text.toList ++ rest) = .ok (ls ++ tail)

theorem ScansLines.append (h : ScansLines text P) (h' : ScansLines text' P')
    (hc : ∀ first next last ls ls', P first next ls → P' next last ls' → Q first last (ls ++ ls')) :
    ScansLines (text ++ text') Q := by
  intro fuel p rest hp hfuel
  rw [String.toList_append, List.append_assoc] at hfuel ⊢
  obtain ⟨fuel₁, p₁, hfuel₁, hp₁, hs⟩ := h fuel p (text'.toList ++ rest) hp hfuel
  obtain ⟨fuel₂, p₂, hfuel₂, hp₂, hs'⟩ := h' fuel₁ p₁ rest hp₁ hfuel₁
  refine ⟨fuel₂, p₂, hfuel₂, hp₂, fun tail htail => ?_⟩
  obtain ⟨ls', hls', htail'⟩ := hs' tail htail
  obtain ⟨ls, hls, hscan⟩ := hs _ htail'
  exact ⟨ls ++ ls', hc _ _ _ ls ls' hls hls', by rw [hscan, List.append_assoc]⟩

theorem scansLines_tokens (hs : Scans text.toList ts EndsNumber)
    (hstarts : ∃ c cs, text.toList = c :: cs ∧ startsToken c = true) (hne : ts ≠ []) (depth : Nat) :
    ScansLines (Line.render ⟨depth, text⟩) fun first last ls =>
      ∃ before n, ls = before ++ [n] ∧ Aligned depth first ts before n ∧
        last = numberAfter first ⟨depth, text⟩ := by
  intro fuel p rest hp hfuel
  obtain ⟨fuel', p', hfuel', hp', hlast, hs⟩ := scan_line hs hstarts hne depth p hp fuel rest hfuel
  refine ⟨fuel', p', hfuel', hp', fun tail htail => ?_⟩
  obtain ⟨ls, n, hl, hscan⟩ := hs tail htail
  exact ⟨ls ++ [n], ⟨ls, n, rfl, hl, hlast⟩, by rw [hscan, List.append_assoc, List.singleton_append]⟩

theorem renderAll_append (lines lines' : List Line) :
    Line.renderAll (lines ++ lines') = Line.renderAll lines ++ Line.renderAll lines' := by
  simp [Line.renderAll]

theorem ScansLines.mono (h : ScansLines text P) (hp : ∀ first last ls, P first last ls → Q first last ls) :
    ScansLines text Q := by
  intro fuel p rest hc hfuel
  obtain ⟨fuel', p', hfuel', hp', hs⟩ := h fuel p rest hc hfuel
  refine ⟨fuel', p', hfuel', hp', fun tail htail => ?_⟩
  obtain ⟨ls, hls, hscan⟩ := hs tail htail
  exact ⟨ls, hp _ _ ls hls, hscan⟩

theorem scansLines_line (h : Written EndsNumber P text) (hne : ∀ ts, P ts → ts ≠ []) (depth : Nat) :
    ScansLines (Line.render ⟨depth, text⟩) fun first last ls =>
      ∃ before n, ls = before ++ [n] ∧ IsLine depth first P before n ∧
        last = numberAfter first ⟨depth, text⟩ := by
  obtain ⟨ts, hs, hi, hp⟩ := h.tokens
  obtain ⟨c, cs, htext, hstart, -⟩ := h.starts
  refine (scansLines_tokens hs ⟨c, cs, htext, hstart⟩ (hne ts hp) depth).mono ?_
  rintro first last _ ⟨ls, n, rfl, hl, hlast⟩
  exact ⟨ls, n, rfl, hl.isLine hi hp, hlast⟩

theorem renderAll_singleton (line : Line) : Line.renderAll [line] = line.render := by
  simp [Line.renderAll]

theorem renderAll_cons (line : Line) (lines : List Line) :
    Line.renderAll (line :: lines) = line.render ++ Line.renderAll lines := by
  simp [Line.renderAll]

/-- Lines of a depth that are parsed with the numbers they have. -/
structure TakesLines (depth : Nat) (lines : List Line) (P : List Nat → List Located → Prop)
    (first last : Nat) (ls : List Located) : Prop where
  layout : LaysOut depth (P (numbersFrom first lines)) ls
  last : last = lines.foldl numberAfter first

/-- A line that is a statement by itself. -/
theorem scansLines_statement (h : Written EndsNumber P text) (depth : Nat)
    (hs : ∀ ls n, P (ls.map Located.token) → n.token = .newLine → ReadsStatement ls n stmt)
    (ho : ∀ line, Reads o (stmt line) ∧ (stmt line).lineNumbers = [line]) :
    ScansLines (Line.renderAll [⟨depth, text⟩]) fun first last ls =>
      StartsAt depth ls ∧ TakesLines depth [⟨depth, text⟩] (Parsed · o) first last ls := by
  have hne : ∀ ts, P ts → ts ≠ [] := by
    rintro _ hp rfl
    obtain ⟨l, hl, -⟩ := hs [] ⟨.newLine, 0, 0⟩ hp rfl
    contradiction
  rw [renderAll_singleton]
  refine (scansLines_line h hne depth).mono ?_
  rintro first last _ ⟨ls, n, rfl, hl, hlast⟩
  obtain ⟨hstart, hlays⟩ := hl.parsed (hs ls n hl.tokens hl.newLine) ho
  exact ⟨hstart, hlays, hlast⟩

mutual

theorem Reads.scans : {o : Outline} → {stmt : Stmt} → Reads o stmt → (depth : Nat) →
    ScansLines (Line.renderAll (o.lines depth)) fun first last ls =>
      StartsAt depth ls ∧ TakesLines depth (o.lines depth) (Parsed · o) first last ls
  | _, _, .pass _, depth =>
    scansLines_statement isLine_pass depth (fun _ _ => readsStatement_pass) fun line => ⟨.pass line, rfl⟩
  | _, _, .term _ h, depth =>
    scansLines_statement h depth (fun _ _ => readsStatement_term) fun line => ⟨.term line h, rfl⟩
  | _, _, .assign _ hn h, depth =>
    scansLines_statement (isLine_assign hn h) depth (fun _ _ => readsStatement_assign)
      fun line => ⟨.assign line hn h, rfl⟩
  | _, _, .block _ hc hne h, depth => by
    have hheader := scansLines_line (isLine_header hc) (by rintro _ ⟨_, rfl, _⟩; simp) depth
    rw [Outline.lines, renderAll_cons]
    refine hheader.append (h.scans (depth + 1)) ?_
    rintro first _ last _ inner ⟨ls, n, rfl, hl, rfl⟩ ⟨hstart, hinner⟩
    rw [List.append_assoc, List.singleton_append]
    obtain ⟨hstart, hlays⟩ := hl.parsed_block hc hne (hstart.resolve_left fun h => hne h.1) hinner.layout
    exact ⟨hstart, hlays, hinner.last⟩

theorem ReadsAll.scans : {os : List Outline} → {stmts : List Stmt} → ReadsAll os stmts →
    (depth : Nat) → ScansLines (Line.renderAll (linesOf depth os)) fun first last ls =>
      (os = [] ∧ ls = [] ∨ StartsAt depth ls) ∧
        TakesLines depth (linesOf depth os) (AllParsed · os) first last ls
  | _, _, .nil, depth => by
    intro fuel p rest hp hfuel
    exact ⟨fuel, p, by simpa [linesOf, Line.renderAll] using hfuel, hp, fun tail htail =>
      ⟨[], ⟨.inl ⟨rfl, rfl⟩, allParsed_nil depth, rfl⟩, htail⟩⟩
  | _, _, .cons h hs, depth => by
    rw [linesOf, renderAll_append]
    refine (h.scans depth).append (hs.scans depth) ?_
    rintro first _ last ls ls' ⟨hstart, hl, rfl⟩ ⟨hstart', hl', rfl⟩
    refine ⟨.inr (hstart.append _), ?_, (List.foldl_append ..).symm⟩
    rw [numbersFrom_append]
    exact allParsed_cons hl hstart' hl'

end

-- ---------------------------------------------------------------------------
-- The script of a program
-- ---------------------------------------------------------------------------

/-- The tokens of the line that imports everything. -/
def importTokens : List Token :=
  [.keyword .from_, .name "qm", .dot, .name "qua", .keyword .import_, .operator .star]

theorem isLine_import : Written EndsNumber (· = importTokens) "from qm.qua import *" := by
  have hstar : Scans ['*'] [.operator .star] EndsNumber :=
    (Scans.single (by decide) fun _ => rfl).mono fun _ _ => trivial
  have hblank {ts : List Token} {cs : List Char} (h : Scans cs ts EndsNumber) :
      Scans (' ' :: cs) ([] ++ ts) EndsNumber :=
    (Scans.blank fun _ => True).append h fun _ _ _ _ => trivial
  have himport : Scans ("import".toList ++ ' ' :: ['*']) ([.keyword .import_] ++ ([] ++ [.operator .star]))
      EndsNumber :=
    Scans.append_cons (.word (by decide) rfl) (hblank hstar) (show Text.isNamePart _ = false by decide)
  have hqua := (Scans.name (show IsIdentifier "qua" by decide)).append_cons (hblank himport)
    (show Text.isNamePart _ = false by decide)
  have hdot := Scans.dot.append hqua fun _ _ _ _ => trivial
  have hqm := (Scans.name (show IsIdentifier "qm" by decide)).append_cons hdot
    (show Text.isNamePart _ = false by decide)
  have hfrom : Scans ("from".toList ++ ' ' :: ("qm".toList ++ '.' :: ("qua".toList ++
      ' ' :: ("import".toList ++ ' ' :: ['*'])))) importTokens EndsNumber :=
    Scans.append_cons (.word (by decide) rfl) (hblank hqm) (show Text.isNamePart _ = false by decide)
  refine ⟨⟨'f', "rom qm.qua import *".toList, rfl, by decide, by simp [EndsOperator]⟩, importTokens,
    hfrom, ?_, rfl⟩
  have hplain : ∀ t ∈ importTokens, t.isPlain = true := by decide
  have hall : ∀ ts : List Token, (∀ t ∈ ts, t.isPlain = true) → Inline ts := by
    intro ts
    induction ts with
    | nil => exact fun _ => .nil
    | cons t ts ih =>
      intro h
      exact (Inline.token (h t List.mem_cons_self)).append
        (ih fun t ht => h t (List.mem_cons_of_mem _ ht))
  exact hall _ hplain

theorem readsStatement_import {ls : List Located} (hl : ls.map Located.token = importTokens)
    (hn : n.token = .newLine) : ReadsStatement ls n (.importing · "qm.qua" ["*"]) := by
  obtain ⟨l₁, ls, rfl, h₁, hl⟩ := List.map_eq_cons_iff.mp hl
  obtain ⟨l₂, ls, rfl, h₂, hl⟩ := List.map_eq_cons_iff.mp hl
  obtain ⟨l₃, ls, rfl, h₃, hl⟩ := List.map_eq_cons_iff.mp hl
  obtain ⟨l₄, ls, rfl, h₄, hl⟩ := List.map_eq_cons_iff.mp hl
  obtain ⟨l₅, ls, rfl, h₅, hl⟩ := List.map_eq_cons_iff.mp hl
  obtain ⟨l₆, ls, rfl, h₆, hl⟩ := List.map_eq_cons_iff.mp hl
  obtain rfl := List.map_eq_nil_iff.mp hl
  refine ⟨l₁, rfl, by simp [h₁], by simp [h₁], by simp [h₁], by simp [h₁], fun fuel rest => ?_⟩
  have hname (l : Located) (s what : String) (h : l.token = .name s) (rest : List Located) :
      takeName what (l :: rest) = .ok (s, rest) := by
    rw [takeName, bind_run, next_run]
    simp only [h]
    rfl
  obtain ⟨t₃, line₃, column₃⟩ := l₃
  obtain ⟨t₅, line₅, column₅⟩ := l₅
  simp only at h₃ h₅
  subst h₃ h₅
  have hmodule (rest : List Located) : dottedName (l₂ :: ⟨.dot, line₃, column₃⟩ :: l₄ ::
      ⟨.keyword .import_, line₅, column₅⟩ :: rest) =
        .ok ("qm.qua", ⟨.keyword .import_, line₅, column₅⟩ :: rest) := by
    rw [dottedName, bind_run, hname l₂ _ _ h₂]
    simp only [List.length_cons]
    rw [dottedTail]
    simp only
    rw [bind_run, hname l₄ _ _ h₄]
    simp only
    rfl
  rw [List.cons_append, statement_simple (by simp [h₁]), ← List.cons_append]
  refine simple_run hn ?_
  rw [simpleContent, List.cons_append, bind_run, peek_run]
  simp only [h₁]
  rw [bind_run, skip_run]
  simp only [List.cons_append, List.nil_append]
  rw [bind_run, hmodule]
  simp only
  rw [bind_run, expect_run (t := .keyword .import_) rfl]
  simp only
  rw [bind_run, importNames, bind_run, peek_run]
  simp only [h₆, if_true]
  rw [bind_run, skip_run]
  rfl

/-- The first lines of the script that builds a program, and those of its block. -/
def programLines (body : List Outline) : List Line :=
  ⟨0, "from qm.qua import *"⟩ :: ⟨0, ""⟩ :: ⟨0, "with program() as prog:"⟩ :: linesOf 1 body

theorem isContext_program : IsContext "program() as prog" (.call (.name "program") [] [], some "prog") := by
  have hname : IsPrimary "program" (.name "program") := .name (by decide)
  have hcall := hname.call (.inl rfl) .nil .nil
  have htext : "program" ++ "(" ++ String.intercalate "," ([] ++ []) ++ ")" = "program()" := by decide
  rw [htext] at hcall
  exact hcall.term.named (by decide)

theorem scansLines_blank : ScansLines (Line.render ⟨0, ""⟩) fun first last ls =>
    ∃ n : Located, ls = [n] ∧ n.token = .newLine ∧ last = first + 1 := by
  intro fuel p rest hp hfuel
  have htext : (Line.render ⟨0, ""⟩).toList = ['\n'] := rfl
  rw [htext] at hfuel ⊢
  simp only [List.singleton_append, List.length_cons] at hfuel
  obtain ⟨ns, hn, hbreak⟩ := Scans.newLine fuel p rest (fun _ _ => trivial)
    (by simp only [List.length_singleton]; omega)
  obtain ⟨n, ns, rfl, hbreakToken, hm⟩ := List.map_eq_cons_iff.mp hn
  obtain rfl := List.map_eq_nil_iff.mp hm
  refine ⟨fuel - 1, p.after ['\n'], by omega, after_newLine p [], fun tail htail => ?_⟩
  refine ⟨[n], ⟨n, rfl, hbreakToken, Position.after_line p ['\n']⟩, ?_⟩
  rw [List.length_singleton, htail] at hbreak
  rw [hbreak]
  rfl

/-- The tokens of a script that is given by its characters. A literal is evaluated through them, since its
bytes are slow to decode. -/
theorem lex_ofList (text : List Char) :
    lex (String.ofList text) = scanFrom (text.length + 1) {} text >>= layout := by
  rw [lex, scan, String.toList_ofList]

/-- The tokens of a whole script. -/
theorem lex_program (h : ReadsAll body stmts) (hne : body ≠ []) :
    ∃ (ls laid : List Located) (n finish : Located), ls.map Located.token = importTokens ∧
      n.token = .newLine ∧ finish.token = .finish ∧
      Parsed (3 :: numbersFrom 4 (linesOf 1 body)) (.block "program() as prog" body) laid ∧
      lex (Line.renderAll (programLines body)) = .ok (ls ++ n :: (laid ++ [finish])) := by
  have himport := scansLines_line isLine_import (by rintro _ rfl; simp [importTokens]) 0
  have hblock := (Reads.block 1 isContext_program hne h).scans 0
  have htext : Line.renderAll (programLines body) = Line.render ⟨0, "from qm.qua import *"⟩ ++
      (Line.render ⟨0, ""⟩ ++
        Line.renderAll ((Outline.block "program() as prog" body).lines 0)) := by
    rw [programLines, renderAll_cons, renderAll_cons, Outline.lines]
    rfl
  let numbers (first : Nat) : List Nat :=
    numbersFrom first ((Outline.block "program() as prog" body).lines 0)
  have hall := himport.append (scansLines_blank.append hblock
    (Q := fun first _ ls => ∃ n laid, ls = n :: laid ∧ n.token = .newLine ∧ StartsAt 0 laid ∧
      LaysOut 0 (Parsed (numbers (first + 1)) (.block "program() as prog" body)) laid) ?_)
    (Q := fun first _ ls => ∃ before n n' laid, ls = before ++ n :: n' :: laid ∧
      IsLine 0 first (· = importTokens) before n ∧ n'.token = .newLine ∧ StartsAt 0 laid ∧
      LaysOut 0 (Parsed (numbers (first + 2)) (.block "program() as prog" body)) laid) ?_
  · rw [← htext] at hall
    obtain ⟨fuel, p, hfuel, -, hscan⟩ := hall
      ((Line.renderAll (programLines body)).toList.length + 1) {} [] rfl (by simp)
    obtain ⟨fuel, rfl⟩ : ∃ m, fuel = m + 1 := ⟨fuel - 1, by omega⟩
    obtain ⟨_, ⟨before, n, n', raw, rfl, hline, hn', hstart, hlays⟩, hscan⟩ := hscan
      [⟨.finish, p.line, p.column⟩] rfl
    rw [List.append_nil] at hscan
    let finish : Located := ⟨.finish, p.line, p.column⟩
    obtain ⟨laid, hparsed, hlayout⟩ := hlays [finish] ⟨finish, rfl, .inl rfl⟩
    refine ⟨before, laid, n, finish, hline.tokens, hline.newLine, rfl, hparsed, ?_⟩
    have hblank : layoutFrom (levelsOf 0) 0 true (n' :: (raw ++ [finish])) =
        layoutFrom (levelsOf 0) 0 true (raw ++ [finish]) := by
      rw [layoutFrom, hn']
      rfl
    have hend : layoutFrom (levelsOf 0) 0 true [finish] = .ok [finish] := rfl
    have hfirst := hline.layout (fun l hl => by
      obtain ⟨l', hl', hn, hf, -⟩ := readsStatement_import hline.tokens hline.newLine
      rw [Option.mem_def] at hl hl'
      obtain rfl := Option.some.inj (hl'.symm.trans hl)
      exact ⟨hn, hf⟩) (n' :: (raw ++ [finish]))
    rw [lex, scan, hscan]
    change layoutFrom (levelsOf 0) 0 true (before ++ n :: n' :: raw ++ [finish]) = _
    rw [List.append_assoc, List.cons_append, List.cons_append, hfirst, hblank, hlayout, hend]
    rfl
  · rintro first _ _ _ ls ⟨n, rfl, hn, rfl⟩ ⟨hstart, hl⟩
    exact ⟨n, ls, rfl, hn, hstart, hl.layout⟩
  · rintro first _ _ _ _ ⟨before, n, rfl, hl, rfl⟩ ⟨n', laid, rfl, hn', hstart, hlays⟩
    exact ⟨before, n, n', laid, by simp, hl, hn', hstart, hlays⟩

/-- The script of a program is parsed as a block with the statements of its outline, at their lines. -/
theorem ReadsAll.parse (h : ReadsAll body stmts) (hne : body ≠ []) :
    ∃ line line' stmts', ReadsAll body stmts' ∧ lineNumbersOf stmts' = numbersFrom 4 (linesOf 1 body) ∧
      Script.parse (Line.renderAll (programLines body)) =
        .ok [.importing line "qm.qua" ["*"],
          .block line' (.call (.name "program") [] []) (some "prog") stmts'] := by
  obtain ⟨ls, laid, n, finish, hl, hn, hf, ⟨⟨b, hb, hbf, hbi, -⟩, stmt, hreads, hnumbers, hrun⟩, hlex⟩ :=
    lex_program h hne
  obtain ⟨l, hhead, -, hlf, hli, -, himport⟩ := readsStatement_import hl hn
  cases hreads with
  | @block _ t target _ stmts' line' hc _ hbody =>
    obtain ⟨rfl, rfl⟩ := Prod.mk.inj (hc.unique isContext_program)
    refine ⟨l.line, line', stmts', hbody, (List.cons.inj hnumbers).2, ?_⟩
    rw [Script.parse, hlex]
    simp only [bind, Except.bind]
    obtain ⟨fuel, hfuel, hle⟩ : ∃ m, 3 * (ls ++ n :: (laid ++ [finish])).length + 3 = m + 3 ∧
        3 * laid.length ≤ m + 1 := by
      refine ⟨_, rfl, ?_⟩
      simp only [List.length_append, List.length_cons]
      omega
    rw [hfuel]
    have hend : Parser.block .finish (fuel + 1) [finish] = .ok ([], []) := by
      rw [block, bind_run, peek_run]
      simp only [hf, if_true]
      rw [bind_run, skip_run]
      rfl
    have hblock : Parser.block .finish (fuel + 2) (laid ++ [finish]) =
        .ok ([.block line' (.call (.name "program") [] []) (some "prog") stmts'], []) := by
      have hstatement := hrun (fuel + 1) [finish] hle
      cases laid with
      | nil => contradiction
      | cons b' laid =>
        obtain rfl : b' = b := by simpa using hb
        rw [block, List.cons_append, bind_run, peek_run]
        simp only [hbf, hbi, if_false]
        rw [bind_run, ← List.cons_append, hstatement]
        simp only
        rw [bind_run, hend]
        rfl
    cases ls with
    | nil => contradiction
    | cons l' ls =>
      obtain rfl : l' = l := by simpa using hhead
      have hall : Parser.block .finish (fuel + 3) (l' :: ls ++ n :: (laid ++ [finish])) =
          .ok ([.importing l'.line "qm.qua" ["*"],
            .block line' (.call (.name "program") [] []) (some "prog") stmts'], []) := by
        rw [block, List.cons_append, bind_run, peek_run]
        simp only [hlf, hli, if_false]
        rw [bind_run, ← List.cons_append, himport]
        simp only
        rw [bind_run, hblock]
        rfl
      rw [hall]
      rfl

end Qua.Script
