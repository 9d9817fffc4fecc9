import Mathlib.Data.List.Induction
import Qua.Proofs.Script.Continued

/-!
# Layout is well nested

The tokens of a script with its layout are well nested, however its lines are broken and indented.
What the layout says is told from the tokens before a token alone: how many brackets are open, and which
levels. Main statement: `lex_wellNested`.
-/

namespace Qua.Script

-- ---------------------------------------------------------------------------
-- What tokens have opened
-- ---------------------------------------------------------------------------

namespace Token

/-- A token that stands for a line break or for indentation. -/
def isLayout : Token → Bool
  | .newLine | .indent | .dedent => true
  | _ => false

def isOpening : Token → Bool
  | .leftParen | .leftBracket | .leftBrace => true
  | _ => false

def isClosing : Token → Bool
  | .rightParen | .rightBracket | .rightBrace => true
  | _ => false

end Token

/-- How many of the tokens are `t`. -/
def countToken (t : Token) (ls : List Located) : Nat := ls.countP (·.token = t)

/-- The number of brackets that are open after the tokens, whatever their kind. -/
def openBrackets (ls : List Located) : Int :=
  (ls.countP (·.token.isOpening) : Int) - ls.countP (·.token.isClosing)

/-- The levels after a token: an indentation opens one at its column, a dedentation closes the
innermost one. -/
def levelsAfter (levels : List Nat) (l : Located) : List Nat :=
  match l.token with
  | .indent => l.column :: levels
  | .dedent => levels.tail
  | _ => levels

/-- The columns of the levels that are open after the tokens, the innermost first. -/
def openLevels (ls : List Located) : List Nat := ls.foldl levelsAfter [1]

/-- The levels of a line that starts at `column`: from there they decrease strictly to the first
column. -/
structure LevelsTo (column : Nat) (levels : List Nat) : Prop where
  decreasing : levels.Pairwise (· > ·)
  innermost : levels.head? = some column
  outermost : levels.getLast? = some 1

/-- The end of the script is the last token, and no other one. -/
def Ends (ls : List Located) : Prop :=
  ∃ front finish, ls = front ++ [finish] ∧ finish.token = .finish ∧ ∀ l ∈ front, l.token ≠ .finish

/-- The tokens `ls` are the layout of the tokens `raw`. -/
structure WellNested (raw ls : List Located) : Prop where
  ends : Ends ls
  prefixes : ∀ front, front <+: ls → countToken .dedent front ≤ countToken .indent front
  totals : countToken .dedent ls = countToken .indent ls
  newLine : ∀ before l after, ls = before ++ l :: after → l.token = .newLine →
    ∃ previous ∈ before.getLast?, previous.token ≠ .newLine
  indent : ∀ before l after, ls = before ++ l :: after → l.token = .indent →
    ∀ previous ∈ before.getLast?, previous.token = .newLine
  dedent : ∀ before l after, ls = before ++ l :: after → l.token = .dedent →
    ∃ previous ∈ before.getLast?, previous.token = .newLine ∨ previous.token = .dedent
  brackets : ∀ before l after, ls = before ++ l :: after → l.token.isLayout = true →
    openBrackets before = 0
  /-- The first token of a line stands where the innermost level does. -/
  levels : ∀ before l after, ls = before ++ l :: after → l.token.isLayout = false → l.token ≠ .finish →
    (∀ previous ∈ before.getLast?, previous.token.isLayout = true) →
    LevelsTo l.column (openLevels before)
  kept : ls.filter (fun l => !l.token.isLayout) = raw.filter (·.token ≠ .newLine)

section
variable (ls : List Located) (l : Located)

theorem openLevels_concat : openLevels (ls ++ [l]) = levelsAfter (openLevels ls) l := by
  simp [openLevels]

theorem openBrackets_concat : openBrackets (ls ++ [l]) =
    openBrackets ls + (if l.token.isOpening then 1 else 0) - (if l.token.isClosing then 1 else 0) := by
  simp only [openBrackets, List.countP_append, List.countP_singleton]
  split <;> split <;> omega

theorem countToken_concat (t : Token) :
    countToken t (ls ++ [l]) = countToken t ls + if l.token = t then 1 else 0 := by
  simp [countToken, List.countP_append, List.countP_singleton]

theorem openBrackets_layout (h : l.token.isLayout = true) :
    openBrackets (ls ++ [l]) = openBrackets ls := by
  rw [openBrackets_concat]
  cases ht : l.token <;> simp_all [Token.isLayout, Token.isOpening, Token.isClosing]

end

-- ---------------------------------------------------------------------------
-- Where a token may stand
-- ---------------------------------------------------------------------------

/-- What is before a token in a layout that is well nested. -/
def Placed (before : List Located) (l : Located) : Prop :=
  match l.token with
  | .newLine =>
    openBrackets before = 0 ∧ ∃ previous ∈ before.getLast?, previous.token.isLayout = false
  | .indent => openBrackets before = 0 ∧ ∀ previous ∈ before.getLast?, previous.token = .newLine
  | .dedent => openBrackets before = 0 ∧ 1 < (openLevels before).length ∧
      ∃ previous ∈ before.getLast?, previous.token = .newLine ∨ previous.token = .dedent
  | .finish => (openLevels before).length = 1
  | _ => (∀ previous ∈ before.getLast?, previous.token.isLayout = true) →
      LevelsTo l.column (openLevels before)

/-- Every token stands where it may. -/
inductive AllPlaced : List Located → Prop
  | nil : AllPlaced []
  | snoc (h : AllPlaced ls) (hl : Placed ls l) : AllPlaced (ls ++ [l])

namespace AllPlaced

theorem of_append (h : AllPlaced (before ++ after)) : AllPlaced before := by
  induction after using List.reverseRecOn with
  | nil => simpa using h
  | append_singleton after l ih =>
    rw [← List.append_assoc] at h
    generalize hls : before ++ after ++ [l] = ls at h
    cases h with
    | nil => simp at hls
    | snoc h _ => exact ih ((List.append_inj' hls rfl).1 ▸ h)

theorem placed (h : AllPlaced (before ++ l :: after)) : Placed before l := by
  rw [List.append_cons] at h
  generalize hls : before ++ [l] = ls at h
  cases h.of_append with
  | nil => simp at hls
  | snoc _ hl =>
    obtain ⟨rfl, ht⟩ := List.append_inj' hls rfl
    exact (List.cons.inj ht).1 ▸ hl

/-- As many levels are open as indentations have not been taken back, and the outermost one. -/
theorem length_openLevels (h : AllPlaced ls) :
    (openLevels ls).length + countToken .dedent ls = countToken .indent ls + 1 ∧
      0 < (openLevels ls).length := by
  induction h with
  | nil => exact ⟨rfl, Nat.one_pos⟩
  | @snoc ls l h hl ih =>
    rw [openLevels_concat, countToken_concat, countToken_concat]
    obtain ⟨hcount, hpos⟩ := ih
    unfold Placed at hl
    cases ht : l.token with
    | indent => simp [levelsAfter, ht]; omega
    | dedent =>
      simp only [ht] at hl
      simp [levelsAfter, ht]
      omega
    | _ => simp [levelsAfter, ht, hcount, hpos]

end AllPlaced

-- ---------------------------------------------------------------------------
-- Scanned tokens
-- ---------------------------------------------------------------------------

/-- A token that is read off a script, and not made of its layout or its end. -/
def Token.IsLexeme (t : Token) : Prop := t ≠ .finish ∧ t ≠ .indent ∧ t ≠ .dedent

theorem Token.IsLexeme.not_layout {t : Token} (h : t.IsLexeme) (hn : t ≠ .newLine) :
    t.isLayout = false := by
  obtain ⟨-, hi, hd⟩ := h
  cases t <;> simp_all [isLayout]

/-- Tokens off a script, up to its end. -/
inductive Scanned : List Located → Prop
  | finish (h : l.token = .finish) : Scanned [l]
  | cons (ht : l.token.IsLexeme) (h : Scanned ls) : Scanned (l :: ls)

theorem isLexeme_symbol (h : symbolLexeme text = some found) : found.token.IsLexeme := by
  unfold symbolLexeme at h
  split at h <;> first
    | contradiction
    | obtain rfl := Option.some.inj h
      simp [Token.IsLexeme]

theorem isLexeme_number (h : numberLexeme text = .ok found) : found.token.IsLexeme := by
  unfold numberLexeme at h
  simp only at h
  split at h
  · split at h
    · obtain rfl := Except.ok.inj h
      simp [Token.IsLexeme]
    · nomatch h
  · obtain rfl := Except.ok.inj h
    simp [Token.IsLexeme]

theorem isLexeme_name (text : List Char) : (nameLexeme text).token.IsLexeme := by
  simp only [nameLexeme]
  split <;> simp [Token.IsLexeme]

theorem isLexeme_string (h : stringLexeme quote text = .ok found) : found.token.IsLexeme := by
  unfold stringLexeme at h
  split at h
  · obtain rfl := Except.ok.inj h
    simp [Token.IsLexeme]
  · nomatch h

theorem isLexeme_of_lexeme (h : lexeme text = .ok found) : found.token.IsLexeme := by
  cases text with
  | nil => nomatch h
  | cons c text =>
    unfold lexeme at h
    simp only at h
    split at h
    · obtain rfl := Except.ok.inj h
      simp [Token.IsLexeme]
    · split at h
      · exact isLexeme_string h
      · split at h
        · exact isLexeme_number h
        · split at h
          · obtain rfl := Except.ok.inj h
            exact isLexeme_name _
          · split at h
            · next hs =>
              obtain rfl := Except.ok.inj h
              exact isLexeme_symbol hs
            · nomatch h

/-- With fuel for all of its text a script is scanned up to its end. -/
theorem scanned_scanFrom (h : scanFrom fuel p text = .ok ls) (hf : text.length < fuel) :
    Scanned ls := by
  induction fuel generalizing p text ls with
  | zero => omega
  | succ fuel ih =>
    have hskip := skipTrivia_length false p text
    rw [scanFrom] at h
    generalize skipTrivia false p text = skipped at *
    obtain ⟨q, rest⟩ := skipped
    simp only at h hskip
    split at h
    · obtain rfl := Except.ok.inj h
      exact .finish rfl
    · split at h
      · cases h
      · next found hfound =>
        have hlength := lexeme_length hfound
        obtain ⟨ls', htail, h⟩ := except_bind_eq_ok.mp h
        obtain rfl := Except.ok.inj h
        exact .cons (isLexeme_of_lexeme hfound) (ih htail (by omega))

theorem scanned_scan (h : scan script = .ok ls) : Scanned ls :=
  scanned_scanFrom h (Nat.lt_succ_self _)

-- ---------------------------------------------------------------------------
-- The pass
-- ---------------------------------------------------------------------------

/-- What the pass knows of the tokens `ls` that it has given: the levels and brackets that are open, and
whether the next token starts a line. -/
structure Stands (ls : List Located) (levels : List Nat) (depth : Nat) (atLineStart : Bool) : Prop where
  placed : AllPlaced ls
  opened : openLevels ls = levels
  decreasing : levels.Pairwise (· > ·)
  outermost : levels.getLast? = some 1
  brackets : openBrackets ls = depth
  outside : atLineStart = true → depth = 0
  lineStart : atLineStart = true → ∀ previous ∈ ls.getLast?, previous.token = .newLine
  inLine : atLineStart = false → ∃ previous ∈ ls.getLast?, previous.token.isLayout = false

theorem stands_start : Stands [] [1] 0 true where
  placed := .nil
  opened := rfl
  decreasing := List.pairwise_singleton _ _
  outermost := rfl
  brackets := rfl
  outside _ := rfl
  lineStart _ := by simp
  inLine h := nomatch h

/-- Levels are closed from the innermost on. -/
theorem closeLevels_eq (h : closeLevels column levels = (n, left)) : left = levels.drop n := by
  fun_induction closeLevels column levels generalizing n left with
  | case1 =>
    obtain ⟨rfl, rfl⟩ := Prod.mk.inj h
    rfl
  | case2 level outer _ m inner hinner ih =>
    obtain ⟨rfl, rfl⟩ := Prod.mk.inj h
    exact ih hinner
  | case3 =>
    obtain ⟨rfl, rfl⟩ := Prod.mk.inj h
    rfl

/-- Before the first token no level is open but the outermost one. -/
theorem exists_previous (h : 1 < (openLevels ls).length) : ∃ previous, previous ∈ ls.getLast? := by
  cases ls with
  | nil => contradiction
  | cons l ls => exact ⟨_, List.getLast?_eq_some_getLast (List.cons_ne_nil l ls)⟩

/-- Dedentations close as many levels. -/
theorem placed_dedents (l : Located) (n : Nat) (h : AllPlaced ls) (hb : openBrackets ls = 0)
    (hlast : ∀ previous ∈ ls.getLast?, previous.token = .newLine) (hn : n < (openLevels ls).length) :
    AllPlaced (ls ++ List.replicate n (l.with .dedent)) ∧
      openLevels (ls ++ List.replicate n (l.with .dedent)) = (openLevels ls).drop n ∧
      openBrackets (ls ++ List.replicate n (l.with .dedent)) = 0 ∧
      ∀ previous ∈ (ls ++ List.replicate n (l.with .dedent)).getLast?,
        previous.token = .newLine ∨ previous.token = .dedent := by
  induction n with
  | zero => simpa [h, hb] using fun previous hp => .inl (hlast previous hp)
  | succ n ih =>
    obtain ⟨hplaced, hlevels, hbrackets, hprevious⟩ := ih (by omega)
    have hopen : 1 < (openLevels (ls ++ List.replicate n (l.with .dedent))).length := by
      rw [hlevels, List.length_drop]
      omega
    obtain ⟨previous, hp⟩ := exists_previous hopen
    rw [List.replicate_succ', ← List.append_assoc]
    refine ⟨.snoc hplaced ⟨hbrackets, hopen, previous, hp, hprevious previous hp⟩, ?_, ?_, ?_⟩
    · rw [openLevels_concat, hlevels, levelsAfter]
      simp [Located.with]
    · rw [openBrackets_layout _ _ rfl, hbrackets]
    · simp [Located.with]

/-- The marks before the first token of a line leave its levels open. -/
theorem Stands.indentLine (h : Stands ls levels depth true)
    (hrun : Script.indentLine levels l = .ok (marks, levels')) :
    AllPlaced (ls ++ marks) ∧ openLevels (ls ++ marks) = levels' ∧ openBrackets (ls ++ marks) = 0 ∧
      LevelsTo l.column levels' := by
  have hb : openBrackets ls = 0 := by simp [h.brackets, h.outside rfl]
  unfold Script.indentLine at hrun
  split at hrun
  · next hdeeper =>
    obtain ⟨rfl, rfl⟩ := Prod.mk.inj (Except.ok.inj hrun)
    have hlevels : openLevels (ls ++ [l.with .indent]) = l.column :: levels := by
      rw [openLevels_concat, levelsAfter, h.opened]
      rfl
    refine ⟨.snoc h.placed ⟨hb, h.lineStart rfl⟩, hlevels, ?_, ⟨?_, rfl, ?_⟩⟩
    · rw [openBrackets_layout _ _ rfl, hb]
    · refine List.pairwise_cons.mpr ⟨fun level hlevel => ?_, h.decreasing⟩
      -- the innermost level is the deepest one
      cases levels with
      | nil => nomatch hlevel
      | cons innermost outer =>
        have hinner : innermost < l.column := by simpa using hdeeper
        rcases List.mem_cons.mp hlevel with rfl | houter
        · exact hinner
        · exact Nat.lt_trans ((List.pairwise_cons.mp h.decreasing).1 level houter) hinner
    · cases levels with
      | nil => simp at hdeeper
      | cons innermost outer => rw [List.getLast?_cons_cons, h.outermost]
  · next hdeeper =>
    generalize hclose : closeLevels l.column levels = closed at hrun
    obtain ⟨n, left⟩ := closed
    simp only at hrun
    split at hrun
    · next hhead =>
      obtain ⟨rfl, rfl⟩ := Prod.mk.inj (Except.ok.inj hrun)
      obtain rfl := closeLevels_eq hclose
      have hn : n < (openLevels ls).length := by
        rw [h.opened]
        by_contra hle
        rw [List.drop_eq_nil_of_le (by omega)] at hhead
        nomatch hhead
      obtain ⟨hplaced, hlevels, hbrackets, -⟩ := placed_dedents l n h.placed hb (h.lineStart rfl) hn
      rw [h.opened] at hlevels hn
      refine ⟨hplaced, hlevels, hbrackets, ⟨?_, hhead, ?_⟩⟩
      · exact h.decreasing.sublist (List.drop_sublist n levels)
      · rw [List.getLast?_drop, if_neg (by omega), h.outermost]
    · nomatch hrun

theorem bracketDepth_eq (h : bracketDepth depth l = .ok depth') :
    (depth' : Int) =
      depth + (if l.token.isOpening then 1 else 0) - (if l.token.isClosing then 1 else 0) := by
  unfold bracketDepth at h
  cases ht : l.token with
  | leftParen | leftBracket | leftBrace =>
    rw [ht] at h
    obtain rfl := Except.ok.inj h
    simp [Token.isOpening, Token.isClosing]
  | rightParen | rightBracket | rightBrace =>
    simp only [ht] at h
    split at h
    · nomatch h
    · obtain rfl := Except.ok.inj h
      simp only [Token.isOpening, Token.isClosing, if_true, Bool.false_eq_true, if_false]
      omega
  | _ =>
    rw [ht] at h
    obtain rfl := Except.ok.inj h
    simp [Token.isOpening, Token.isClosing]

theorem marksOf_layout (h : marksOf levels atLineStart l = .ok (marks, levels')) :
    ∀ mark ∈ marks, mark.token.isLayout = true := by
  intro mark hmark
  cases atLineStart with
  | true => obtain ht | ht := indentLine_marks h mark hmark <;> rw [ht] <;> rfl
  | false =>
    obtain ⟨rfl, -⟩ := Prod.mk.inj (Except.ok.inj h)
    nomatch hmark

/-- A token of a line follows the marks of the line. -/
theorem Stands.lexeme (h : Stands ls levels depth atLineStart) (ht : l.token.IsLexeme)
    (hn : l.token ≠ .newLine)
    (hmarks : marksOf levels atLineStart l = .ok (marks, levels'))
    (hdepth : bracketDepth depth l = .ok depth') :
    Stands (ls ++ (marks ++ [l])) levels' depth' false := by
  have hplace {before : List Located}
      (hbefore : (∀ previous ∈ before.getLast?, previous.token.isLayout = true) →
        LevelsTo l.column (openLevels before)) : Placed before l := by
    unfold Placed
    obtain ⟨hf, hi, hd⟩ := ht
    cases hl : l.token <;> simp_all
  have hlevels (levels : List Nat) : levelsAfter levels l = levels := by
    obtain ⟨-, hi, hd⟩ := ht
    unfold levelsAfter
    cases hl : l.token <;> simp_all
  rw [← List.append_assoc]
  have hlast : ∃ previous ∈ (ls ++ marks ++ [l]).getLast?, previous.token.isLayout = false :=
    ⟨l, by simp, ht.not_layout hn⟩
  cases atLineStart with
  | true =>
    obtain ⟨hplaced, hopened, hbrackets, hto⟩ := h.indentLine hmarks
    refine ⟨.snoc hplaced (hplace fun _ => hopened ▸ hto), ?_, hto.decreasing, hto.outermost,
      ?_, ?_, ?_, ?_⟩
    · rw [openLevels_concat, hlevels, hopened]
    · rw [openBrackets_concat, hbrackets, bracketDepth_eq hdepth, h.outside rfl]
      rfl
    · simp
    · simp
    · exact fun _ => hlast
  | false =>
    obtain ⟨rfl, rfl⟩ := Prod.mk.inj (Except.ok.inj hmarks)
    obtain ⟨previous, hp, hinner⟩ := h.inLine rfl
    rw [List.append_nil] at hlast ⊢
    have hnot : ¬∀ previous ∈ ls.getLast?, previous.token.isLayout = true :=
      fun hall => absurd (hall previous hp) (by simp [hinner])
    refine ⟨.snoc h.placed (hplace fun hall => absurd hall hnot), ?_, h.decreasing, h.outermost,
      ?_, ?_, ?_, ?_⟩
    · rw [openLevels_concat, hlevels, h.opened]
    · rw [openBrackets_concat, h.brackets, bracketDepth_eq hdepth]
    · simp
    · simp
    · exact fun _ => hlast

/-- A line break ends a line, unless brackets are open or the line is blank. -/
theorem Stands.newLine (h : Stands ls levels 0 false) (hl : l.token = .newLine) :
    Stands (ls ++ [l]) levels 0 true where
  placed := .snoc h.placed (by
    unfold Placed
    rw [hl]
    exact ⟨h.brackets, h.inLine rfl⟩)
  opened := by rw [openLevels_concat, levelsAfter, hl, h.opened]
  decreasing := h.decreasing
  outermost := h.outermost
  brackets := by rw [openBrackets_layout _ _ (by rw [hl]; rfl), h.brackets]
  outside _ := rfl
  lineStart _ := by simp [hl]
  inLine h := nomatch h

/-- At the end of the script its levels are closed. -/
theorem Stands.closing (h : Stands ls levels 0 atLineStart) (hl : finish.token = .finish) :
    AllPlaced (ls ++ Script.closing levels atLineStart finish) := by
  -- the line that is not ended is ended first
  obtain ⟨ended, hended, hclosing⟩ : ∃ ended, Stands (ls ++ ended) levels 0 true ∧
      Script.closing levels atLineStart finish =
        ended ++ (List.replicate (levels.length - 1) (finish.with .dedent) ++ [finish]) := by
    cases atLineStart with
    | true => exact ⟨[], by rwa [List.append_nil], by simp [Script.closing]⟩
    | false => exact ⟨[finish.with .newLine], h.newLine rfl, by simp [Script.closing]⟩
  have hpos := hended.placed.length_openLevels.2
  obtain ⟨hplaced, hlevels, -, -⟩ := placed_dedents finish (levels.length - 1) hended.placed
    hended.brackets (hended.lineStart rfl) (by rw [hended.opened] at hpos ⊢; omega)
  rw [hclosing, ← List.append_assoc, ← List.append_assoc]
  refine .snoc hplaced ?_
  unfold Placed
  rw [hl]
  simp only [hlevels, List.length_drop, hended.opened]
  rw [hended.opened] at hpos
  omega

theorem Ends.append (h : Ends after) (hb : ∀ l ∈ before, l.token ≠ .finish) :
    Ends (before ++ after) := by
  obtain ⟨front, finish, rfl, hf, hfront⟩ := h
  exact ⟨before ++ front, finish, (List.append_assoc ..).symm, hf,
    List.forall_mem_append.mpr ⟨hb, hfront⟩⟩

theorem ends_closing (levels : List Nat) (atLineStart : Bool) (h : finish.token = .finish) :
    Ends (Script.closing levels atLineStart finish) := by
  refine ⟨_, finish, rfl, h, fun l hl => ?_⟩
  rcases List.mem_append.mp hl with hl | hl
  · cases atLineStart with
    | true => simp at hl
    | false =>
      rw [List.mem_singleton.mp hl]
      simp [Located.with]
  · rw [List.eq_of_mem_replicate hl]
    simp [Located.with]

/-- The layout of scanned tokens goes on where the pass stands. -/
theorem Stands.layout (h : Stands ls levels depth atLineStart) (hraw : Scanned raw)
    (hrun : layoutFrom levels depth atLineStart raw = .ok out) :
    AllPlaced (ls ++ out) ∧ Ends out ∧
      out.filter (fun l => !l.token.isLayout) = raw.filter (·.token ≠ .newLine) := by
  induction hraw generalizing ls levels depth atLineStart out with
  | @finish l hl =>
    rw [layoutFrom, hl] at hrun
    simp only at hrun
    split at hrun
    · cases hrun
    · next hdepth =>
      obtain rfl : depth = 0 := by omega
      obtain rfl := Except.ok.inj hrun
      refine ⟨h.closing hl, ends_closing levels atLineStart hl, ?_⟩
      cases atLineStart <;> simp [Script.closing, hl, Token.isLayout, Located.with]
  | @cons raw l ht hraw ih =>
    by_cases hl : l.token = .newLine
    · rw [layoutFrom, hl] at hrun
      simp only at hrun
      split at hrun
      · next hends =>
        obtain ⟨rfl, rfl⟩ : depth = 0 ∧ atLineStart = false := by simpa using hends
        obtain ⟨tail, htail, hrun⟩ := except_bind_eq_ok.mp hrun
        obtain rfl := Except.ok.inj hrun
        obtain ⟨hplaced, hends, hkept⟩ := ih (h.newLine hl) htail
        refine ⟨by rwa [List.append_cons], ?_, ?_⟩
        · rw [← List.singleton_append]
          exact hends.append (by simp [hl])
        · rw [List.filter_cons_of_neg (by simp [hl, Token.isLayout]),
            List.filter_cons_of_neg (by simp [hl]), hkept]
      · obtain ⟨hplaced, hends, hkept⟩ := ih h hrun
        exact ⟨hplaced, hends, by rw [List.filter_cons_of_neg (by simp [hl]), hkept]⟩
    · obtain ⟨marks, levels', depth', tail, hmarks, hdepth, htail, rfl⟩ :=
        (layoutFrom_token_eq_ok hl ht.1).mp hrun
      have hall := marksOf_layout hmarks
      obtain ⟨hplaced, hends, hkept⟩ := ih (h.lexeme ht hl hmarks hdepth) htail
      refine ⟨by simpa using hplaced, ?_, ?_⟩
      · rw [List.append_cons]
        refine hends.append fun mark hmark => ?_
        rcases List.mem_append.mp hmark with hmark | hmark
        · intro hfinish
          have hlayout := hall mark hmark
          rw [hfinish] at hlayout
          cases hlayout
        · exact List.mem_singleton.mp hmark ▸ ht.1
      · rw [List.filter_append, List.filter_eq_nil_iff.mpr (fun mark hmark => by simp [hall mark hmark]),
          List.nil_append, List.filter_cons_of_pos (by simp [ht.not_layout hl]),
          List.filter_cons_of_pos (by simp [hl]), hkept]

/-- Where all tokens are placed, and only the last one ends the script, the layout is well nested. -/
theorem AllPlaced.wellNested (h : AllPlaced (front ++ [finish])) (hf : finish.token = .finish)
    (hfront : ∀ l ∈ front, l.token ≠ .finish)
    (hkept : (front ++ [finish]).filter (fun l => !l.token.isLayout) =
      raw.filter (·.token ≠ .newLine)) :
    WellNested raw (front ++ [finish]) := by
  have hplaced {before after : List Located} {l : Located}
      (hsplit : front ++ [finish] = before ++ l :: after) : Placed before l := (hsplit ▸ h).placed
  refine
    { ends := ⟨front, finish, rfl, hf, hfront⟩, kept := hkept, prefixes := ?prefixes, totals := ?totals,
      newLine := fun before l after hsplit hl => ?newLine,
      indent := fun before l after hsplit hl => ?indent,
      dedent := fun before l after hsplit hl => ?dedent,
      brackets := fun before l after hsplit hl => ?brackets,
      levels := fun before l after hsplit hl hne hbefore => ?levels }
  case prefixes =>
    rintro before ⟨after, hsplit⟩
    obtain ⟨hcount, hpos⟩ := (of_append (hsplit ▸ h : AllPlaced (before ++ after))).length_openLevels
    omega
  case totals =>
    have hlast : (openLevels front).length = 1 := by simpa [Placed, hf] using hplaced rfl
    obtain ⟨hcount, -⟩ := h.of_append.length_openLevels
    rw [countToken_concat, countToken_concat, hf]
    simp only [reduceCtorEq, if_false]
    omega
  case newLine =>
    have hbefore := hplaced hsplit
    simp only [Placed, hl] at hbefore
    obtain ⟨-, previous, hp, hinner⟩ := hbefore
    refine ⟨previous, hp, fun hn => ?_⟩
    rw [hn] at hinner
    nomatch hinner
  case indent =>
    have hbefore := hplaced hsplit
    simp only [Placed, hl] at hbefore
    exact hbefore.2
  case dedent =>
    have hbefore := hplaced hsplit
    simp only [Placed, hl] at hbefore
    exact hbefore.2.2
  case brackets =>
    have hbefore := hplaced hsplit
    unfold Placed at hbefore
    cases ht : l.token <;> simp_all [Token.isLayout]
  case levels =>
    have hline := hplaced hsplit
    unfold Placed at hline
    cases ht : l.token <;> simp_all [Token.isLayout]

/-- A script that has a layout has one that is well nested, of the tokens that are scanned. -/
theorem lex_wellNested (h : lex script = .ok ls) :
    ∃ raw, scan script = .ok raw ∧ WellNested raw ls := by
  obtain ⟨raw, hscan, hlayout⟩ := except_bind_eq_ok.mp h
  obtain ⟨hplaced, ⟨front, finish, rfl, hf, hfront⟩, hkept⟩ :=
    stands_start.layout (scanned_scan hscan) hlayout
  exact ⟨raw, hscan, hplaced.wellNested hf hfront hkept⟩

/-- Two blocks that end with the script, the inner one after a call over two lines. -/
def nestedScript : String := "with a:\n  f(1,\n2)\n\n  with b:\n      c # d\n"

theorem lex_wellNested_nestedScript : ∃ raw, scan nestedScript = .ok raw ∧ WellNested raw
    [⟨.keyword .with_, 1, 1⟩, ⟨.name "a", 1, 6⟩, ⟨.colon, 1, 7⟩, ⟨.newLine, 1, 8⟩,
      ⟨.indent, 2, 3⟩, ⟨.name "f", 2, 3⟩, ⟨.leftParen, 2, 4⟩, ⟨.integer 1, 2, 5⟩, ⟨.comma, 2, 6⟩,
      ⟨.integer 2, 3, 1⟩, ⟨.rightParen, 3, 2⟩, ⟨.newLine, 3, 3⟩, ⟨.keyword .with_, 5, 3⟩,
      ⟨.name "b", 5, 8⟩, ⟨.colon, 5, 9⟩, ⟨.newLine, 5, 10⟩, ⟨.indent, 6, 7⟩, ⟨.name "c", 6, 7⟩,
      ⟨.newLine, 6, 12⟩, ⟨.dedent, 7, 1⟩, ⟨.dedent, 7, 1⟩, ⟨.finish, 7, 1⟩] :=
  lex_wellNested (by decide +kernel)

end Qua.Script
