import Qua.Proofs.Script.OneLine
import Qua.Proofs.Script.WellNested

/-!
# Tight text

Tokens on one line, with a blank only between two that would be read as others without it, are read
back as they are, each where its text starts. Main statement: `lex_tight`.
-/

namespace Qua.Script

open Text (isNamePart isNameStart IsIdentifier)

-- ---------------------------------------------------------------------------
-- Tokens and their text
-- ---------------------------------------------------------------------------

namespace Token

/-- A token that has a text of its own: no real number and no layout. -/
def isPrinted : Token → Bool
  | .name text => decide (IsIdentifier text)
  | .dedent | .finish | .float _ | .indent | .newLine => false
  | _ => true

def isWord : Token → Bool
  | .integer _ | .keyword _ | .name _ => true
  | _ => false

def isInteger : Token → Bool
  | .integer _ => true
  | _ => false

def isSign : Token → Bool
  | .equals | .operator _ => true
  | _ => false

end Token

def operators : List Operator :=
  [.ampersand, .caret, .doubleEquals, .greater, .greaterEqual, .less, .lessEqual, .minus, .notEquals,
    .pipe, .plus, .shiftLeft, .shiftRight, .slash, .star, .tilde]

/-- The texts of the tokens, one after the other, are read as other tokens: two words are one, an
integer has a point, or two signs start with a longer operator than the first. -/
def Token.merges (t u : Token) : Bool :=
  t.isWord && u.isWord || t.isInteger && u = .dot || t.isSign && u.isSign && operators.any fun op =>
    t.text.length < op.text.length && op.text.toList.isPrefixOf (t.text ++ u.text).toList

/-- What is between a token and those that follow it. -/
def gap (t : Token) : List Token → String
  | [] => ""
  | u :: _ => if t.merges u then " " else ""

/-- The text of the tokens on one line. -/
def tight : List Token → String
  | [] => ""
  | t :: ts => t.text ++ gap t ts ++ tight ts

/-- The tokens where their texts start, the first one at a column of the first line. -/
def placed (column : Nat) : List Token → List Located
  | [] => []
  | t :: ts => ⟨t, 1, column⟩ :: placed (column + (t.text ++ gap t ts).length) ts

/-- Nowhere are more brackets closed than opened, and in all as many. -/
def Balanced (ts : List Token) : Prop :=
  (∀ n ≤ ts.length, (ts.take n).countP Token.isClosing ≤ (ts.take n).countP Token.isOpening) ∧
    ts.countP Token.isClosing = ts.countP Token.isOpening

instance (ts : List Token) : Decidable (Balanced ts) := by
  unfold Balanced
  infer_instance

-- ---------------------------------------------------------------------------
-- One token
-- ---------------------------------------------------------------------------

/-- The text of the token goes on with the character. -/
def Token.goesOn (t : Token) (c : Char) : Bool :=
  match t with
  | .name _ | .keyword _ => isNamePart c
  | .integer _ => isNamePart c || c == '.'
  | .operator .less => c == '<' || c == '='
  | .operator .greater => c == '>' || c == '='
  | .equals => c == '='
  | _ => false

@[simp] theorem Token.goesOn_name (s : String) (c : Char) :
    (Token.name s).goesOn c = isNamePart c := rfl
@[simp] theorem Token.goesOn_keyword (k : Keyword) (c : Char) :
    (Token.keyword k).goesOn c = isNamePart c := rfl
@[simp] theorem Token.goesOn_integer (n : UInt64) (c : Char) :
    (Token.integer n).goesOn c = (isNamePart c || c == '.') := rfl
@[simp] theorem Token.goesOn_less (c : Char) :
    (Token.operator .less).goesOn c = (c == '<' || c == '=') := rfl
@[simp] theorem Token.goesOn_greater (c : Char) :
    (Token.operator .greater).goesOn c = (c == '>' || c == '=') := rfl
@[simp] theorem Token.goesOn_equals (c : Char) : Token.equals.goesOn c = (c == '=') := rfl

variable {t u : Token} {ts : List Token}

theorem scans_keyword (k : Keyword) : Scans k.text.toList [.keyword k] EndsName := by
  cases k <;> exact Scans.word (by decide) (by decide)

/-- A sign with which longer operators start, before what they do not go on with. -/
theorem scans_first (hc : startsMark c = true) (hone : symbolLexeme [c] = some ⟨t, [c], []⟩)
    (htwo : ∀ d rest, t.goesOn d = false → symbolLexeme (c :: d :: rest) = some ⟨t, [c], d :: rest⟩) :
    Scans [c] [t] fun d => t.goesOn d = false := by
  refine .mark hc fun rest hr => ?_
  cases rest with
  | nil => exact hone
  | cons d rest => exact htwo d rest (hr d rfl)

theorem scans_operator (op : Operator) :
    Scans op.text.toList [.operator op] fun c => (Token.operator op).goesOn c = false := by
  cases op with
  | less =>
    change Scans ['<'] [.operator .less] _
    exact scans_first (by decide) rfl fun d rest hd => by
      rw [symbolLexeme] <;> simp_all
  | greater =>
    change Scans ['>'] [.operator .greater] _
    exact scans_first (by decide) rfl fun d rest hd => by
      rw [symbolLexeme] <;> simp_all
  | _ => exact .mark (by decide) fun rest _ => rfl

theorem scans_equals : Scans ['='] [.equals] fun c => Token.equals.goesOn c = false :=
  scans_first (by decide) rfl fun d rest hd => by
    rw [symbolLexeme]
    simp_all

theorem text_integer (value : UInt64) :
    (Token.integer value).text.toList = Nat.toDigits 10 value.toNat := Nat.toList_repr

theorem text_string (s : String) :
    (Token.string s).text.toList = '"' :: (s.toList.flatMap (Text.escape '"') ++ ['"']) := by
  simp [Token.text, Text.quote, Text.quoteWith]

/-- The text of a token is read as it before what it does not go on with. -/
theorem scans_text (h : t.isPrinted = true) :
    Scans t.text.toList [t] fun c => t.goesOn c = false := by
  cases t with
  | name s => exact Scans.name (of_decide_eq_true h)
  | keyword k => exact scans_keyword k
  | integer value =>
    have hs : Scans (Nat.toDigits 10 value.toNat) [.integer value] EndsNumber := by
      simpa using Scans.integer value.toNat_lt
    rw [text_integer]
    exact hs.mono fun c hc => by simpa [EndsNumber] using hc
  | string s => exact (Scans.quote s).mono fun _ _ => trivial
  | operator op => exact scans_operator op
  | equals => exact scans_equals
  | colon | comma | dot | leftBrace | leftBracket | leftParen | rightBrace | rightBracket | rightParen =>
    exact .mark (by decide) fun rest _ => rfl
  | dedent | finish | float | indent | newLine => nomatch h

/-- A word starts with a character of a name. -/
theorem head_word (h : t.isPrinted = true) (hw : t.isWord = true) :
    ∃ c cs, t.text.toList = c :: cs ∧ isNamePart c = true := by
  cases t with
  | name s =>
    obtain ⟨hs, -, -⟩ := of_decide_eq_true h
    cases hl : s.toList with
    | nil => simp [hl] at hs
    | cons c cs =>
      rw [hl] at hs
      exact ⟨c, cs, hl, Text.isNamePart_of_isNameStart (by simpa using hs)⟩
  | keyword k => cases k <;> exact ⟨_, _, rfl, by decide⟩
  | integer value =>
    rw [text_integer]
    cases hd : Nat.toDigits 10 value.toNat with
    | nil => exact absurd hd Nat.toDigits_ne_nil
    | cons c cs =>
      exact ⟨c, cs, rfl, Text.isNamePart_of_isDigit (isDigit_of_mem_toDigits (hd ▸ List.mem_cons_self))⟩
  | _ => nomatch hw

/-- Before a token that is no word, a word ends, and a number too unless that is a dot. -/
theorem head_mark (h : t.isPrinted = true) (hw : t.isWord = false) :
    ∃ c cs, t.text.toList = c :: cs ∧ startsToken c = true ∧ isNamePart c = false ∧
      (c = '.' → t = .dot) ∧ (t.isSign = false → c ≠ '<' ∧ c ≠ '>' ∧ c ≠ '=') := by
  cases t with
  | string s => exact ⟨'"', _, text_string s, by decide, by decide, by simp, by simp⟩
  | operator op => cases op <;> exact ⟨_, _, rfl, by decide⟩
  | colon | comma | dot | equals | leftBrace | leftBracket | leftParen | rightBrace | rightBracket
  | rightParen => exact ⟨_, _, rfl, by decide⟩
  | name | keyword | integer => nomatch hw
  | dedent | finish | float | indent | newLine => nomatch h

theorem text_head (h : t.isPrinted = true) : ∃ c cs, t.text.toList = c :: cs ∧ startsToken c = true := by
  cases hw : t.isWord with
  | true =>
    obtain ⟨c, cs, hc, hpart⟩ := head_word h hw
    exact ⟨c, cs, hc, startsToken_of_isNamePart hpart⟩
  | false =>
    obtain ⟨c, cs, hc, hs, -⟩ := head_mark h hw
    exact ⟨c, cs, hc, hs⟩

/-- What is no word goes on with the second character of an operator at most. -/
theorem goesOn_other (h : t.isWord = false) (hl : c ≠ '<') (hg : c ≠ '>') (he : c ≠ '=') :
    t.goesOn c = false := by
  cases t with
  | operator op => cases op <;> first | rfl | simp [hl, hg, he]
  | equals => simp [he]
  | name | keyword | integer => nomatch h
  | _ => rfl

def signs : List Token := .equals :: operators.map .operator

theorem mem_signs (h : t.isSign = true) : t ∈ signs := by
  cases t with
  | operator op => cases op <;> decide
  | equals => decide
  | _ => nomatch h

/-- The longer operators are those that a sign goes on with. -/
theorem goesOn_sign (ht : t.isSign = true) (hu : u.isSign = true) (h : t.merges u = false) :
    u.text.toList.head?.any t.goesOn = false := by
  have hsigns : ∀ t ∈ signs, ∀ u ∈ signs, t.merges u = false →
    u.text.toList.head?.any t.goesOn = false := by decide +kernel
  exact hsigns t (mem_signs ht) u (mem_signs hu) h

/-- Where two tokens do not merge, the first one does not go on with the second. -/
theorem goesOn_head (ht : t.isPrinted = true) (hu : u.isPrinted = true) (h : t.merges u = false) :
    ∃ c cs, u.text.toList = c :: cs ∧ t.goesOn c = false := by
  have hcases := h
  simp only [Token.merges, Bool.or_eq_false_iff, Bool.and_eq_false_imp] at hcases
  obtain ⟨⟨hwords, hpoint⟩, -⟩ := hcases
  cases hw : u.isWord with
  | true =>
    obtain ⟨c, cs, hc, hpart⟩ := head_word hu hw
    have hne (d : Char) (hd : isNamePart d = false) : c ≠ d := by
      rintro rfl
      rw [hpart] at hd
      nomatch hd
    have hnot : t.isWord = false := by
      by_contra hword
      rw [hwords (by simpa using hword)] at hw
      nomatch hw
    exact ⟨c, cs, hc,
      goesOn_other hnot (hne '<' (by decide)) (hne '>' (by decide)) (hne '=' (by decide))⟩
  | false =>
    obtain ⟨c, cs, hc, -, hpart, hdot, hsign⟩ := head_mark hu hw
    refine ⟨c, cs, hc, ?_⟩
    cases t with
    | name | keyword => exact hpart
    | integer value =>
      have hne : c ≠ '.' := by
        rintro rfl
        simpa [hdot rfl] using hpoint rfl
      simp [hpart, hne]
    | equals | operator =>
      cases hs : u.isSign with
      | true => simpa [hc] using goesOn_sign rfl hs h
      | false =>
        obtain ⟨hl, hg, he⟩ := hsign hs
        exact goesOn_other rfl hl hg he
    | _ => rfl

-- ---------------------------------------------------------------------------
-- The whole line
-- ---------------------------------------------------------------------------

/-- The text of a token is on one line. -/
theorem text_inLine (h : t.isPrinted = true) : '\n' ∉ t.text.toList := by
  intro hmem
  cases t with
  | name s =>
    obtain ⟨-, hall, -⟩ := of_decide_eq_true h
    exact absurd (List.all_eq_true.mp hall _ hmem) (by decide)
  | integer value =>
    rw [text_integer] at hmem
    exact absurd (isDigit_of_mem_toDigits hmem) (by decide)
  | string s =>
    rw [text_string] at hmem
    obtain ⟨c, -, hc⟩ : ∃ c ∈ s.toList, '\n' ∈ Text.escape '"' c := by simpa using hmem
    unfold Text.escape at hc
    grind
  | keyword k => cases k <;> exact absurd hmem (by decide)
  | operator op => cases op <;> exact absurd hmem (by decide)
  | colon | comma | dot | equals | leftBrace | leftBracket | leftParen | rightBrace | rightBracket
  | rightParen => exact absurd hmem (by decide)
  | dedent | finish | float | indent | newLine => nomatch h

theorem after_inLine (h : '\n' ∉ cs) (p : Position) : p.after cs = ⟨p.line, p.column + cs.length⟩ := by
  induction cs generalizing p with
  | nil => rfl
  | cons c cs ih =>
    obtain ⟨hc, hcs⟩ := not_or.mp (List.mem_cons.not.mp h)
    have hnext : p.next c = ⟨p.line, p.column + 1⟩ := if_neg fun he => hc he.symm
    change (p.next c).after cs = _
    rw [ih hcs, hnext, List.length_cons]
    simp only [Position.mk.injEq, true_and]
    omega

theorem gap_eq (t : Token) (ts : List Token) : gap t ts = "" ∨ gap t ts = " " := by
  unfold gap
  split
  · exact .inl rfl
  · split
    · exact .inr rfl
    · exact .inl rfl

/-- A gap is skipped. -/
theorem scans_gap (t : Token) (ts : List Token) : Scans (gap t ts).toList [] fun _ => True := by
  obtain h | h := gap_eq t ts <;> rw [h]
  · exact .nil _
  · exact .blank _

theorem gap_inLine (t : Token) (ts : List Token) : '\n' ∉ (gap t ts).toList := by
  obtain h | h := gap_eq t ts <;> rw [h] <;> decide

theorem goesOn_blank (h : t.isPrinted = true) : t.goesOn ' ' = false := by
  cases t with
  | operator op => cases op <;> rfl
  | name | keyword | integer => simp [show isNamePart ' ' = false by decide]
  | _ => rfl

/-- The text after a token does not go on with it. -/
theorem gap_tight_head (ht : t.isPrinted = true) (hts : ∀ u ∈ ts, u.isPrinted = true) :
    ∀ c ∈ ((gap t ts).toList ++ (tight ts).toList).head?, t.goesOn c = false := by
  cases ts with
  | nil => simp [gap, tight]
  | cons u ts =>
    cases hm : t.merges u with
    | true => simp [gap, hm, goesOn_blank ht]
    | false =>
      obtain ⟨c, cs, hc, hgo⟩ := goesOn_head ht (hts u List.mem_cons_self) hm
      simp [gap, hm, tight, hc, hgo]

/-- The tokens of the text are scanned where their texts start. -/
theorem scanFrom_tight (h : ∀ t ∈ ts, t.isPrinted = true) (column : Nat) (hf : ts.length < fuel) :
    scanFrom fuel ⟨1, column⟩ (tight ts).toList =
      .ok (placed column ts ++ [⟨.finish, 1, column + (tight ts).length⟩]) := by
  induction ts generalizing fuel column with
  | nil =>
    obtain ⟨fuel, rfl⟩ : ∃ m, fuel = m + 1 := ⟨fuel - 1, by simp at hf; omega⟩
    rfl
  | cons t ts ih =>
    obtain ⟨ht, hts⟩ := List.forall_mem_cons.mp h
    rw [List.length_cons] at hf
    have htext : (tight (t :: ts)).toList =
        t.text.toList ++ ((gap t ts).toList ++ (tight ts).toList) := by
      simp [tight]
    obtain ⟨ls, hl, hrun⟩ := scans_text ht fuel ⟨1, column⟩ _ (gap_tight_head ht hts) (by simp; omega)
    obtain ⟨l, rfl, htoken⟩ := List.map_eq_singleton_iff.mp hl
    obtain ⟨ls', hl', hgap⟩ := scans_gap t ts (fuel - 1) (Position.after ⟨1, column⟩ t.text.toList)
      (tight ts).toList (by simp) (by simp)
    obtain rfl := List.map_eq_nil_iff.mp hl'
    have hp : Position.after (Position.after ⟨1, column⟩ t.text.toList) (gap t ts).toList =
        ⟨1, column + (t.text ++ gap t ts).length⟩ := by
      rw [after_inLine (gap_inLine t ts), after_inLine (text_inLine ht), String.length_append]
      simp only [String.length_toList, Nat.add_assoc]
    have htail := ih hts (column + (t.text ++ gap t ts).length) (by omega : ts.length < fuel - 1)
    have hall : scanFrom fuel ⟨1, column⟩ (tight (t :: ts)).toList =
        .ok (l :: (placed (column + (t.text ++ gap t ts).length) ts ++
          [⟨.finish, 1, column + (tight (t :: ts)).length⟩])) := by
      have hlen : (tight (t :: ts)).length = (t.text ++ gap t ts).length + (tight ts).length := by
        rw [tight, String.length_append]
      rw [htext, hrun, List.length_singleton, hgap, hp, List.length_nil, Nat.sub_zero, htail, hlen,
        Nat.add_assoc]
      rfl
    -- the first token stands at the beginning of the text
    obtain ⟨c, cs, hc, hstart⟩ := text_head ht
    rw [hall, placed]
    rw [htext, hc, List.cons_append] at hall
    obtain ⟨hline, hcolumn⟩ := scanFrom_head hstart hall
    have hfirst : l = ⟨t, 1, column⟩ := by
      cases l
      simpa using ⟨htoken, hline, hcolumn⟩
    rw [hfirst]
    rfl

-- ---------------------------------------------------------------------------
-- Its layout
-- ---------------------------------------------------------------------------

theorem bracketDepth_run {l : Located} (h : l.token.isClosing = true → 0 < depth) :
    bracketDepth depth l = .ok (depth + (if l.token.isOpening then 1 else 0) -
      (if l.token.isClosing then 1 else 0)) := by
  unfold bracketDepth
  cases ht : l.token <;> simp_all [Token.isOpening, Token.isClosing] <;> omega

theorem isOpening_closing (h : t.isClosing = true) : t.isOpening = false := by
  cases t <;> first | rfl | nomatch h

/-- Tokens that close the brackets that are open are laid out on their line. -/
theorem layoutFrom_balanced {ls : List Located} (hp : ∀ t ∈ ts, t.isPrinted = true)
    (hb : ∀ n ≤ ts.length,
      (ts.take n).countP Token.isClosing ≤ depth + (ts.take n).countP Token.isOpening)
    (hall : ts.countP Token.isClosing = depth + ts.countP Token.isOpening)
    (hl : ls.map Located.token = ts) (levels : List Nat) (rest : List Located) :
    layoutFrom levels depth false (ls ++ rest) = (ls ++ ·) <$> layoutFrom levels 0 false rest := by
  induction ts generalizing depth ls with
  | nil =>
    obtain rfl := List.map_eq_nil_iff.mp hl
    obtain rfl : depth = 0 := by simpa using hall.symm
    simp
  | cons t ts ih =>
    obtain ⟨l, ls, rfl, ht, hl⟩ := List.map_eq_cons_iff.mp hl
    obtain ⟨hprinted, hp⟩ := List.forall_mem_cons.mp hp
    have hdepth : l.token.isClosing = true → 0 < depth := by
      intro hc
      rw [ht] at hc
      have hone := hb 1 (by simp)
      simp [hc, isOpening_closing hc] at hone
      omega
    have hle : (if l.token.isClosing then 1 else 0) ≤ depth := by
      split
      · next hc => exact hdepth hc
      · exact Nat.zero_le _
    have hnew : l.token ≠ .newLine ∧ l.token ≠ .finish := by
      rw [ht]
      constructor <;> rintro rfl <;> nomatch hprinted
    rw [List.cons_append, layoutFrom_cons hnew.1 hnew.2 (bracketDepth_run hdepth), ih hp ?_ ?_ hl]
    · cases layoutFrom levels 0 false rest <;> simp [Functor.map, Except.map]
    · intro n hn
      have hnext := hb (n + 1) (by simpa using hn)
      simp only [List.take_succ_cons, List.countP_cons, ← ht] at hnext
      omega
    · simp only [List.countP_cons, ← ht] at hall
      omega

theorem map_placed (column : Nat) (ts : List Token) : (placed column ts).map Located.token = ts := by
  induction ts generalizing column with
  | nil => rfl
  | cons t ts ih => rw [placed, List.map_cons, ih]

theorem length_le_tight (h : ∀ t ∈ ts, t.isPrinted = true) : ts.length ≤ (tight ts).length := by
  induction ts with
  | nil => exact Nat.zero_le _
  | cons t ts ih =>
    obtain ⟨ht, hts⟩ := List.forall_mem_cons.mp h
    obtain ⟨c, cs, hc, -⟩ := text_head ht
    have hpos : 0 < t.text.length := by simp [← String.length_toList, hc]
    have hrest := ih hts
    simp only [tight, String.length_append, List.length_cons]
    omega

/-- Tokens on one line, with a blank only where two of them would merge, are read back, each where its
text starts, and then the line ends. -/
theorem lex_tight (hne : ts ≠ []) (hp : ∀ t ∈ ts, t.isPrinted = true) (hb : Balanced ts) :
    lex (tight ts) = .ok (placed 1 ts ++
      [⟨.newLine, 1, (tight ts).length + 1⟩, ⟨.finish, 1, (tight ts).length + 1⟩]) := by
  have hscan : scan (tight ts) = .ok (placed 1 ts ++ [⟨.finish, 1, (tight ts).length + 1⟩]) := by
    have hlen := length_le_tight hp
    rw [Nat.add_comm (tight ts).length 1]
    exact scanFrom_tight hp 1 (by rw [String.length_toList]; omega)
  obtain ⟨hfronts, hall⟩ := hb
  have hlay : layoutFrom [1] 0 false (placed 1 ts ++ [⟨.finish, 1, (tight ts).length + 1⟩]) = _ :=
    layoutFrom_balanced hp (by simpa using hfronts) (by simpa using hall) (map_placed 1 ts) _ _
  cases ts with
  | nil => contradiction
  | cons t ts =>
    have ht := hp t List.mem_cons_self
    have hnew : t ≠ .newLine ∧ t ≠ .finish := by constructor <;> rintro rfl <;> nomatch ht
    have hline (rest : List Located) : layoutFrom [1] 0 true (⟨t, 1, 1⟩ :: rest) =
        layoutFrom [1] 0 false (⟨t, 1, 1⟩ :: rest) := layoutFrom_lineStart hnew.1 hnew.2 rfl [] rest
    rw [lex, hscan]
    change layoutFrom [1] 0 true (placed 1 (t :: ts) ++ _) = _
    rw [placed, List.cons_append] at hlay ⊢
    rw [hline, hlay, layoutFrom_finish rfl]
    rfl

/-- Tokens of which each two neighbours stand in another way to one another. -/
def neighbours : List Token :=
  [.keyword .with_, .name "α", .leftParen, .integer 1, .dot, .name "β", .operator .less, .equals,
    .operator .doubleEquals, .string "\t", .keyword .as_, .integer 20, .rightParen]

theorem lex_tight_neighbours : lex "with α(1 .β< = ==\"\\t\"as 20)" = .ok
    [⟨.keyword .with_, 1, 1⟩, ⟨.name "α", 1, 6⟩, ⟨.leftParen, 1, 7⟩, ⟨.integer 1, 1, 8⟩, ⟨.dot, 1, 10⟩,
      ⟨.name "β", 1, 11⟩, ⟨.operator .less, 1, 12⟩, ⟨.equals, 1, 14⟩, ⟨.operator .doubleEquals, 1, 16⟩,
      ⟨.string "\t", 1, 18⟩, ⟨.keyword .as_, 1, 22⟩, ⟨.integer 20, 1, 25⟩, ⟨.rightParen, 1, 27⟩,
      ⟨.newLine, 1, 28⟩, ⟨.finish, 1, 28⟩] := by
  have htext : tight neighbours = "with α(1 .β< = ==\"\\t\"as 20)" := by decide +kernel
  have h : lex (tight neighbours) = _ :=
    lex_tight (by decide) (by decide +kernel) (by decide +kernel)
  rw [htext] at h
  rw [h]
  decide +kernel

end Qua.Script
