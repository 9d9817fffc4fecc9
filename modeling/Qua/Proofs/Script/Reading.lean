import Qua.Proofs.Script.Parsing
import Qua.Proofs.Script.Quoted
import Qua.Expression.Render

/-!
# Reading what was written

A text is written as a term if it is scanned, laid out and parsed as that term wherever it stands. The
three kinds differ in what may follow: calls, attributes and indices follow a primary (`IsPrimary`),
operators an operand (`IsOperand`), and separators a term (`IsTerm`).
-/

namespace Qua.Script

open Text (IsIdentifier)

-- ---------------------------------------------------------------------------
-- Layout
-- ---------------------------------------------------------------------------

/-- Tokens within a line that close the brackets that they open. -/
def Inline (ts : List Token) : Prop :=
  ∀ (levels : List Nat) (depth : Nat) (ls rest : List Located), ls.map Located.token = ts →
    layoutFrom levels depth false (ls ++ rest) = (ls ++ ·) <$> layoutFrom levels depth false rest

/-- Tokens that are no bracket and no part of the layout. -/
def Token.isPlain : Token → Bool
  | .leftParen | .leftBracket | .leftBrace | .rightParen | .rightBracket | .rightBrace => false
  | .newLine | .finish => false
  | _ => true

theorem layoutFrom_cons {l : Located} (h : l.token ≠ .newLine) (h' : l.token ≠ .finish)
    (hb : bracketDepth depth l = .ok depth') (levels : List Nat) (rest : List Located) :
    layoutFrom levels depth false (l :: rest) =
      (l :: ·) <$> layoutFrom levels depth' false rest := by
  rw [layoutFrom, hb]
  simp only [bind, Except.bind]
  cases layoutFrom levels depth' false rest with
  | error e => cases ht : l.token <;> simp_all [Functor.map, Except.map]
  | ok rest' => cases ht : l.token <;> simp_all [Functor.map, Except.map, pure, Except.pure]

/-- An opening bracket and the one that closes it. -/
inductive Brackets : Token → Token → Prop
  | round : Brackets .leftParen .rightParen
  | square : Brackets .leftBracket .rightBracket
  | curly : Brackets .leftBrace .rightBrace

namespace Brackets

theorem layout_left (h : Brackets left right) {l : Located} (hl : l.token = left) (levels : List Nat)
    (depth : Nat) (rest : List Located) :
    layoutFrom levels depth false (l :: rest) =
      (l :: ·) <$> layoutFrom levels (depth + 1) false rest := by
  cases h <;> exact layoutFrom_cons (by simp [hl]) (by simp [hl]) (by simp [bracketDepth, hl]) _ _

theorem layout_right (h : Brackets left right) {l : Located} (hl : l.token = right)
    (levels : List Nat) (depth : Nat) (rest : List Located) :
    layoutFrom levels (depth + 1) false (l :: rest) =
      (l :: ·) <$> layoutFrom levels depth false rest := by
  cases h <;> exact layoutFrom_cons (by simp [hl]) (by simp [hl]) (by simp [bracketDepth, hl]) _ _

end Brackets

namespace Inline

theorem nil : Inline [] := by
  intro levels depth ls rest hl
  obtain rfl := List.map_eq_nil_iff.mp hl
  simp

theorem append (h : Inline ts) (h' : Inline ts') : Inline (ts ++ ts') := by
  intro levels depth ls rest hl
  obtain ⟨ls₁, ls₂, rfl, hl₁, hl₂⟩ := List.map_eq_append_iff.mp hl
  rw [List.append_assoc, h levels depth ls₁ _ hl₁, h' levels depth ls₂ rest hl₂]
  cases layoutFrom levels depth false rest <;> simp [Functor.map, Except.map]

theorem token (h : t.isPlain = true) : Inline [t] := by
  intro levels depth ls rest hl
  obtain ⟨l, ls', rfl, rfl, hn⟩ := List.map_eq_cons_iff.mp hl
  obtain rfl := List.map_eq_nil_iff.mp hn
  have hb : bracketDepth depth l = .ok depth := by
    cases ht : l.token <;> simp_all [bracketDepth, Token.isPlain]
  have hbreak : l.token ≠ .newLine ∧ l.token ≠ .finish := by
    constructor <;> intro ht <;> simp [ht, Token.isPlain] at h
  exact layoutFrom_cons hbreak.1 hbreak.2 hb levels rest

/-- Tokens between brackets. -/
theorem bracketed (h : Inline ts) (hb : Brackets left right) : Inline (left :: ts ++ [right]) := by
  intro levels depth ls rest hl
  obtain ⟨ls₁, ls₂, rfl, hl₁, hl₂⟩ := List.map_eq_append_iff.mp hl
  obtain ⟨lo, ls₁, rfl, ho, hm⟩ := List.map_eq_cons_iff.mp hl₁
  obtain ⟨lc, ls', rfl, hc, hn⟩ := List.map_eq_cons_iff.mp hl₂
  obtain rfl := List.map_eq_nil_iff.mp hn
  rw [List.append_assoc, List.cons_append, hb.layout_left ho, h levels (depth + 1) ls₁ _ hm,
    List.singleton_append, hb.layout_right hc]
  cases layoutFrom levels depth false rest <;> simp [Functor.map, Except.map]

theorem commas (h : ∀ ts ∈ tss, Inline ts) : Inline (commas tss) := by
  induction tss with
  | nil => exact nil
  | cons ts tss ih =>
    have hts := h ts List.mem_cons_self
    have htss := ih fun ts' hts' => h ts' (List.mem_cons_of_mem _ hts')
    rw [commas_cons]
    cases tss with
    | nil => exact hts.append nil
    | cons ts' tss => exact hts.append ((token (t := .comma) rfl).append htss)

end Inline

-- ---------------------------------------------------------------------------
-- Primaries
-- ---------------------------------------------------------------------------

/-- The tokens are the term, and so they are before anything that goes on with it. -/
def ReadsPrimary (ts : List Token) (v : Term) : Prop :=
  ∀ ts' w, Extends v ts' w → ReadsOperand (ts ++ ts') w

theorem ReadsAtom.primary (h : ReadsAtom ts v) : ReadsPrimary ts v := fun _ _ hx => h.operand hx

theorem ReadsPrimary.operand (h : ReadsPrimary ts v) : ReadsOperand ts v := by
  have hv := h [] v (.nil v)
  rwa [List.append_nil] at hv

theorem ReadsPrimary.attribute (h : ReadsPrimary ts v) (name : String) :
    ReadsPrimary (ts ++ [.dot, .name name]) (.attribute v name) := by
  intro ts' w hx
  rw [List.append_assoc]
  exact h _ w hx.attribute

theorem ReadsPrimary.index (h : ReadsPrimary ts v) (hi : ReadsTerm ts' i) :
    ReadsPrimary (ts ++ (.leftBracket :: ts' ++ [.rightBracket])) (.index v i) := by
  intro ts'' w hx
  have hw := h _ w (hx.index hi)
  simpa using hw

theorem ReadsPrimary.call (h : ReadsPrimary ts v) (ha : List.Forall₂ ReadsTerm tss vs)
    (hk : List.Forall₂ ReadsKeyword kss kws) :
    ReadsPrimary (ts ++ (.leftParen :: commas (tss ++ kss) ++ [.rightParen])) (.call v vs kws) := by
  intro ts'' w hx
  have hw := h _ w (hx.call ha hk)
  simpa using hw

-- ---------------------------------------------------------------------------
-- Written text
-- ---------------------------------------------------------------------------

/-- The text is scanned as tokens with a property before any character of `follow`, and neither the
layout nor an operator before it changes this. -/
structure Written (follow : Char → Prop) (P : List Token → Prop) (text : String) : Prop where
  starts : ∃ c cs, text.toList = c :: cs ∧ startsToken c = true ∧ EndsOperator c
  tokens : ∃ ts, Scans text.toList ts follow ∧ Inline ts ∧ P ts

abbrev IsPrimary (text : String) (v : Term) : Prop := Written EndsName (ReadsPrimary · v) text

abbrev IsOperand (text : String) (v : Term) : Prop := Written EndsNumber (ReadsOperand · v) text

abbrev IsTerm (text : String) (v : Term) : Prop := Written EndsNumber (ReadsTerm · v) text

/-- A keyword argument. -/
abbrev IsKeyword (text : String) (entry : String × Term) : Prop :=
  Written EndsNumber (ReadsKeyword · entry) text

theorem Written.mono (h : Written follow P text) (hf : ∀ c, follow' c → follow c)
    (hp : ∀ ts, P ts → P' ts) : Written follow' P' text := by
  obtain ⟨ts, hs, hi, ht⟩ := h.tokens
  exact ⟨h.starts, ts, hs.mono hf, hi, hp ts ht⟩

theorem IsPrimary.operand (h : IsPrimary text v) : IsOperand text v :=
  h.mono (fun _ hc => hc.1) fun _ ht => ht.operand

theorem IsOperand.term (h : IsOperand text v) : IsTerm text v := h.mono (fun _ hc => hc) fun _ ht => ht.term

theorem IsPrimary.term (h : IsPrimary text v) : IsTerm text v := h.operand.term

/-- Text that starts with a written one. -/
theorem Written.starts_append (h : Written follow P text) (rest : String) :
    ∃ c cs, (text ++ rest).toList = c :: cs ∧ startsToken c = true ∧ EndsOperator c := by
  obtain ⟨c, cs, hcs, hc⟩ := h.starts
  exact ⟨c, cs ++ rest.toList, by rw [String.toList_append, hcs, List.cons_append], hc⟩

theorem endsOperator_of_isNamePart (h : Text.isNamePart c = true) : EndsOperator c := by
  refine ⟨?_, ?_, ?_⟩ <;> rintro rfl <;> exact absurd h (by decide)

-- ---------------------------------------------------------------------------
-- Primaries that are one token
-- ---------------------------------------------------------------------------

theorem IsPrimary.name (h : IsIdentifier s) : IsPrimary s (.name s) := by
  refine ⟨?_, [.name s], .name h, .token rfl, (ReadsAtom.token rfl).primary⟩
  obtain ⟨hs, -, -⟩ := h
  cases hl : s.toList with
  | nil => simp [hl] at hs
  | cons c cs =>
    have hc : Text.isNamePart c = true :=
      Text.isNamePart_of_isNameStart (by simpa [hl] using hs)
    exact ⟨c, cs, rfl, startsToken_of_isNamePart hc, endsOperator_of_isNamePart hc⟩

theorem IsPrimary.bool (b : Bool) : IsPrimary (renderBool b) (.bool b) := by
  cases b with
  | true =>
    exact ⟨⟨'T', ['r', 'u', 'e'], rfl, by decide, by simp [EndsOperator]⟩, [.keyword .true_],
      .word (by decide) rfl, .token rfl, (ReadsAtom.token rfl).primary⟩
  | false =>
    exact ⟨⟨'F', ['a', 'l', 's', 'e'], rfl, by decide, by simp [EndsOperator]⟩,
      [.keyword .false_],
      .word (by decide) rfl, .token rfl, (ReadsAtom.token rfl).primary⟩

theorem IsPrimary.none : IsPrimary "None" .none :=
  ⟨⟨'N', ['o', 'n', 'e'], rfl, by decide, by simp [EndsOperator]⟩, [.keyword .none_],
    .word (by decide) rfl, .token rfl, (ReadsAtom.token rfl).primary⟩

theorem IsPrimary.quoteWith (hq : Text.IsQuote q) (s : String) :
    IsPrimary (Text.quoteWith q s) (.string s) := by
  refine ⟨⟨q, s.toList.flatMap (Text.escape q) ++ [q], by simp [Text.quoteWith], ?_, ?_⟩,
    [.string s], (Scans.quoteWith hq s).mono fun _ _ => trivial, .token rfl,
    (ReadsAtom.token rfl).primary⟩
  · obtain rfl | rfl := hq <;> decide
  · obtain rfl | rfl := hq <;> simp [EndsOperator]

theorem IsPrimary.quote (s : String) : IsPrimary (Text.quote s) (.string s) := .quoteWith (.inl rfl) s

-- ---------------------------------------------------------------------------
-- Numbers
-- ---------------------------------------------------------------------------

theorem IsOperand.integer (hn : n < UInt64.size) :
    IsOperand (toString n) (.int (UInt64.ofNat n)) := by
  have hl : (toString n).toList = Nat.toDigits 10 n := by
    rw [Nat.toString_eq_repr, Nat.toList_repr]
  refine ⟨?_, [.integer (UInt64.ofNat n)], hl ▸ .integer hn, .token rfl,
    (ReadsAtom.token rfl).primary.operand⟩
  cases hd : Nat.toDigits 10 n with
  | nil => exact absurd hd Nat.toDigits_ne_nil
  | cons c cs =>
    have hc : Text.isNamePart c = true :=
      Text.isNamePart_of_isDigit (isDigit_of_mem_toDigits (hd ▸ List.mem_cons_self))
    exact ⟨c, cs, hl ▸ hd, startsToken_of_isNamePart hc, endsOperator_of_isNamePart hc⟩

theorem IsOperand.minus (h : IsOperand text v) : IsOperand ("-" ++ text) (.unary .minus v) := by
  obtain ⟨ts, hs, hi, ht⟩ := h.tokens
  refine ⟨⟨'-', text.toList, by simp, by decide, by simp [EndsOperator]⟩, .operator .minus :: ts, ?_,
    (Inline.token (t := .operator .minus) rfl).append hi, ht.unary rfl⟩
  rw [String.toList_append]
  exact Scans.minus.append hs fun _ _ _ _ => trivial

-- ---------------------------------------------------------------------------
-- Brackets and operators
-- ---------------------------------------------------------------------------

/-- Text between brackets. -/
theorem Scans.bracketed (hl : Scans [l] [left] fun _ => True) (hr : Scans [r] [right] fun _ => True)
    (hends : EndsNumber r) (h : Scans cs ts EndsNumber) :
    Scans ([l] ++ cs ++ [r]) (left :: ts ++ [right]) EndsName := by
  have hclose : Scans (cs ++ [r]) (ts ++ [right]) EndsName :=
    h.append_cons (hr.mono fun _ _ => trivial) hends
  rw [List.append_assoc]
  exact hl.append hclose fun _ _ _ _ => trivial

theorem IsTerm.parenthesized (h : IsTerm text v) : IsPrimary ("(" ++ text ++ ")") v := by
  obtain ⟨ts, hs, hi, ht⟩ := h.tokens
  refine ⟨⟨'(', text.toList ++ [')'], by simp, by decide, by simp [EndsOperator]⟩,
    .leftParen :: ts ++ [.rightParen], ?_, hi.bracketed .round, ht.parenthesized.primary⟩
  rw [String.toList_append, String.toList_append]
  exact Scans.leftParen.bracketed Scans.rightParen ⟨by decide, by decide⟩ hs

theorem Scans.operator (hop : op.level? ≠ none) :
    Scans op.text.toList [.operator op] EndsOperator := by
  cases op with
  | tilde => exact absurd rfl hop
  | less => exact Scans.less
  | greater => exact Scans.greater
  | ampersand | caret | minus | pipe | plus | slash | star =>
    exact (Scans.single (by decide) fun _ => rfl).mono fun _ _ => trivial
  | doubleEquals | greaterEqual | lessEqual | notEquals | shiftLeft | shiftRight =>
    exact .mark (by decide) fun _ _ => rfl

/-- Operands are written around an operator without blanks. -/
theorem IsOperand.binary (h : IsOperand text v) (h' : IsOperand text' v')
    (hop : op.level? = some above) (ha : 0 < above) :
    IsTerm (text ++ op.text ++ text') (.binary op v v') := by
  obtain ⟨ts, hs, hi, ht⟩ := h.tokens
  obtain ⟨ts', hs', hi', ht'⟩ := h'.tokens
  obtain ⟨c, cs, hc, -, hends⟩ := h'.starts
  refine ⟨by rw [String.append_assoc]; exact h.starts_append _, ts ++ .operator op :: ts', ?_,
    hi.append ((Inline.token (t := .operator op) rfl).append hi'), ht.binary ht' hop ha⟩
  have hopScans : Scans op.text.toList [.operator op] EndsOperator := .operator (by simp [hop])
  have hright : Scans (op.text.toList ++ text'.toList) ([.operator op] ++ ts') EndsNumber := by
    rw [hc] at hs' ⊢
    exact hopScans.append_cons hs' hends
  rw [String.append_assoc, String.toList_append, String.toList_append]
  refine hs.append hright fun rest _ d hd => ?_
  cases op <;> simp [Operator.text] at hd <;> subst hd <;> exact ⟨by decide, by decide⟩

-- ---------------------------------------------------------------------------
-- Attributes, indices and calls
-- ---------------------------------------------------------------------------

theorem IsPrimary.attribute (h : IsPrimary text v) (hn : IsIdentifier a) :
    IsPrimary (text ++ "." ++ a) (.attribute v a) := by
  obtain ⟨ts, hs, hi, ht⟩ := h.tokens
  have hinline : Inline [.dot, .name a] :=
    (Inline.token (t := .dot) rfl).append (.token (t := .name a) rfl)
  refine ⟨by rw [String.append_assoc]; exact h.starts_append _, ts ++ [.dot, .name a], ?_,
    hi.append hinline, ht.attribute a⟩
  have hdot : Scans ('.' :: a.toList) [.dot, .name a] EndsName :=
    Scans.dot.append (.name hn) fun _ _ _ _ => trivial
  rw [String.append_assoc, String.toList_append, String.toList_append]
  exact hs.append_cons hdot (show Text.isNamePart _ = false by decide)

theorem IsPrimary.index (h : IsPrimary text v) (hx : IsTerm text' i) :
    IsPrimary (text ++ "[" ++ text' ++ "]") (.index v i) := by
  obtain ⟨ts, hs, hi, ht⟩ := h.tokens
  obtain ⟨ts', hs', hi', ht'⟩ := hx.tokens
  refine ⟨by rw [String.append_assoc, String.append_assoc]; exact h.starts_append _,
    ts ++ (.leftBracket :: ts' ++ [.rightBracket]), ?_, hi.append (hi'.bracketed .square),
    ht.index ht'⟩
  have hb := Scans.leftBracket.bracketed Scans.rightBracket ⟨by decide, by decide⟩ hs'
  have hl : (text ++ "[" ++ text' ++ "]").toList = text.toList ++ (['['] ++ text'.toList ++ [']']) := by
    simp
  rw [hl]
  exact hs.append_cons hb (show Text.isNamePart _ = false by decide)

/-- What is written between the items of a list. -/
def IsSeparator (sep : String) : Prop := sep = "," ∨ sep = ", "

theorem Scans.separator (h : IsSeparator sep) : Scans sep.toList [.comma] fun _ => True := by
  obtain rfl | rfl := h
  · exact Scans.comma
  · exact Scans.comma.append (.blank _) fun _ _ _ _ => trivial

theorem IsSeparator.starts (h : IsSeparator sep) : ∃ cs, sep.toList = ',' :: cs := by
  obtain rfl | rfl := h
  · exact ⟨[], rfl⟩
  · exact ⟨[' '], rfl⟩

theorem Scans.joined (hsep : IsSeparator sep)
    (h : List.Forall₂ (fun (text : String) ts => Scans text.toList ts EndsNumber) texts tss) :
    Scans (sep.intercalate texts).toList (commas tss) EndsNumber := by
  obtain ⟨cs, hcs⟩ := hsep.starts
  rw [String.toList_intercalate]
  induction h with
  | nil => exact Scans.nil _
  | @cons text ts texts tss hs htail ih =>
    cases htail with
    | nil => simpa using hs
    | @cons text' ts' texts tss hs' htail =>
      have hscan : Scans (sep.toList ++ List.intercalate sep.toList ((text' :: texts).map String.toList))
          ([.comma] ++ commas (ts' :: tss)) EndsNumber :=
        (Scans.separator hsep).append ih fun _ _ _ _ => trivial
      rw [commas_cons, List.map_cons, List.map_cons, List.intercalate_cons_cons, List.append_assoc]
      rw [hcs] at hscan ⊢
      exact hs.append_cons hscan ⟨by decide, by decide⟩

/-- The tokens of texts, each of which is written. -/
theorem Written.all {R : List Token → α → Prop}
    (h : List.Forall₂ (fun text v => Written EndsNumber (R · v) text) texts vs) :
    ∃ tss, List.Forall₂ (fun (text : String) ts => Scans text.toList ts EndsNumber) texts tss ∧
      (∀ ts ∈ tss, Inline ts) ∧ List.Forall₂ R tss vs := by
  induction h with
  | nil => exact ⟨[], .nil, by simp, .nil⟩
  | cons hw _ ih =>
    obtain ⟨ts, hs, hi, ht⟩ := hw.tokens
    obtain ⟨tss, hss, his, hts⟩ := ih
    exact ⟨ts :: tss, .cons hs hss, List.forall_mem_cons.mpr ⟨hi, his⟩, .cons ht hts⟩

/-- A name, an equals sign and a term without blanks between them. -/
theorem IsTerm.keyword (h : IsTerm text t) (hn : IsIdentifier name) :
    IsKeyword (name ++ "=" ++ text) (name, t) := by
  obtain ⟨ts, hs, hi, ht⟩ := h.tokens
  obtain ⟨c, cs, htext, -, hends⟩ := h.starts
  refine ⟨by rw [String.append_assoc]; exact (IsPrimary.name hn).starts_append _,
    .name name :: .equals :: ts, ?_,
    (Inline.token (t := .name name) rfl).append ((Inline.token (t := .equals) rfl).append hi),
    ts, rfl, ht⟩
  have hequals : Scans ('=' :: text.toList) ([.equals] ++ ts) EndsNumber := by
    rw [htext] at hs ⊢
    exact Scans.equals.append_cons hs hends
  rw [String.append_assoc, String.toList_append, String.toList_append]
  exact (Scans.name hn).append_cons hequals (show Text.isNamePart _ = false by decide)

/-- A call with its arguments, those with keywords after the others. -/
theorem IsPrimary.call (h : IsPrimary text v) (hsep : IsSeparator sep)
    (ha : List.Forall₂ IsTerm texts vs) (hk : List.Forall₂ IsKeyword keywords kws) :
    IsPrimary (text ++ "(" ++ sep.intercalate (texts ++ keywords) ++ ")") (.call v vs kws) := by
  obtain ⟨ts, hs, hi, ht⟩ := h.tokens
  obtain ⟨tss, hss, his, hts⟩ := Written.all ha
  obtain ⟨kss, hks, hik, hkws⟩ := Written.all hk
  have hinline : Inline (commas (tss ++ kss)) := Inline.commas fun ts hm =>
    (List.mem_append.mp hm).elim (his ts) (hik ts)
  refine ⟨by rw [String.append_assoc, String.append_assoc]; exact h.starts_append _,
    ts ++ (.leftParen :: commas (tss ++ kss) ++ [.rightParen]), ?_,
    hi.append (hinline.bracketed .round), ht.call hts hkws⟩
  have hb := Scans.leftParen.bracketed Scans.rightParen ⟨by decide, by decide⟩
    (Scans.joined hsep (List.rel_append hss hks))
  have hl : (text ++ "(" ++ sep.intercalate (texts ++ keywords) ++ ")").toList =
      text.toList ++ (['('] ++ (sep.intercalate (texts ++ keywords)).toList ++ [')']) := by
    simp only [String.toList_append, List.append_assoc]
    rfl
  rw [hl]
  exact hs.append_cons hb (show Text.isNamePart _ = false by decide)

/-- A list with its items. -/
theorem IsPrimary.list (hsep : IsSeparator sep) (h : List.Forall₂ IsTerm texts vs) :
    IsPrimary ("[" ++ sep.intercalate texts ++ "]") (.list vs) := by
  obtain ⟨tss, hss, his, hts⟩ := Written.all h
  refine ⟨⟨'[', (sep.intercalate texts).toList ++ [']'], by simp, by decide, by simp [EndsOperator]⟩,
    .leftBracket :: commas tss ++ [Token.rightBracket], ?_,
    (Inline.commas his).bracketed .square, (Listed.commas hts _).list.primary⟩
  rw [String.toList_append, String.toList_append]
  exact Scans.leftBracket.bracketed Scans.rightBracket ⟨by decide, by decide⟩ (.joined hsep hss)

/-- A key, a colon, a blank and the value of the key. -/
theorem Scans.entry {key text : String} (hk : Scans key.toList ks EndsNumber)
    (h : Scans text.toList ts follow) :
    Scans (key ++ ": " ++ text).toList (ks ++ .colon :: ts) follow := by
  have hvalue : Scans (':' :: (' ' :: text.toList)) ([.colon] ++ ([] ++ ts)) follow :=
    Scans.colon.append ((Scans.blank fun _ => True).append h fun _ _ _ _ => trivial)
      fun _ _ _ _ => trivial
  rw [String.append_assoc, String.toList_append, String.toList_append]
  exact hk.append_cons hvalue ⟨by decide, by decide⟩

theorem IsTerm.entry (hk : IsPrimary key k) (h : IsTerm text v) :
    Written EndsNumber (ReadsEntry · (k, v)) (key ++ ": " ++ text) := by
  obtain ⟨ks, hsₖ, hiₖ, hrₖ⟩ := hk.term.tokens
  obtain ⟨ts, hs, hi, ht⟩ := h.tokens
  exact ⟨by rw [String.append_assoc]; exact hk.starts_append _, ks ++ .colon :: ts, hsₖ.entry hs,
    hiₖ.append ((Inline.token (t := .colon) rfl).append hi), ks, ts, rfl, hrₖ, ht⟩

/-- A dictionary with its entries. -/
theorem IsPrimary.dict (hsep : IsSeparator sep)
    (h : List.Forall₂ (fun text e => Written EndsNumber (ReadsEntry · e) text) texts es) :
    IsPrimary ("\x7b" ++ sep.intercalate texts ++ "\x7d") (.dict es) := by
  obtain ⟨tss, hss, his, hts⟩ := Written.all h
  refine ⟨⟨'\x7b', (sep.intercalate texts).toList ++ ['\x7d'], by simp, by decide,
      by simp [EndsOperator]⟩, .leftBrace :: commas tss ++ [Token.rightBrace], ?_,
    (Inline.commas his).bracketed .curly, (Listed.commas hts _).dict.primary⟩
  rw [String.toList_append, String.toList_append]
  exact Scans.leftBrace.bracketed Scans.rightBrace ⟨by decide, by decide⟩ (.joined hsep hss)

/-- The items of a tuple between its parentheses. -/
theorem IsPrimary.tuple (hsep : IsSeparator sep) (h : List.Forall₂ IsTerm texts vs)
    (hl : 2 ≤ texts.length) : IsPrimary ("(" ++ sep.intercalate texts ++ ")") (.tuple vs) := by
  obtain ⟨tss, hss, his, hts⟩ := Written.all h
  refine ⟨⟨'(', (sep.intercalate texts).toList ++ [')'], by simp, by decide, by simp [EndsOperator]⟩,
    .leftParen :: commas tss ++ [.rightParen], ?_,
    (Inline.commas his).bracketed .round, ?_⟩
  · rw [String.toList_append, String.toList_append]
    exact Scans.leftParen.bracketed Scans.rightParen ⟨by decide, by decide⟩ (.joined hsep hss)
  · cases hts with
    | nil =>
      obtain rfl : texts = [] := by simpa using h.length_eq
      contradiction
    | cons ht hts =>
      cases hts with
      | nil =>
        have := h.length_eq
        simp only [List.length_singleton] at this
        omega
      | @cons ts' v' tss vs ht' hts =>
        have hatom := (reads_tuple ht (.cons ht' hts)).primary
        rwa [commas_cons, afterFirst, List.cons_append, List.append_assoc, List.cons_append]

/-- A tuple of one item ends in a comma. -/
theorem IsPrimary.tupleOne (h : IsTerm text t) : IsPrimary ("(" ++ text ++ ",)") (.tuple [t]) := by
  obtain ⟨ts, hs, hi, ht⟩ := h.tokens
  refine ⟨⟨'(', text.toList ++ [',', ')'], by simp, by decide, by simp [EndsOperator]⟩,
    .leftParen :: (ts ++ [.comma]) ++ [.rightParen], ?_,
    (hi.append (.token (t := .comma) rfl)).bracketed .round, ?_⟩
  · have hcomma : Scans (text.toList ++ [',']) (ts ++ [.comma]) EndsNumber :=
      hs.append_cons (Scans.comma.mono fun _ _ => trivial) ⟨by decide, by decide⟩
    have htext : ("(" ++ text ++ ",)").toList = ['('] ++ (text.toList ++ [',']) ++ [')'] := by simp
    rw [htext]
    exact Scans.leftParen.bracketed Scans.rightParen ⟨by decide, by decide⟩ hcomma
  · have hatom := (reads_tuple ht .nil).primary
    rwa [List.cons_append, List.append_assoc]

theorem IsPrimary.tupleNone : IsPrimary "()" (.tuple []) :=
  ⟨⟨'(', [')'], rfl, by decide, by simp [EndsOperator]⟩, [.leftParen, .rightParen],
    Scans.leftParen.append (Scans.rightParen.mono fun _ _ => trivial) fun _ _ _ _ => trivial,
    Inline.nil.bracketed .round, reads_unit.primary⟩

end Qua.Script
