import Qua.Script.Lexer

/-!
# Scanning text piece by piece

A piece of text stands for tokens if it is read as these wherever a character follows that does not
go on with its last lexeme (`Scans`). Pieces are put together, so that the tokens of a text are known
from how it was written.
-/

namespace Qua

namespace Text

/-- The characters of a name that is no keyword. -/
def IsIdentifier (s : String) : Prop :=
  s.toList.head?.any isNameStart ∧ s.toList.all isNamePart ∧ Script.Keyword.ofText? s = none

instance (s : String) : Decidable (IsIdentifier s) := by
  unfold IsIdentifier
  infer_instance

theorem isNamePart_of_isNameStart (h : isNameStart c = true) : isNamePart c = true := by
  simp only [isNameStart, Bool.or_eq_true] at h
  obtain h | h := h
  · simp [isNamePart, isAlphanumeric, h]
  · simp [isNamePart, h]

theorem isNamePart_of_isDigit (h : c.isDigit = true) : isNamePart c = true := by
  simp [isNamePart, isAlphanumeric, h]

/-- Digits are no letters. -/
theorem isDigit_of_isNameStart (h : isNameStart c = true) : c.isDigit = false := by
  cases hd : c.isDigit with
  | false => rfl
  | true =>
    simp only [Char.isDigit, Bool.and_eq_true, decide_eq_true_eq, UInt32.le_iff_toNat_le,
      ge_iff_le] at hd
    have hletter : c.isAlpha =
        (decide (65 ≤ c.val ∧ c.val ≤ 90) || (decide (97 ≤ c.val) && decide (c.val ≤ 122))) := rfl
    simp only [isNameStart, isAlphabetic, hletter, Bool.or_eq_true, Bool.and_eq_true,
      decide_eq_true_eq, UInt32.le_iff_toNat_le, beq_iff_eq] at h
    change 48 ≤ c.toNat ∧ c.toNat ≤ 57 at hd
    change (((65 ≤ c.toNat ∧ c.toNat ≤ 90) ∨ (97 ≤ c.toNat ∧ c.toNat ≤ 122)) ∨
      128 ≤ c.toNat ∧ inRanges alphabeticRanges c = true) ∨ c = '_' at h
    obtain ((h | h) | h) | rfl := h
    · omega
    · omega
    · omega
    · simp at hd

end Text

namespace Script

open Text (isNamePart isNameStart IsIdentifier)

-- ---------------------------------------------------------------------------
-- Pieces
-- ---------------------------------------------------------------------------

/-- The text `cs` is read as the tokens `ts` before any text that starts with a character of
`follow`. -/
def Scans (cs : List Char) (ts : List Token) (follow : Char → Prop) : Prop :=
  ∀ (fuel : Nat) (p : Position) (rest : List Char),
    (∀ c ∈ rest.head?, follow c) → ts.length ≤ fuel →
    ∃ ls : List Located, ls.map Located.token = ts ∧
      scanFrom fuel p (cs ++ rest) =
        (ls ++ ·) <$> scanFrom (fuel - ts.length) (p.after cs) rest

namespace Scans

theorem nil (follow : Char → Prop) : Scans [] [] follow := by
  intro fuel p rest _ _
  exact ⟨[], rfl, by simp [Position.after]⟩

theorem mono (h : Scans cs ts follow) (hf : ∀ c, follow' c → follow c) : Scans cs ts follow' := by
  intro fuel p rest hr hn
  exact h fuel p rest (fun c hc => hf c (hr c hc)) hn

/-- Two pieces, the first of which does not go on with the second. -/
theorem append (h : Scans cs ts follow) (h' : Scans cs' ts' follow')
    (hc : ∀ rest : List Char, (∀ c ∈ rest.head?, follow' c) →
      ∀ c ∈ (cs' ++ rest).head?, follow c) :
    Scans (cs ++ cs') (ts ++ ts') follow' := by
  intro fuel p rest hr hn
  rw [List.length_append] at hn
  obtain ⟨ls, hl, hs⟩ := h fuel p (cs' ++ rest) (hc rest hr) (by omega)
  obtain ⟨ls', hl', hs'⟩ := h' (fuel - ts.length) (p.after cs) rest hr (by omega)
  refine ⟨ls ++ ls', by simp [hl, hl'], ?_⟩
  rw [List.append_assoc, hs, hs', List.length_append, ← Nat.sub_sub]
  have hp : (p.after cs).after cs' = p.after (cs ++ cs') := by simp [Position.after]
  rw [hp]
  cases scanFrom (fuel - ts.length - ts'.length) (p.after (cs ++ cs')) rest <;> simp [Functor.map, Except.map]

/-- A piece after which nothing has to be minded. -/
theorem append_cons (h : Scans cs ts follow) (h' : Scans (c :: cs') ts' follow') (hc : follow c) :
    Scans (cs ++ c :: cs') (ts ++ ts') follow' :=
  h.append h' fun rest _ d hd => by
    obtain rfl : c = d := by simpa using hd
    exact hc

end Scans

/-- Characters at which a token can start. -/
def startsToken (c : Char) : Bool :=
  c != ' ' && c != '\t' && c != '\r' && c != '\x0c' && c != '#' && c != '\\'

theorem skipTrivia_cons (p : Position) (rest : List Char) (h : startsToken c = true) :
    skipTrivia false p (c :: rest) = (p, c :: rest) := by
  simp only [startsToken, Bool.and_eq_true, bne_iff_ne, ne_eq] at h
  obtain ⟨⟨⟨⟨⟨h₁, h₂⟩, h₃⟩, h₄⟩, h₅⟩, h₆⟩ := h
  rw [skipTrivia]
  · simp [h₁, h₂, h₃, h₄, h₅]
  · intro rest' hc _
    exact h₆ hc
  · intro rest' hc _
    exact h₆ hc

/-- A blank between tokens. -/
theorem Scans.blank (follow : Char → Prop) : Scans [' '] [] follow := by
  intro fuel p rest _ _
  refine ⟨[], rfl, ?_⟩
  cases fuel with
  | zero => simp [scanFrom, Functor.map, Except.map]
  | succ fuel =>
    have hs : skipTrivia false p (' ' :: rest) = skipTrivia false (p.next ' ') rest := by
      rw [skipTrivia]
      · simp
      · rintro rest' ⟨⟩
      · rintro rest' ⟨⟩
    simp only [List.singleton_append, List.length_nil, Nat.sub_zero, scanFrom, hs, Position.after,
      List.foldl_cons, List.foldl_nil, List.nil_append]
    generalize skipTrivia false (p.next ' ') rest = skipped
    obtain ⟨q, text⟩ := skipped
    simp

/-- A piece that is one lexeme. -/
theorem Scans.of_lexeme {follow : Char → Prop} (hc : startsToken c = true)
    (h : ∀ rest : List Char, (∀ d ∈ rest.head?, follow d) →
      lexeme (c :: (cs ++ rest)) = .ok ⟨t, c :: cs, rest⟩) :
    Scans (c :: cs) [t] follow := by
  intro fuel p rest hr hn
  obtain ⟨fuel, rfl⟩ := Nat.exists_eq_add_of_le' hn
  refine ⟨[⟨t, p.line, p.column⟩], rfl, ?_⟩
  simp only [List.length_singleton, Nat.add_sub_cancel, List.cons_append, scanFrom,
    skipTrivia_cons p _ hc, List.isEmpty_cons, Bool.false_eq_true, if_false, h rest hr]
  rfl

-- ---------------------------------------------------------------------------
-- Names and numbers
-- ---------------------------------------------------------------------------

theorem takeWhile_append_stop {p : α → Bool} {as bs : List α} (ha : ∀ a ∈ as, p a = true)
    (hb : ∀ b ∈ bs.head?, p b = false) : (as ++ bs).takeWhile p = as := by
  rw [List.takeWhile_append_of_pos ha]
  cases bs with
  | nil => simp
  | cons b bs => simp [hb b rfl]

/-- No character of a name. -/
def EndsName (c : Char) : Prop := isNamePart c = false

/-- No character of a name or a number. -/
def EndsNumber (c : Char) : Prop := isNamePart c = false ∧ c ≠ '.'

theorem startsToken_of_isNamePart (h : isNamePart c = true) : startsToken c = true := by
  have hne (d : Char) (hd : isNamePart d = false) : c ≠ d := by
    rintro rfl
    rw [h] at hd
    contradiction
  simp only [startsToken, Bool.and_eq_true, bne_iff_ne]
  refine ⟨⟨⟨⟨⟨hne _ ?_, hne _ ?_⟩, hne _ ?_⟩, hne _ ?_⟩, hne _ ?_⟩, hne _ ?_⟩ <;> decide

theorem lexeme_of_isNameStart (h : isNameStart c = true) (rest : List Char) :
    lexeme (c :: rest) = .ok (nameLexeme (c :: rest)) := by
  have hne (d : Char) (hd : isNameStart d = false) : c ≠ d := by
    rintro rfl
    rw [h] at hd
    contradiction
  simp [lexeme, hne '\n' (by decide), hne '"' (by decide), hne '\'' (by decide),
    Text.isDigit_of_isNameStart h, h]

/-- A name, or a keyword. -/
theorem Scans.word {w : List Char} (hs : isNameStart c = true) (hw : w.all isNamePart = true) :
    Scans (c :: w) [(nameLexeme (c :: w)).token] EndsName := by
  refine .of_lexeme (startsToken_of_isNamePart (Text.isNamePart_of_isNameStart hs)) ?_
  intro rest hr
  have hall : ∀ d ∈ c :: w, isNamePart d = true := by
    intro d hd
    obtain rfl | hd := List.mem_cons.mp hd
    · exact Text.isNamePart_of_isNameStart hs
    · exact List.all_eq_true.mp hw d hd
  have ht : (c :: (w ++ rest)).takeWhile isNamePart = c :: w := takeWhile_append_stop hall hr
  have ht' : (c :: w).takeWhile isNamePart = c :: w := by
    have h : (c :: w ++ []).takeWhile isNamePart = c :: w := takeWhile_append_stop hall (by simp)
    rwa [List.append_nil] at h
  rw [lexeme_of_isNameStart hs, nameLexeme, nameLexeme, ht, ht']
  simp

theorem Scans.name {s : String} (h : IsIdentifier s) : Scans s.toList [.name s] EndsName := by
  obtain ⟨hs, hp, hk⟩ := h
  cases hl : s.toList with
  | nil => simp [hl] at hs
  | cons c w =>
    rw [hl] at hs hp
    simp only [List.all_cons, Bool.and_eq_true, List.all_eq_true] at hp
    have h := Scans.word (by simpa using hs) (List.all_eq_true.mpr hp.2)
    have ht' : (c :: w).takeWhile isNamePart = c :: w := by
      have h : (c :: w ++ []).takeWhile isNamePart = c :: w :=
        takeWhile_append_stop (by simpa [hp.1] using hp.2) (by simp)
      rwa [List.append_nil] at h
    have hc : String.ofList (c :: w) = s := by rw [← hl, String.ofList_toList]
    rw [nameLexeme, ht', hc, hk] at h
    exact h

theorem digitsValue_toDigits (n : Nat) : Text.digitsValue (Nat.toDigits 10 n) = n := by
  have h := Nat.ofDigitChars_ten_toDigits (n := n)
  rw [Nat.ofDigitChars_eq_foldl] at h
  simpa [Text.digitsValue, Text.digitValue, Nat.mul_comm] using h

theorem isDigit_of_mem_toDigits (h : c ∈ Nat.toDigits 10 n) : c.isDigit = true :=
  Nat.isDigit_of_mem_toDigits (by decide) (by decide) h

theorem lexeme_of_isDigit (h : c.isDigit = true) (rest : List Char) :
    lexeme (c :: rest) = numberLexeme (c :: rest) := by
  have hne (d : Char) (hd : d.isDigit = false) : c ≠ d := by
    rintro rfl
    rw [h] at hd
    contradiction
  simp [lexeme, hne '\n' (by decide), hne '"' (by decide), hne '\'' (by decide), h]

theorem EndsNumber.not_isDigit (h : EndsNumber c) : c.isDigit = false := by
  cases hd : c.isDigit with
  | false => rfl
  | true => exact absurd (Text.isNamePart_of_isDigit hd) (by simp [h.1])

theorem fractionText_stop {rest : List Char} (hr : ∀ c ∈ rest.head?, EndsNumber c) :
    fractionText rest = [] := by
  unfold fractionText
  split
  · exact absurd rfl (hr '.' rfl).2
  · rfl

theorem exponentText_stop {rest : List Char} (hr : ∀ c ∈ rest.head?, EndsNumber c) :
    exponentText rest = [] := by
  cases rest with
  | nil => rfl
  | cons c rest =>
    have h := (hr c rfl).1
    have he : c ≠ 'e' := by
      rintro rfl
      exact absurd h (by decide)
    have hE : c ≠ 'E' := by
      rintro rfl
      exact absurd h (by decide)
    simp [exponentText, he, hE]

/-- The digits of an integer of 64 bits. -/
theorem Scans.integer {n : Nat} (hn : n < UInt64.size) :
    Scans (Nat.toDigits 10 n) [.integer (UInt64.ofNat n)] EndsNumber := by
  cases hd : Nat.toDigits 10 n with
  | nil => exact absurd hd Nat.toDigits_ne_nil
  | cons c cs =>
    have hdigits : ∀ d ∈ c :: cs, d.isDigit = true := fun d h => isDigit_of_mem_toDigits (hd ▸ h)
    have hc := hdigits c List.mem_cons_self
    refine .of_lexeme (startsToken_of_isNamePart (Text.isNamePart_of_isDigit hc)) ?_
    intro rest hr
    have ht : (c :: (cs ++ rest)).takeWhile Char.isDigit = c :: cs :=
      takeWhile_append_stop hdigits fun d h => (hr d h).not_isDigit
    have hv : Text.digitsValue (c :: cs) = n := by rw [← hd, digitsValue_toDigits]
    rw [lexeme_of_isDigit hc, numberLexeme, ht]
    simp [fractionText_stop hr, exponentText_stop hr, hv, hn]

-- ---------------------------------------------------------------------------
-- Marks
-- ---------------------------------------------------------------------------

/-- Characters at which a mark starts, or no token at all. -/
def startsMark (c : Char) : Bool :=
  startsToken c && c != '\n' && c != '"' && c != '\'' && !c.isDigit && !isNameStart c

/-- No character of a longer operator. -/
def EndsOperator (c : Char) : Prop := c ≠ '<' ∧ c ≠ '>' ∧ c ≠ '='

theorem Scans.mark {follow : Char → Prop} (hc : startsMark c = true)
    (h : ∀ rest : List Char, (∀ d ∈ rest.head?, follow d) →
      symbolLexeme (c :: (cs ++ rest)) = some ⟨t, c :: cs, rest⟩) :
    Scans (c :: cs) [t] follow := by
  simp only [startsMark, Bool.and_eq_true, bne_iff_ne, Bool.not_eq_true'] at hc
  obtain ⟨⟨⟨⟨⟨hs, h₁⟩, h₂⟩, h₃⟩, h₄⟩, h₅⟩ := hc
  refine .of_lexeme hs fun rest hr => ?_
  simp [lexeme, h₁, h₂, h₃, h₄, h₅, h rest hr]

/-- A mark of which no other is the beginning. -/
theorem Scans.single (hc : startsMark c = true)
    (h : ∀ rest : List Char, symbolLexeme (c :: rest) = some ⟨t, [c], rest⟩) :
    Scans [c] [t] fun _ => True :=
  .mark hc fun rest _ => h rest

theorem Scans.leftParen : Scans ['('] [.leftParen] fun _ => True := .single (by decide) fun _ => rfl

theorem Scans.rightParen : Scans [')'] [.rightParen] fun _ => True :=
  .single (by decide) fun _ => rfl

theorem Scans.leftBracket : Scans ['['] [.leftBracket] fun _ => True :=
  .single (by decide) fun _ => rfl

theorem Scans.rightBracket : Scans [']'] [.rightBracket] fun _ => True :=
  .single (by decide) fun _ => rfl

theorem Scans.leftBrace : Scans ['\x7b'] [.leftBrace] fun _ => True :=
  .single (by decide) fun _ => rfl

theorem Scans.rightBrace : Scans ['\x7d'] [.rightBrace] fun _ => True :=
  .single (by decide) fun _ => rfl

theorem Scans.comma : Scans [','] [.comma] fun _ => True := .single (by decide) fun _ => rfl

theorem Scans.dot : Scans ['.'] [.dot] fun _ => True := .single (by decide) fun _ => rfl

theorem Scans.colon : Scans [':'] [.colon] fun _ => True := .single (by decide) fun _ => rfl

theorem Scans.minus : Scans ['-'] [.operator .minus] fun _ => True :=
  .single (by decide) fun _ => rfl

/-- A sign with which longer operators start. -/
theorem Scans.sign (hc : startsMark c = true) (h : symbolLexeme [c] = some ⟨t, [c], []⟩)
    (hl : ∀ d rest, EndsOperator d → symbolLexeme (c :: d :: rest) = some ⟨t, [c], d :: rest⟩) :
    Scans [c] [t] EndsOperator := by
  refine .mark hc fun rest hr => ?_
  cases rest with
  | nil => exact h
  | cons d rest => exact hl d rest (hr d rfl)

theorem Scans.equals : Scans ['='] [.equals] EndsOperator := by
  refine .sign (by decide) rfl fun d rest hd => ?_
  rw [symbolLexeme]
  simp_all [EndsOperator]

theorem Scans.less : Scans ['<'] [.operator .less] EndsOperator :=
  .sign (by decide) rfl fun d rest hd => by rw [symbolLexeme] <;> simp_all [EndsOperator]

theorem Scans.greater : Scans ['>'] [.operator .greater] EndsOperator :=
  .sign (by decide) rfl fun d rest hd => by rw [symbolLexeme] <;> simp_all [EndsOperator]

end Script
end Qua
