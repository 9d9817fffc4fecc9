import Qua.Proofs.Script.Outline

/-!
# What is added at the end of a script

A script that ends in a line break is scanned in the same way with more lines after it, or at other
lines of a longer script: the lexemes that it has by itself are those that it has there. Main
statement: `scansLines_of_scan`.
-/

namespace Qua

namespace Text

/-- The text ends in a line break that is not escaped. -/
def Ended (text : List Char) : Prop :=
  ∃ before, text = before ++ ['\n'] ∧ ∀ c ∈ before.getLast?, c ≠ '\\' ∧ c ≠ '\r'

theorem Ended.mem (h : Ended text) : '\n' ∈ text := by
  obtain ⟨before, rfl, -⟩ := h
  simp

theorem Ended.ne_nil (h : Ended text) : text ≠ [] := List.ne_nil_of_mem h.mem

/-- What is left of such a text. -/
theorem Ended.suffix (h : Ended (taken ++ left)) (hl : left ≠ []) : Ended left := by
  obtain ⟨before, hb, hc⟩ := h
  obtain ⟨left, c, rfl⟩ := left.eq_nil_or_concat.resolve_left hl
  rw [List.concat_eq_append, ← List.append_assoc] at hb
  obtain ⟨rfl, hlast⟩ := List.append_inj' hb rfl
  refine ⟨left, by rw [List.concat_eq_append, hlast], fun d hd => hc d ?_⟩
  rw [List.getLast?_append, Option.mem_def.mp hd]
  rfl

theorem Ended.tail (h : Ended (c :: left)) (hl : left ≠ []) : Ended left :=
  suffix (show Ended ([c] ++ left) from h) hl

theorem Ended.getLast? (h : Ended text) : text.getLast? = some '\n' := by
  obtain ⟨before, rfl, -⟩ := h
  exact List.getLast?_concat

theorem Ended.tail_ne_nil (h : Ended (c :: left)) (hc : c ≠ '\n') : left ≠ [] := by
  rintro rfl
  exact hc (Option.some.inj h.getLast?)

/-- A literal ends with its closing quote, whatever follows. -/
theorem unquote_append (h : unquote q text = some (s, left)) (rest : List Char) :
    unquote q (text ++ rest) = some (s, left ++ rest) ∧ ∃ taken, text = taken ++ q :: left := by
  fun_induction unquote q text generalizing s left with
  | case1 => contradiction
  | case2 => contradiction
  | case3 c text ih =>
    cases hu : unquote q text with
    | none => simp [hu] at h
    | some result =>
      obtain ⟨s', left'⟩ := result
      obtain ⟨rfl, rfl⟩ : _ ∧ left' = left := by simpa [hu] using h
      obtain ⟨hr, taken, rfl⟩ := ih hu
      refine ⟨?_, '\\' :: c :: taken, rfl⟩
      rw [List.cons_append, List.cons_append, unquote, hr]
      rfl
  | case4 text hone hmore =>
    obtain ⟨rfl, rfl⟩ : [] = s ∧ text = left := by simpa using h
    refine ⟨?_, [], rfl⟩
    have hq : q ≠ '\\' := by
      rintro rfl
      cases text with
      | nil => exact hone rfl rfl
      | cons c text => exact hmore _ _ rfl rfl
    rw [List.cons_append, unquote] <;> simp [hq]
  | case5 => contradiction
  | case6 c text hone hmore hc hn ih =>
    cases hu : unquote q text with
    | none => simp [hu] at h
    | some result =>
      obtain ⟨s', left'⟩ := result
      obtain ⟨rfl, rfl⟩ : _ ∧ left' = left := by simpa [hu] using h
      obtain ⟨hr, taken, rfl⟩ := ih hu
      refine ⟨?_, c :: taken, rfl⟩
      have hb : c ≠ '\\' := by
        rintro rfl
        cases hl : taken ++ q :: left' with
        | nil => simp at hl
        | cons d text => exact hmore _ _ rfl hl
      rw [List.cons_append, unquote, if_neg hc, if_neg hn, hr]
      · rfl
      · exact fun h => absurd h hb
      · exact fun _ _ h => absurd h hb

end Text

namespace Script

open Text (Ended)

-- ---------------------------------------------------------------------------
-- Lexemes
-- ---------------------------------------------------------------------------

/-- What is read off the front of a text ends before its line break, and does not depend on what follows
that. -/
def ReadsFront (f : List Char → List Char) : Prop :=
  ∀ ⦃text : List Char⦄, '\n' ∈ text → ∃ left, '\n' ∈ left ∧ text = f text ++ left ∧
    ∀ rest, f (text ++ rest) = f text

theorem ReadsFront.drop {f : List Char → List Char} (h : ReadsFront f) (hn : '\n' ∈ text) :
    ∃ left, '\n' ∈ left ∧ text = f text ++ left ∧ text.drop (f text).length = left ∧
      ∀ rest, f (text ++ rest) = f text ∧ (text ++ rest).drop (f text).length = left ++ rest := by
  obtain ⟨left, hleft, ht, hrest⟩ := h hn
  have hdrop (rest : List Char) : (text ++ rest).drop (f text).length = left ++ rest := by
    have hl := congrArg (fun t => List.drop (f text).length (t ++ rest)) ht
    simpa using hl
  exact ⟨left, hleft, ht, by simpa using hdrop [], fun rest => ⟨hrest rest, hdrop rest⟩⟩

theorem readsFront_takeWhile {p : Char → Bool} (hp : p '\n' = false) :
    ReadsFront (List.takeWhile p) := by
  intro text h
  induction text with
  | nil => contradiction
  | cons c text ih =>
    cases hc : p c with
    | false => exact ⟨c :: text, h, by simp [hc], fun rest => by simp [hc]⟩
    | true =>
      have hn : '\n' ∈ text := by
        refine (List.mem_cons.mp h).resolve_left ?_
        rintro rfl
        rw [hp] at hc
        nomatch hc
      obtain ⟨left, hleft, ht, hrest⟩ := ih hn
      refine ⟨left, hleft, ?_, fun rest => ?_⟩
      · rw [List.takeWhile_cons, if_pos hc, List.cons_append, ← ht]
      · rw [List.cons_append, List.takeWhile_cons, List.takeWhile_cons, if_pos hc, if_pos hc, hrest]

theorem readsFront_fraction : ReadsFront fractionText := by
  intro text h
  cases text with
  | nil => contradiction
  | cons c text =>
    by_cases hc : c = '.'
    · subst hc
      obtain ⟨left, hleft, ht, hrest⟩ := readsFront_takeWhile (p := Char.isDigit) (by decide)
        (show '\n' ∈ text by simpa using h)
      refine ⟨left, hleft, congrArg ('.' :: ·) ht, fun rest => congrArg ('.' :: ·) (hrest rest)⟩
    · have hnone (text : List Char) : fractionText (c :: text) = [] := by
        rw [fractionText]
        rintro _ he
        exact hc (List.cons.inj he).1
      exact ⟨c :: text, h, by rw [hnone]; rfl, fun rest => by rw [List.cons_append, hnone, hnone]⟩

theorem readsFront_sign : ReadsFront signText := by
  intro text h
  cases text with
  | nil => contradiction
  | cons c text =>
    by_cases hc : c = '+' ∨ c = '-'
    · have hn : '\n' ∈ text := by
        refine (List.mem_cons.mp h).resolve_left ?_
        rintro rfl
        simp at hc
      obtain rfl | rfl := hc
      · exact ⟨text, hn, rfl, fun _ => rfl⟩
      · exact ⟨text, hn, rfl, fun _ => rfl⟩
    · rw [not_or] at hc
      have hnone (text : List Char) : signText (c :: text) = [] := by
        rw [signText] <;> simp [hc]
      exact ⟨c :: text, h, by rw [hnone]; rfl, fun rest => by rw [List.cons_append, hnone, hnone]⟩

theorem readsFront_exponent : ReadsFront exponentText := by
  intro text h
  cases text with
  | nil => contradiction
  | cons c text =>
    by_cases hc : c = 'e' ∨ c = 'E'
    · have hn : '\n' ∈ text := by
        refine (List.mem_cons.mp h).resolve_left ?_
        rintro rfl
        simp at hc
      obtain ⟨signed, hsigned, ht, hdrop, hs⟩ := readsFront_sign.drop hn
      obtain ⟨left, hleft, hd, hdigits⟩ := readsFront_takeWhile (p := Char.isDigit) (by decide) hsigned
      have hvalue : exponentText (c :: text) = if (signed.takeWhile Char.isDigit).isEmpty then []
          else c :: (signText text ++ signed.takeWhile Char.isDigit) := by
        simp only [exponentText, if_pos hc, hdrop]
      have hrest (rest : List Char) : exponentText (c :: (text ++ rest)) = exponentText (c :: text) := by
        rw [hvalue]
        simp only [exponentText, if_pos hc, (hs rest).1, (hs rest).2, hdigits]
      cases he : (signed.takeWhile Char.isDigit).isEmpty with
      | true =>
        rw [he, if_pos rfl] at hvalue
        exact ⟨c :: text, h, by rw [hvalue]; rfl, hrest⟩
      | false =>
        rw [he, if_neg (by simp)] at hvalue
        refine ⟨left, hleft, ?_, hrest⟩
        rw [hvalue, List.cons_append, List.append_assoc, ← hd, ← ht]
    · have hnone (text : List Char) : exponentText (c :: text) = [] := by
        rw [exponentText, if_neg hc]
      exact ⟨c :: text, h, by rw [hnone]; rfl, fun rest => by rw [List.cons_append, hnone, hnone]⟩

/-- A lexeme of the text, which takes the line break at the end only if it is one itself. -/
structure Lexeme.InText (found : Lexeme) (text : List Char) : Prop where
  taken : ∃ taken, text = taken ++ found.rest
  token : found.token ≠ .finish
  left : found.rest ≠ [] ∨ found.token = .newLine ∧ found.text = ['\n']

def Lexeme.followedBy (found : Lexeme) (rest : List Char) : Lexeme :=
  { found with rest := found.rest ++ rest }

/-- A mark that may begin another one is known from the next character. -/
theorem symbolLexeme_append (h : symbolLexeme text = some found) (hn : '\n' ∈ text)
    (rest : List Char) : symbolLexeme (text ++ rest) = some (found.followedBy rest) ∧
      found.InText text := by
  unfold symbolLexeme at h
  split at h <;> first
    | contradiction
    | obtain rfl := Option.some.inj h
      exact ⟨rfl, ⟨[_, _], rfl⟩, by simp, .inl (List.ne_nil_of_mem (by simpa using hn))⟩
    | obtain rfl := Option.some.inj h
      exact ⟨rfl, ⟨[_], rfl⟩, by simp, .inl (List.ne_nil_of_mem (by simpa using hn))⟩
    | obtain rfl := Option.some.inj h
      refine ⟨?_, ⟨[_], rfl⟩, by simp, .inl (List.ne_nil_of_mem (by simpa using hn))⟩
      cases ‹List Char› with
      | nil => simp at hn
      | cons d left => rw [List.cons_append, List.cons_append, symbolLexeme] <;> simp_all [Lexeme.followedBy]

theorem numberLexeme_append (h : numberLexeme text = .ok found) (hn : '\n' ∈ text)
    (rest : List Char) : numberLexeme (text ++ rest) = .ok (found.followedBy rest) ∧
      found.InText text := by
  obtain ⟨left₁, hn₁, ht₁, hd₁, hr₁⟩ := (readsFront_takeWhile (p := Char.isDigit) (by decide)).drop hn
  obtain ⟨left₂, hn₂, ht₂, hd₂, hr₂⟩ := readsFront_fraction.drop hn₁
  obtain ⟨left₃, hn₃, ht₃, hd₃, hr₃⟩ := readsFront_exponent.drop hn₂
  have hin (t : Token) (ht : t ≠ .finish) (cs : List Char) : Lexeme.InText ⟨t, cs, left₃⟩ text :=
    ⟨⟨text.takeWhile Char.isDigit ++ (fractionText left₁ ++ exponentText left₂), by
      rw [List.append_assoc, List.append_assoc, ← ht₃, ← ht₂, ← ht₁]⟩, ht, .inl (List.ne_nil_of_mem hn₃)⟩
  simp only [numberLexeme, hd₁, hd₂, hd₃, (hr₁ rest).1, (hr₁ rest).2, (hr₂ rest).1, (hr₂ rest).2,
    (hr₃ rest).1, (hr₃ rest).2] at h ⊢
  split at h
  · next hi =>
    split at h
    · next hv =>
      obtain rfl := Except.ok.inj h
      rw [if_pos hi, if_pos hv]
      exact ⟨rfl, hin _ (by simp) _⟩
    · cases h
  · next hi =>
    obtain rfl := Except.ok.inj h
    rw [if_neg hi]
    exact ⟨rfl, hin _ (by simp) _⟩

theorem nameLexeme_append (hn : '\n' ∈ text) (rest : List Char) :
    nameLexeme (text ++ rest) = (nameLexeme text).followedBy rest ∧ (nameLexeme text).InText text := by
  obtain ⟨left, hleft, ht, hd, hr⟩ := (readsFront_takeWhile (p := Text.isNamePart) (by decide)).drop hn
  refine ⟨?_, ⟨text.takeWhile Text.isNamePart, ?_⟩, ?_, .inl ?_⟩
  · simp only [nameLexeme, hd, (hr rest).1, (hr rest).2, Lexeme.followedBy]
  · simp only [nameLexeme, hd]
    exact ht
  · simp only [nameLexeme]
    split <;> simp
  · simp only [nameLexeme, hd]
    exact List.ne_nil_of_mem hleft

theorem stringLexeme_append {quote : Char} (h : stringLexeme quote text = .ok found)
    (hq : quote ≠ '\n') (hn : text.getLast? = some '\n') (rest : List Char) :
    stringLexeme quote (text ++ rest) = .ok (found.followedBy rest) ∧ found.InText (quote :: text) := by
  unfold stringLexeme at h ⊢
  cases hu : Text.unquote quote text with
  | none =>
    rw [hu] at h
    nomatch h
  | some result =>
    obtain ⟨value, left⟩ := result
    obtain ⟨hr, taken, rfl⟩ := Text.unquote_append hu rest
    rw [hu] at h
    obtain rfl := Except.ok.inj h
    rw [hr]
    refine ⟨?_, ⟨quote :: (taken ++ [quote]), by simp⟩, by simp, .inl ?_⟩
    · have hlength (left : List Char) :
          (taken ++ quote :: left).take ((taken ++ quote :: left).length - left.length) = taken ++ [quote] := by
        rw [List.append_cons, List.length_append, Nat.add_sub_cancel, List.take_left]
      have happend : taken ++ quote :: left ++ rest = taken ++ quote :: (left ++ rest) := by simp
      simp only [Lexeme.followedBy]
      rw [happend, hlength, hlength]
    · rintro rfl
      rw [List.getLast?_concat, Option.some.injEq] at hn
      exact hq hn

/-- The lexemes of a text that ends in a line break are the same before any other text. -/
theorem lexeme_append (h : lexeme text = .ok found) (hl : text.getLast? = some '\n') (rest : List Char) :
    lexeme (text ++ rest) = .ok (found.followedBy rest) ∧ found.InText text := by
  cases text with
  | nil => contradiction
  | cons c text =>
    rw [List.cons_append]
    unfold lexeme at h ⊢
    simp only at h ⊢
    split at h
    · next hc =>
      obtain rfl := Except.ok.inj h
      rw [if_pos hc, hc]
      exact ⟨rfl, ⟨['\n'], rfl⟩, by simp, .inr ⟨rfl, rfl⟩⟩
    · next hc =>
      have hl : text.getLast? = some '\n' := by
        cases text with
        | nil => exact absurd (Option.some.inj hl) hc
        | cons d text => rwa [List.getLast?_cons_cons] at hl
      have hn : '\n' ∈ text := List.mem_of_getLast? hl
      rw [if_neg hc]
      split at h
      · next hq =>
        rw [if_pos hq]
        exact stringLexeme_append h hc hl rest
      · next hq =>
        rw [if_neg hq]
        split at h
        · next hd =>
          rw [if_pos hd]
          exact numberLexeme_append h (List.mem_cons_of_mem _ hn) rest
        · next hd =>
          rw [if_neg hd]
          split at h
          · next hs =>
            rw [if_pos hs]
            obtain rfl := Except.ok.inj h
            obtain ⟨hr, hin⟩ := nameLexeme_append (List.mem_cons_of_mem c hn) rest
            exact ⟨congrArg Except.ok hr, hin⟩
          · next hs =>
            rw [if_neg hs]
            cases hm : symbolLexeme (c :: text) with
            | none =>
              rw [hm] at h
              nomatch h
            | some mark =>
              rw [hm] at h
              obtain rfl := Except.ok.inj h
              obtain ⟨hr, hin⟩ := symbolLexeme_append hm (List.mem_cons_of_mem c hn) rest
              rw [List.cons_append] at hr
              rw [hr]
              exact ⟨rfl, hin⟩

-- ---------------------------------------------------------------------------
-- Tokens
-- ---------------------------------------------------------------------------

theorem Position.next_column {p p' : Position} (h : p.column = p'.column) (c : Char) :
    (p.next c).column = (p'.next c).column := by
  simp only [next]
  split
  · rfl
  · exact congrArg (· + 1) h

theorem Position.after_column {p p' : Position} (h : p.column = p'.column) (text : List Char) :
    (p.after text).column = (p'.after text).column := by
  induction text generalizing p p' with
  | nil => exact h
  | cons c text ih => exact ih (Position.next_column h c)

theorem not_ended_escape : ¬Ended ['\\', '\n'] := by
  rintro ⟨before, hb, hc⟩
  obtain ⟨rfl, -⟩ := List.append_inj' (show ['\\'] ++ ['\n'] = _ from hb) rfl
  exact (hc '\\' rfl).1 rfl

theorem not_ended_return : ¬Ended ['\\', '\r', '\n'] := by
  rintro ⟨before, hb, hc⟩
  obtain ⟨rfl, -⟩ := List.append_inj' (show ['\\', '\r'] ++ ['\n'] = _ from hb) rfl
  exact (hc '\r' rfl).2 rfl

/-- A line break that is not escaped in the text is not escaped before any other text either. -/
theorem not_escape_append (h : Ended (c :: left)) (hn : ∀ tail, c = '\\' → left = '\n' :: tail → False)
    (hr : ∀ tail, c = '\\' → left = '\r' :: '\n' :: tail → False) (rest : List Char) :
    (∀ tail, c = '\\' → left ++ rest = '\n' :: tail → False) ∧
      ∀ tail, c = '\\' → left ++ rest = '\r' :: '\n' :: tail → False := by
  have hlast := h.getLast?
  constructor
  · rintro tail rfl hl
    cases left with
    | nil => simp at hlast
    | cons d left =>
      obtain ⟨rfl, -⟩ := List.cons.inj hl
      exact hn left rfl rfl
  · rintro tail rfl hl
    cases left with
    | nil => simp at hlast
    | cons d left =>
      obtain ⟨rfl, htail⟩ := List.cons.inj hl
      cases left with
      | nil => simp at hlast
      | cons e left =>
        obtain ⟨rfl, -⟩ := List.cons.inj htail
        exact hr left rfl rfl

/-- What separates tokens does not reach the end of the text. -/
theorem skipTrivia_append (inComment : Bool) {p p' : Position} (hp : p.column = p'.column)
    (h : Ended text) (rest : List Char) : ∃ q q' taken left, skipTrivia inComment p text = (q, left) ∧
      skipTrivia inComment p' (text ++ rest) = (q', left ++ rest) ∧ q.column = q'.column ∧
      text = taken ++ left ∧ left ≠ [] := by
  fun_induction skipTrivia inComment p text generalizing p' with
  | case1 => exact absurd rfl h.ne_nil
  | case2 p text =>
    refine ⟨_, p'.next '\\', ['\\'], '\n' :: text, rfl, ?_, Position.next_column hp _, rfl, by simp⟩
    rw [List.cons_append, List.cons_append, skipTrivia, if_pos rfl]
  | case3 inComment p text hc ih =>
    have hne : text ≠ [] := by
      rintro rfl
      exact not_ended_escape h
    obtain ⟨q, q', taken, left, hq, hq', hcol, rfl, hl⟩ := ih
      (Position.next_column (Position.next_column hp _) _)
      (.suffix (show Ended (['\\', '\n'] ++ text) from h) hne)
    refine ⟨q, q', '\\' :: '\n' :: taken, left, hq, ?_, hcol, rfl, hl⟩
    rw [List.cons_append, List.cons_append, skipTrivia, if_neg hc, hq']
  | case4 p text =>
    refine ⟨_, (p'.next '\\').next '\r', ['\\', '\r'], '\n' :: text, rfl, ?_,
      Position.next_column (Position.next_column hp _) _, rfl, by simp⟩
    rw [List.cons_append, List.cons_append, List.cons_append, skipTrivia, if_pos rfl]
  | case5 inComment p text hc ih =>
    have hne : text ≠ [] := by
      rintro rfl
      exact not_ended_return h
    obtain ⟨q, q', taken, left, hq, hq', hcol, rfl, hl⟩ := ih
      (Position.next_column (Position.next_column (Position.next_column hp _) _) _)
      (.suffix (show Ended (['\\', '\r', '\n'] ++ text) from h) hne)
    refine ⟨q, q', '\\' :: '\r' :: '\n' :: taken, left, hq, ?_, hcol, rfl, hl⟩
    rw [List.cons_append, List.cons_append, List.cons_append, skipTrivia, if_neg hc, hq']
  | case6 p text hn hr =>
    obtain ⟨hn, hr⟩ := not_escape_append h hn hr rest
    refine ⟨p, p', [], '\n' :: text, rfl, ?_, hp, rfl, by simp⟩
    rw [List.cons_append, skipTrivia, if_pos rfl, if_pos rfl]
    · exact hn
    · exact hr
  | case7 p c text hn hr hc ih =>
    obtain ⟨hn, hr⟩ := not_escape_append h hn hr rest
    obtain ⟨q, q', taken, left, hq, hq', hcol, rfl, hl⟩ :=
      ih (Position.next_column hp c) (h.tail (h.tail_ne_nil hc))
    refine ⟨q, q', c :: taken, left, hq, ?_, hcol, rfl, hl⟩
    rw [List.cons_append, skipTrivia, if_pos rfl, if_neg hc, hq']
    · exact hn
    · exact hr
  | case8 inComment p c text hn hr hi hc ih =>
    obtain ⟨hn, hr⟩ := not_escape_append h hn hr rest
    obtain ⟨q, q', taken, left, hq, hq', hcol, rfl, hl⟩ :=
      ih (Position.next_column hp c) (h.tail (h.tail_ne_nil (by rintro rfl; simp at hc)))
    refine ⟨q, q', c :: taken, left, hq, ?_, hcol, rfl, hl⟩
    rw [List.cons_append, skipTrivia, if_neg hi, if_pos hc, hq']
    · exact hn
    · exact hr
  | case9 inComment p text hi hn hr hc ih =>
    obtain ⟨hn, hr⟩ := not_escape_append h hn hr rest
    obtain ⟨q, q', taken, left, hq, hq', hcol, rfl, hl⟩ :=
      ih (Position.next_column hp '#') (h.tail (h.tail_ne_nil (by decide)))
    refine ⟨q, q', '#' :: taken, left, hq, ?_, hcol, rfl, hl⟩
    rw [List.cons_append, skipTrivia, if_neg hi, if_neg hc, if_pos rfl, hq']
    · exact hn
    · exact hr
  | case10 inComment p c text hn hr hi hc hh =>
    obtain ⟨hn, hr⟩ := not_escape_append h hn hr rest
    refine ⟨p, p', [], c :: text, rfl, ?_, hp, rfl, by simp⟩
    rw [List.cons_append, skipTrivia, if_neg hi, if_neg hc, if_neg hh]
    · exact hn
    · exact hr

/-- The same token at the same column. -/
def Located.Alike (l l' : Located) : Prop := l'.token = l.token ∧ l'.column = l.column

/-- The tokens of a text before its end: the last one is a line break. -/
structure EndsLine (ls : List Located) : Prop where
  tokens : ∀ l ∈ ls, l.token ≠ .finish
  last : ∃ l ∈ ls.getLast?, l.token = .newLine

theorem EndsLine.cons (h : EndsLine ls) (hl : l.token ≠ .finish) : EndsLine (l :: ls) where
  tokens := List.forall_mem_cons.mpr ⟨hl, h.tokens⟩
  last := by
    obtain ⟨n, hn, ht⟩ := h.last
    refine ⟨n, ?_, ht⟩
    rw [Option.mem_def] at hn ⊢
    rw [List.getLast?_cons, hn]
    rfl

/-- The tokens of a text that ends in a line break are found again where other text follows. -/
theorem scanFrom_append {fuel : Nat} {text : List Char} (h : scanFrom fuel p text = .ok ls)
    (hfuel : text.length < fuel) (he : Ended text) :
    ∃ front finish, ls = front ++ [finish] ∧ finish.token = .finish ∧ EndsLine front ∧
      ∀ (fuel' : Nat) (p' : Position) (rest : List Char), p.column = p'.column →
        (text ++ rest).length < fuel' → ∃ fuel'' p'', rest.length < fuel'' ∧ p''.column = 1 ∧
          ∀ tail, scanFrom fuel'' p'' rest = .ok tail → ∃ front',
            List.Forall₂ Located.Alike front front' ∧
              scanFrom fuel' p' (text ++ rest) = .ok (front' ++ tail) := by
  induction fuel generalizing p text ls with
  | zero => contradiction
  | succ fuel ih =>
    obtain ⟨q, -, taken, left, hq, -, -, rfl, hl⟩ := skipTrivia_append false (Eq.refl p.column) he []
    have hskip (p' : Position) (hp : p.column = p'.column) (rest : List Char) :
        ∃ q', skipTrivia false p' (taken ++ left ++ rest) = (q', left ++ rest) ∧ q.column = q'.column := by
      obtain ⟨r, q', -, left', hr, hq', hcol, -⟩ := skipTrivia_append false hp he rest
      obtain ⟨rfl, rfl⟩ := Prod.mk.inj (hq.symm.trans hr)
      exact ⟨q', hq', hcol⟩
    have hleft := he.suffix hl
    rw [scanFrom, hq] at h
    simp only [List.isEmpty_iff, hl, if_false] at h
    cases hf : lexeme left with
    | error e =>
      rw [hf] at h
      cases h
    | ok found =>
      rw [hf] at h
      obtain ⟨ls, hs, hls⟩ := except_bind_eq_ok.mp h
      obtain rfl := Except.ok.inj hls
      have hlength := lexeme_length hf
      have hin := (lexeme_append hf hleft.getLast? []).2
      -- one step of the scanner, where other text follows
      have hstep (fuel' : Nat) (p' : Position) (rest : List Char) (hp : p.column = p'.column) :
          ∃ q' : Position, q.column = q'.column ∧ scanFrom (fuel' + 1) p' (taken ++ left ++ rest) = do
            let ls ← scanFrom fuel' (q'.after found.text) (found.rest ++ rest)
            return ⟨found.token, q'.line, q'.column⟩ :: ls := by
        obtain ⟨q', hq', hcol⟩ := hskip p' hp rest
        refine ⟨q', hcol, ?_⟩
        have hne : left ++ rest ≠ [] := by simp [hl]
        rw [scanFrom, hq']
        simp only [List.isEmpty_iff, hne, if_false, (lexeme_append hf hleft.getLast? rest).1]
        rfl
      rw [List.length_append] at hfuel
      by_cases hr : found.rest = []
      · obtain ⟨hn, ht⟩ := hin.left.resolve_left (fun h => h hr)
        obtain ⟨fuel, rfl⟩ : ∃ m, fuel = m + 1 := ⟨fuel - 1, by omega⟩
        rw [hr, scanFrom, skipTrivia] at hs
        obtain rfl := Except.ok.inj hs
        refine ⟨[⟨found.token, q.line, q.column⟩], _, rfl, rfl, ⟨by simp [hn], _, rfl, hn⟩, ?_⟩
        intro fuel' p' rest hp hfuel'
        obtain ⟨fuel', rfl⟩ : ∃ m, fuel' = m + 1 := ⟨fuel' - 1, by omega⟩
        obtain ⟨q', hcol, hscan⟩ := hstep fuel' p' rest hp
        refine ⟨fuel', q'.after found.text, ?_, by rw [ht]; exact after_newLine q' [], ?_⟩
        · simp only [List.length_append] at hfuel'
          omega
        · intro tail htail
          rw [hr, List.nil_append, htail] at hscan
          exact ⟨[⟨found.token, q'.line, q'.column⟩], .cons ⟨rfl, hcol.symm⟩ .nil, hscan⟩
      · obtain ⟨taken', rfl⟩ := hin.taken
        obtain ⟨front, finish, rfl, hfinish, hends, hall⟩ := ih hs (by omega) (hleft.suffix hr)
        refine ⟨⟨found.token, q.line, q.column⟩ :: front, finish, rfl, hfinish, hends.cons hin.token, ?_⟩
        intro fuel' p' rest hp hfuel'
        obtain ⟨fuel', rfl⟩ : ∃ m, fuel' = m + 1 := ⟨fuel' - 1, by omega⟩
        obtain ⟨q', hcol, hscan⟩ := hstep fuel' p' rest hp
        obtain ⟨fuel'', p'', hfuel'', hp'', hrest⟩ :=
          hall fuel' (q'.after found.text) rest (Position.after_column hcol _) (by
            simp only [List.length_append] at hfuel' hlength ⊢
            omega)
        refine ⟨fuel'', p'', hfuel'', hp'', fun tail htail => ?_⟩
        obtain ⟨front', hfront, hfound⟩ := hrest tail htail
        rw [hfound] at hscan
        exact ⟨⟨found.token, q'.line, q'.column⟩ :: front', .cons ⟨rfl, hcol.symm⟩ hfront, hscan⟩

/-- A script that ends in a line break is scanned in the same way where it is a part of a longer one. -/
theorem scansLines_of_scan (h : scan text = .ok ls) (he : Ended text.toList) :
    ∃ front finish, ls = front ++ [finish] ∧ finish.token = .finish ∧ EndsLine front ∧
      ScansLines text fun _ _ => List.Forall₂ Located.Alike front := by
  obtain ⟨front, finish, hls, hfinish, hends, hall⟩ := scanFrom_append h (Nat.lt_succ_self _) he
  exact ⟨front, finish, hls, hfinish, hends, fun fuel p rest hp hfuel => hall fuel p rest hp.symm hfuel⟩

end Script
end Qua
