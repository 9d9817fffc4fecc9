import Qua.Proofs.Script.Scanning

/-!
# Strings read back

A string is written between quotes with its escapes, and read back as itself whatever follows. Main
statement: `quoted_readsBack`.
-/

namespace Qua

namespace Text

/-- The two characters between which strings are written. -/
def IsQuote (q : Char) : Prop := q = '"' ∨ q = '\''

theorem IsQuote.ne_backslash (hq : IsQuote q) : q ≠ '\\' := by
  obtain rfl | rfl := hq <;> decide

theorem IsQuote.ne_lineBreak (hq : IsQuote q) : q ≠ '\n' := by
  obtain rfl | rfl := hq <;> decide

theorem unescape_quote (hq : IsQuote q) : unescape q = [q] := by
  obtain rfl | rfl := hq <;> decide

theorem unquote_cons (h : c ≠ '\\') (q : Char) (rest : List Char) :
    unquote q (c :: rest) =
      if c = q then some ([], rest)
      else if c = '\n' then none
      else (unquote q rest).map fun (s, rest) => (c :: s, rest) := by
  rw [unquote]
  · rintro hc -
    exact h hc
  · rintro c' rest' hc -
    exact h hc

/-- One character is written and read back. -/
theorem unquote_escape (hq : IsQuote q) (c : Char) (text : List Char) :
    unquote q (escape q c ++ text) =
      (unquote q text).map fun (s, rest) => (c :: s, rest) := by
  unfold escape
  split
  · next h => subst h; simp [unquote, unescape]
  · next hb =>
    split
    · next h => subst h; simp [unquote, unescape]
    · next hn =>
      split
      · next h => subst h; simp [unquote, unescape]
      · split
        · next h =>
          subst h
          simp [unquote, unescape_quote hq]
        · next hc => rw [List.singleton_append, unquote_cons hb, if_neg hc, if_neg hn]

/-- The quotes go around what is written for the characters. -/
theorem toList_quoteWith (q : Char) (s : String) :
    (quoteWith q s).toList = q :: (s.toList.flatMap (escape q) ++ [q]) := by
  simp [quoteWith]

/-- A line break is written as two other characters, and none comes from the other escapes. -/
theorem lineBreak_not_mem_escape (hq : IsQuote q) (c : Char) : '\n' ∉ escape q c := by
  unfold escape
  split
  · decide
  · split
    · decide
    · next hn =>
      split
      · decide
      · split
        · simp [hq.ne_lineBreak.symm]
        · simp [Ne.symm hn]

theorem lineBreak_not_mem_quoteWith (hq : IsQuote q) (s : String) : '\n' ∉ (quoteWith q s).toList := by
  rw [toList_quoteWith, List.mem_cons, List.mem_append, List.mem_singleton, not_or, not_or]
  refine ⟨hq.ne_lineBreak.symm, fun h => ?_, hq.ne_lineBreak.symm⟩
  obtain ⟨c, -, hc⟩ := List.mem_flatMap.mp h
  exact lineBreak_not_mem_escape hq c hc

theorem unquote_quoteWith (hq : IsQuote q) (s rest : List Char) :
    unquote q (s.flatMap (escape q) ++ q :: rest) = some (s, rest) := by
  induction s with
  | nil => rw [List.flatMap_nil, List.nil_append, unquote_cons hq.ne_backslash, if_pos rfl]
  | cons c s ih => rw [List.flatMap_cons, List.append_assoc, unquote_escape hq, ih, Option.map_some]

end Text

namespace Script

/-- The text of a string is a lexeme whatever follows it. -/
theorem lexeme_quoteWith (hq : Text.IsQuote q) (s : String) (rest : List Char) :
    lexeme ((Text.quoteWith q s).toList ++ rest) = .ok ⟨.string s, (Text.quoteWith q s).toList, rest⟩ := by
  have hl (text : List Char) : lexeme (q :: text) = stringLexeme q text := by
    obtain rfl | rfl := hq <;> rfl
  have htake : (s.toList.flatMap (Text.escape q) ++ q :: rest).take
      ((s.toList.flatMap (Text.escape q) ++ q :: rest).length - rest.length) =
        s.toList.flatMap (Text.escape q) ++ [q] := by
    rw [List.append_cons, List.length_append, Nat.add_sub_cancel, List.take_left]
  rw [Text.toList_quoteWith, List.cons_append, hl, List.append_assoc, List.singleton_append, stringLexeme,
    Text.unquote_quoteWith hq]
  simp only [String.ofList_toList, htake]

/-- A string is one token whatever follows it. -/
theorem Scans.quoteWith (hq : Text.IsQuote q) (s : String) :
    Scans (Text.quoteWith q s).toList [.string s] fun _ => True := by
  have hs : startsToken q = true := by
    obtain rfl | rfl := hq <;> decide
  rw [Text.toList_quoteWith]
  refine .of_lexeme hs fun rest _ => ?_
  rw [← List.cons_append, ← Text.toList_quoteWith]
  exact lexeme_quoteWith hq s rest

theorem Scans.quote (s : String) : Scans (Text.quote s).toList [.string s] fun _ => True :=
  .quoteWith (.inl rfl) s

/-- A string that is written in a program, or between either quotes in a configuration, is read back as the
string with exactly what follows it left over, and what is written for it is on one line. -/
theorem quoted_readsBack (s : String) (suffix : List Char) :
    lexeme ((Text.quote s).toList ++ suffix) = .ok ⟨.string s, (Text.quote s).toList, suffix⟩ ∧
    '\n' ∉ (Text.quote s).toList ∧
    ∀ q, Text.IsQuote q →
      lexeme ((Text.quoteWith q s).toList ++ suffix) = .ok ⟨.string s, (Text.quoteWith q s).toList, suffix⟩ ∧
      '\n' ∉ (Text.quoteWith q s).toList :=
  ⟨lexeme_quoteWith (.inl rfl) s suffix, Text.lineBreak_not_mem_quoteWith (.inl rfl) s,
    fun _ hq => ⟨lexeme_quoteWith hq s suffix, Text.lineBreak_not_mem_quoteWith hq s⟩⟩

/-- Backslashes before letters, quotes of both kinds and a line break, before a text that goes on with a
quote. -/
theorem quoted_readsBack_mixed :
    let s := "\\n\\\\t\"'\n"
    Text.IsQuote '\'' ∧ (Text.quoteWith '\'' s).toList = "'\\\\n\\\\\\\\t\"\\'\\n'".toList ∧
    lexeme ((Text.quoteWith '\'' s).toList ++ ['\'', 'x']) =
      .ok ⟨.string s, (Text.quoteWith '\'' s).toList, ['\'', 'x']⟩ ∧
    '\n' ∉ (Text.quoteWith '\'' s).toList :=
  ⟨.inr rfl, by decide, (quoted_readsBack _ _).2.2 '\'' (.inr rfl)⟩

end Script
end Qua
