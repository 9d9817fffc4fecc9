import Qua.Proofs.Script.Scanning

/-!
# Progress of the scanner

Every lexeme takes a character, so that a text has at most one token more than it has characters, and
the fuel of `scan` never runs out.
-/

namespace Qua

namespace Text

theorem unquote_length (h : unquote q text = some (s, rest)) : rest.length < text.length := by
  fun_induction unquote q text generalizing s rest with
  | case1 => contradiction
  | case2 => contradiction
  | case3 c text ih =>
    cases hu : unquote q text with
    | none => simp [hu] at h
    | some result =>
      obtain ⟨s', rest'⟩ := result
      obtain ⟨-, rfl⟩ : _ ∧ rest' = rest := by simpa [hu] using h
      have := ih hu
      simp only [List.length_cons]
      omega
  | case4 text =>
    obtain ⟨-, rfl⟩ : _ ∧ text = rest := by simpa using h
    simp
  | case5 => contradiction
  | case6 c text hne hne' hc hn ih =>
    cases hu : unquote q text with
    | none => simp [hu] at h
    | some result =>
      obtain ⟨s', rest'⟩ := result
      obtain ⟨-, rfl⟩ : _ ∧ rest' = rest := by simpa [hu] using h
      have := ih hu
      simp only [List.length_cons]
      omega

end Text

namespace Script

theorem takeWhile_pos {p : Char → Bool} (h : p c = true) (text : List Char) :
    0 < ((c :: text).takeWhile p).length := by
  simp [h]

theorem numberLexeme_length (hc : c.isDigit = true) (h : numberLexeme (c :: text) = .ok found) :
    found.rest.length < (c :: text).length := by
  have hpos := takeWhile_pos hc text
  unfold numberLexeme at h
  simp only at h
  split at h
  · split at h
    · obtain rfl := Except.ok.inj h
      simp only [List.length_drop, List.length_cons]
      omega
    · contradiction
  · obtain rfl := Except.ok.inj h
    simp only [List.length_drop, List.length_cons]
    omega

theorem symbolLexeme_length (h : symbolLexeme text = some found) :
    found.rest.length < text.length := by
  unfold symbolLexeme at h
  split at h <;> first | contradiction | (obtain rfl := Option.some.inj h; simp only [List.length_cons]; omega)

/-- A lexeme takes a character. -/
theorem lexeme_length (h : lexeme text = .ok found) : found.rest.length < text.length := by
  cases text with
  | nil => contradiction
  | cons c text =>
    unfold lexeme at h
    simp only at h
    split at h
    · obtain rfl := Except.ok.inj h
      simp
    · split at h
      · unfold stringLexeme at h
        split at h
        · next hu =>
          obtain rfl := Except.ok.inj h
          have := Text.unquote_length hu
          simp only [List.length_cons]
          omega
        · contradiction
      · split at h
        · next hc => exact numberLexeme_length hc h
        · split at h
          · next hc =>
            obtain rfl := Except.ok.inj h
            have hpos := takeWhile_pos (Text.isNamePart_of_isNameStart hc) text
            simp only [nameLexeme, List.length_drop, List.length_cons]
            omega
          · split at h
            · next hs =>
              obtain rfl := Except.ok.inj h
              exact symbolLexeme_length hs
            · contradiction

theorem skipTrivia_length (inComment : Bool) (p : Position) (text : List Char) :
    (skipTrivia inComment p text).2.length ≤ text.length := by
  fun_induction skipTrivia inComment p text <;> simp_all <;> omega

/-- A text has at most one token more than it has characters. -/
theorem scanFrom_length (h : scanFrom fuel p text = .ok ls) : ls.length ≤ text.length + 1 := by
  induction fuel generalizing p text ls with
  | zero =>
    obtain rfl := Except.ok.inj h
    simp
  | succ fuel ih =>
    have hskip := skipTrivia_length false p text
    rw [scanFrom] at h
    generalize skipTrivia false p text = skipped at *
    obtain ⟨q, rest⟩ := skipped
    simp only at h hskip
    split at h
    · obtain rfl := Except.ok.inj h
      simp
    · split at h
      · contradiction
      · next found hf =>
        have hlt := lexeme_length hf
        cases htail : scanFrom fuel (q.after found.text) found.rest with
        | error e =>
          rw [htail] at h
          contradiction
        | ok ls' =>
          rw [htail] at h
          obtain rfl := Except.ok.inj h
          have := ih htail
          simp only [List.length_cons]
          omega

/-- A piece has no more tokens than characters. -/
theorem Scans.length_le (h : Scans cs ts follow) : ts.length ≤ cs.length := by
  obtain ⟨ls, hl, hs⟩ := h (ts.length + 1) {} [] (by simp) (by omega)
  have hfinish (p : Position) : scanFrom 1 p [] = .ok [⟨.finish, p.line, p.column⟩] := rfl
  rw [Nat.add_sub_cancel_left, hfinish, List.append_nil] at hs
  have := scanFrom_length hs
  rw [List.length_append, ← List.length_map Located.token, hl] at this
  simpa using this

end Script
end Qua
