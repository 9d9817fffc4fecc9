import Qua.Program.RoundTrip
import Qua.Program.ToScript
import Qua.Proofs.Script.Continued
import Qua.Proofs.Script.Real

/-!
# Comments around a script

The header of a script and the comment on what is wrong with it have no tokens, whatever the strings of
the program are: JSON text has no line break, and a message is cut into its lines. Main statement:
`RoundTrip.blank_diagnostic`.
-/

namespace Qua

namespace Text

/-- The text has no line break. -/
abbrev Unbroken (text : String) : Prop := '\n' ∉ text.toList

theorem Unbroken.append (h : Unbroken text) (h' : Unbroken text') : Unbroken (text ++ text') := by
  rw [Unbroken, String.toList_append, List.mem_append, not_or]
  exact ⟨h, h'⟩

theorem unbroken_ofList (h : '\n' ∉ cs) : Unbroken (String.ofList cs) := by
  rwa [Unbroken, String.toList_ofList]

theorem not_mem_toDigits (n : Nat) : '\n' ∉ Nat.toDigits 10 n := fun h =>
  absurd (Nat.isDigit_of_mem_toDigits (by decide) (by decide) h) (by decide)

theorem unbroken_integer (n : Int) : Unbroken (toString n) := by
  cases n with
  | ofNat n =>
    rw [Unbroken, Script.toString_ofNat]
    exact not_mem_toDigits n
  | negSucc n =>
    rw [Unbroken, Script.toString_negSucc, List.mem_cons, not_or]
    exact ⟨by decide, not_mem_toDigits _⟩

theorem not_mem_dropReturn (h : '\n' ∉ line) : '\n' ∉ dropReturn line := by
  unfold dropReturn
  split
  · exact fun hm => h (List.mem_of_mem_dropLast hm)
  · exact h

theorem not_mem_linesFrom (h : '\n' ∉ line) : ∀ found ∈ linesFrom line text, '\n' ∉ found := by
  fun_induction linesFrom line text with
  | case1 => simp
  | case2 => simpa only [List.mem_singleton, forall_eq, List.mem_reverse] using h
  | case3 line rest ih =>
    refine List.forall_mem_cons.mpr ⟨not_mem_dropReturn ?_, ih (by simp)⟩
    rwa [List.mem_reverse]
  | case4 line c rest hc ih => exact ih (by simp [h, Ne.symm hc])

theorem unbroken_lines (text : String) : ∀ line ∈ lines text, Unbroken line := by
  intro line hline
  obtain ⟨found, hfound, rfl⟩ := List.mem_map.mp hline
  exact unbroken_ofList (not_mem_linesFrom (by simp) found hfound)

end Text

open Text (Unbroken unbroken_ofList not_mem_toDigits unbroken_integer)

-- ---------------------------------------------------------------------------
-- Numbers
-- ---------------------------------------------------------------------------

namespace NumberStyle

variable (style : NumberStyle)

theorem unbroken_zeros (n : Nat) : Unbroken (zeros n) :=
  unbroken_ofList fun h => absurd (List.eq_of_mem_replicate h) (by decide)

theorem unbroken_positional (h : '\n' ∉ digits) (point : Int) :
    Unbroken (style.positional digits point) := by
  have htake (n : Nat) : '\n' ∉ digits.take n := fun hm => h (List.mem_of_mem_take hm)
  have hdrop (n : Nat) : '\n' ∉ digits.drop n := fun hm => h (List.mem_of_mem_drop hm)
  simp only [positional]
  split
  · exact .append (.append (by decide) (unbroken_zeros _)) (unbroken_ofList h)
  · split
    · exact .append (.append (unbroken_ofList (htake _)) (by decide)) (unbroken_ofList (hdrop _))
    · refine .append (.append (unbroken_ofList h) (unbroken_zeros _)) ?_
      split <;> decide

theorem unbroken_scientific (h : '\n' ∉ digits) (exponent : Int) :
    Unbroken (style.scientific digits exponent) := by
  have htake (n : Nat) : '\n' ∉ digits.take n := fun hm => h (List.mem_of_mem_take hm)
  have hdrop (n : Nat) : '\n' ∉ digits.drop n := fun hm => h (List.mem_of_mem_drop hm)
  simp only [scientific]
  refine .append (.append (.append (.append (unbroken_ofList (htake 1)) ?_) (by decide)) ?_)
    (unbroken_integer exponent)
  · split
    · split <;> decide
    · exact .append (by decide) (unbroken_ofList (hdrop 1))
  · split <;> decide

theorem unbroken_write (x : Binary64) : Unbroken (style.write x) := by
  unfold write
  split
  · decide
  · refine .append ?_ ?_
    · split <;> decide
    · split
      · simp only [magnitude]
        split
        · exact unbroken_positional style (not_mem_toDigits _) _
        · exact unbroken_scientific style (not_mem_toDigits _) _
      · decide

end NumberStyle

-- ---------------------------------------------------------------------------
-- JSON
-- ---------------------------------------------------------------------------

namespace Json

theorem not_mem_escape (c : Char) : '\n' ∉ escape c := by
  have hdigits : ∀ n < 32, '\n' ∉ Nat.toDigits 16 n := by decide
  by_cases hc : c = '\n'
  · subst hc
    decide
  · unfold escape
    split_ifs with _ _ _ _ _ hsmall hdigit
    all_goals try decide
    · simp [Ne.symm hc]
    · simp [hdigits _ hsmall]
    · simp [hdigits _ hsmall]
    · simp [Ne.symm hc]

theorem unbroken_printString (s : String) : Unbroken (printString s) := by
  refine unbroken_ofList ?_
  simp [not_mem_escape]

theorem unbroken_printReal (x : Binary64) : Unbroken (printReal x) := by
  unfold printReal
  split
  · exact NumberStyle.unbroken_write .json x
  · decide

mutual

theorem unbroken_print : (j : Json) → Unbroken j.print
  | .null => by decide
  | .bool true => by decide
  | .bool false => by decide
  | .integer n => unbroken_integer n
  | .real x => unbroken_printReal x
  | .string s => unbroken_printString s
  | .array items => .append (.append (by decide) (unbroken_printItems items)) (by decide)
  | .object members => .append (.append (by decide) (unbroken_printMembers members)) (by decide)

theorem unbroken_printItems : (items : List Json) → Unbroken (printItems items)
  | [] => by decide
  | [item] => unbroken_print item
  | item :: next :: rest =>
    .append (.append (unbroken_print item) (by decide)) (unbroken_printItems (next :: rest))

theorem unbroken_printMembers : (members : List (String × Json)) → Unbroken (printMembers members)
  | [] => by decide
  | [(name, value)] => .append (.append (unbroken_printString name) (by decide)) (unbroken_print value)
  | (name, value) :: next :: rest =>
    .append (.append (.append (.append (unbroken_printString name) (by decide)) (unbroken_print value))
      (by decide)) (unbroken_printMembers (next :: rest))

end

end Json

-- ---------------------------------------------------------------------------
-- Comments
-- ---------------------------------------------------------------------------

open Script (Blank blank_newLine blank_comment blank_empty)

/-- A comment has no tokens if none of its lines is broken. -/
theorem blank_commentBlock (ht : Unbroken title) (hl : ∀ line ∈ lines, Unbroken line) :
    Blank (commentBlock title lines) := by
  have hlines : Blank (String.join (lines.map fun line => "#  " ++ line ++ "\n")) := by
    refine .join fun text htext => ?_
    obtain ⟨line, hline, rfl⟩ := List.mem_map.mp htext
    have h : Unbroken ("  " ++ line) := .append (by decide) (hl line hline)
    simpa [← String.append_assoc] using blank_comment h
  have hopening : Unbroken ("###     " ++ title ++ "     ####") := .append (.append (by decide) ht) (by decide)
  have hempty : Unbroken "" := by decide
  have hclosing : Unbroken "###############################################" := by decide
  have h := blank_newLine.append (blank_newLine.append ((blank_comment hopening).append
    ((blank_comment hempty).append (hlines.append ((blank_comment hempty).append (blank_comment hclosing))))))
  convert h using 1
  rw [← String.toList_inj]
  simp [commentBlock]

theorem RoundTrip.blank_diagnostic (found : RoundTrip) : Blank found.diagnostic := by
  cases found with
  | equal => exact blank_empty
  | mismatch program replayed =>
    refine blank_commentBlock (by decide) ?_
    simp only [List.forall_mem_cons]
    exact ⟨.append (by decide) (Json.unbroken_print _), .append (by decide) (Json.unbroken_print _), by simp⟩
  | failed error => exact blank_commentBlock (by decide) (Text.unbroken_lines _)

theorem ScriptOptions.blank_headerText (options : ScriptOptions) : Blank options.headerText := by
  unfold headerText
  split
  · have hname : Unbroken " Single QUA script generated by qua-rs" := by decide
    have hversion : Unbroken " qua-rs version: 0.1.0" := by decide
    have h := (blank_comment hname).append ((blank_comment hversion).append blank_newLine)
    simpa using h
  · exact blank_empty

end Qua
