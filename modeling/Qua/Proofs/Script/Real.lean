import Mathlib.Tactic.FieldSimp
import Qua.Proofs.Binary64.Shortest
import Qua.Proofs.Script.Reading

/-!
# Reals read back

A real is written as digits with a point or an exponent, and scanned as the number itself: wherever the
layout puts the point, the literal has the value of the shortest decimal.
-/

namespace Qua

namespace Text

theorem digitsValue_eq (cs : List Char) : digitsValue cs = Nat.ofDigitChars 10 cs 0 := by
  rw [Nat.ofDigitChars_eq_foldl]
  simp only [digitsValue, digitValue, Nat.mul_comm]

theorem digitsValue_append (cs ds : List Char) :
    digitsValue (cs ++ ds) = digitsValue cs * 10 ^ ds.length + digitsValue ds := by
  rw [digitsValue_eq, digitsValue_eq, digitsValue_eq, Nat.ofDigitChars_append,
    Nat.ofDigitChars_eq_ofDigitChars_zero (l := ds), Nat.mul_comm]

theorem digitsValue_zeros (n : Nat) : digitsValue (List.replicate n '0') = 0 := by
  rw [digitsValue_eq, Nat.ofDigitChars_replicate_zero, Nat.mul_zero]

end Text

namespace Script

open Text (digitsValue)

-- ---------------------------------------------------------------------------
-- Literals with a point or an exponent
-- ---------------------------------------------------------------------------

/-- An exponent as it is written, if it is; one above zero may be written with its sign. -/
def exponentChars (plus : Bool) : Option Int → List Char
  | none => []
  | some e => 'e' :: ((if plus && 0 < e then ['+'] else []) ++ (toString e).toList)

/-- A point and the digits after it, if there is one. -/
def fractionChars : Option (List Char) → List Char
  | none => []
  | some digits => '.' :: digits

theorem toString_ofNat (n : Nat) : (toString (Int.ofNat n)).toList = Nat.toDigits 10 n := by
  have h : 0 ≤ Int.ofNat n := Int.natCast_nonneg n
  rw [Int.toString_eq_repr, Int.repr_eq_if, if_pos h, Nat.toList_repr]
  rfl

theorem toString_negSucc (n : Nat) :
    (toString (Int.negSucc n)).toList = '-' :: Nat.toDigits 10 (n + 1) := by
  rw [Int.toString_eq_repr, Int.repr_eq_if, if_neg (by omega), String.toList_append, Nat.toList_repr]
  rfl

theorem signText_digits (h : c.isDigit = true) (cs : List Char) : signText (c :: cs) = [] := by
  unfold signText
  split
  · next heq =>
    obtain ⟨rfl, -⟩ := List.cons.inj heq
    exact absurd h (by decide)
  · next heq =>
    obtain ⟨rfl, -⟩ := List.cons.inj heq
    exact absurd h (by decide)
  · rfl

theorem exponentText_exponentChars (plus : Bool) (e : Option Int) {rest : List Char}
    (hr : ∀ c ∈ rest.head?, EndsNumber c) :
    exponentText (exponentChars plus e ++ rest) = exponentChars plus e := by
  have htake (n : Nat) : (Nat.toDigits 10 n ++ rest).takeWhile Char.isDigit = Nat.toDigits 10 n :=
    takeWhile_append_stop (fun _ h => isDigit_of_mem_toDigits h) fun c hc => (hr c hc).not_isDigit
  cases e with
  | none => exact exponentText_stop hr
  | some e =>
    cases e with
    | ofNat n =>
      rw [exponentChars, toString_ofNat, List.cons_append]
      have ht := htake n
      cases hd : Nat.toDigits 10 n with
      | nil => exact absurd hd Nat.toDigits_ne_nil
      | cons c cs =>
        have hc : c.isDigit = true := isDigit_of_mem_toDigits (hd ▸ List.mem_cons_self)
        rw [hd, List.cons_append] at ht
        split
        · simp [exponentText, signText, ht]
        · simp [exponentText, signText_digits hc, ht]
    | negSucc n =>
      rw [exponentChars, toString_negSucc, List.cons_append]
      have ht := htake (n + 1)
      have hneg : ¬ 0 < Int.negSucc n := by omega
      cases hd : Nat.toDigits 10 (n + 1) with
      | nil => exact absurd hd Nat.toDigits_ne_nil
      | cons c cs =>
        rw [hd, List.cons_append] at ht
        simp [hneg, exponentText, signText, ht]

theorem exponentValue_exponentChars (plus : Bool) (e : Option Int) :
    exponentValue (exponentChars plus e) = e.getD 0 := by
  cases e with
  | none => rfl
  | some e =>
    cases e with
    | ofNat n =>
      rw [exponentChars, toString_ofNat]
      cases hd : Nat.toDigits 10 n with
      | nil => exact absurd hd Nat.toDigits_ne_nil
      | cons c cs =>
        have hv : digitsValue (c :: cs) = n := by rw [← hd, digitsValue_toDigits]
        have hc : c.isDigit = true := isDigit_of_mem_toDigits (hd ▸ List.mem_cons_self)
        split
        · simp only [exponentValue, List.drop_one, List.tail_cons, List.singleton_append, hv]
          rfl
        · unfold exponentValue
          rw [List.nil_append, List.drop_one, List.tail_cons]
          split
          · next heq =>
            obtain ⟨rfl, -⟩ := List.cons.inj heq
            exact absurd hc (by decide)
          · next heq =>
            obtain ⟨rfl, -⟩ := List.cons.inj heq
            exact absurd hc (by decide)
          · rw [hv]
            rfl
    | negSucc n =>
      have hneg : ¬ 0 < Int.negSucc n := by omega
      rw [exponentChars, toString_negSucc]
      simp only [hneg, decide_false, Bool.and_false, Bool.false_eq_true, if_false, List.nil_append,
        exponentValue, List.drop_one, List.tail_cons, digitsValue_toDigits]
      rfl

/-- The digits of a real before and after its point, with its exponent. -/
structure RealText where
  whole : List Char
  fraction : Option (List Char)
  exponent : Option Int
  plus : Bool

namespace RealText

def chars (t : RealText) : List Char :=
  t.whole ++ (fractionChars t.fraction ++ exponentChars t.plus t.exponent)

structure Valid (t : RealText) : Prop where
  nonempty : t.whole ≠ []
  whole : ∀ c ∈ t.whole, c.isDigit = true
  fraction : ∀ ds ∈ t.fraction, ∀ c ∈ ds, c.isDigit = true
  isReal : t.fraction ≠ none ∨ t.exponent ≠ none

/-- The digits as one number, to which the exponent belongs that follows from the point. -/
def digits (t : RealText) : Nat := digitsValue (t.whole ++ t.fraction.getD [])

def place (t : RealText) : Int := t.exponent.getD 0 - (t.fraction.getD []).length

end RealText

theorem exponentChars_head (plus : Bool) (e : Option Int) {rest : List Char}
    (hr : ∀ c ∈ rest.head?, EndsNumber c) :
    ∀ c ∈ (exponentChars plus e ++ rest).head?, c.isDigit = false ∧ c ≠ '.' := by
  intro c hc
  cases e with
  | none => exact ⟨(hr c hc).not_isDigit, (hr c hc).2⟩
  | some e =>
    obtain rfl : 'e' = c := by simpa [exponentChars] using hc
    exact ⟨rfl, by decide⟩

theorem fractionText_fractionChars {f : Option (List Char)}
    (hf : ∀ ds ∈ f, ∀ c ∈ ds, c.isDigit = true) {rest : List Char}
    (hr : ∀ c ∈ rest.head?, c.isDigit = false ∧ c ≠ '.') :
    fractionText (fractionChars f ++ rest) = fractionChars f := by
  cases f with
  | none =>
    rw [fractionChars, List.nil_append, fractionText.eq_def]
    split
    · exact absurd rfl (hr '.' rfl).2
    · rfl
  | some ds =>
    rw [fractionChars, List.cons_append, fractionText,
      takeWhile_append_stop (hf ds rfl) fun c hc => (hr c hc).1]

theorem fractionChars_head (f : Option (List Char)) {rest : List Char}
    (hr : ∀ c ∈ rest.head?, c.isDigit = false ∧ c ≠ '.') :
    ∀ c ∈ (fractionChars f ++ rest).head?, c.isDigit = false := by
  intro c hc
  cases f with
  | none => exact (hr c hc).1
  | some ds =>
    obtain rfl : '.' = c := by simpa [fractionChars] using hc
    rfl

theorem fractionChars_drop (f : Option (List Char)) : (fractionChars f).drop 1 = f.getD [] := by
  cases f <;> rfl

theorem RealText.Valid.not_integer {t : RealText} (h : t.Valid) :
    ((fractionChars t.fraction).isEmpty && (exponentChars t.plus t.exponent).isEmpty) = false := by
  have hreal := h.isReal
  cases hf : t.fraction with
  | some ds => rfl
  | none =>
    cases he : t.exponent with
    | some e => rfl
    | none => simp [hf, he] at hreal

theorem Scans.real {t : RealText} (h : t.Valid) :
    Scans t.chars [.float (Binary64.ofDecimal false t.digits t.place)] EndsNumber := by
  cases hw : t.whole with
  | nil => exact absurd hw h.nonempty
  | cons c cs =>
    have hdigits := h.whole
    rw [hw] at hdigits
    have hc := hdigits c List.mem_cons_self
    have hchars : t.chars = c :: (cs ++ (fractionChars t.fraction ++ exponentChars t.plus t.exponent)) := by
      simp [RealText.chars, hw]
    rw [hchars]
    refine .of_lexeme (startsToken_of_isNamePart (Text.isNamePart_of_isDigit hc)) ?_
    intro rest hr
    have htext : c :: (cs ++ (fractionChars t.fraction ++ exponentChars t.plus t.exponent) ++ rest) =
        c :: cs ++ (fractionChars t.fraction ++ (exponentChars t.plus t.exponent ++ rest)) := by simp
    have hhead := exponentChars_head t.plus t.exponent hr
    have hwhole : (c :: cs ++ (fractionChars t.fraction ++
        (exponentChars t.plus t.exponent ++ rest))).takeWhile Char.isDigit = c :: cs :=
      takeWhile_append_stop hdigits (fractionChars_head t.fraction hhead)
    have hfraction := fractionText_fractionChars h.fraction hhead
    have hexponent := exponentText_exponentChars t.plus t.exponent hr
    rw [lexeme_of_isDigit hc, htext, numberLexeme, hwhole, List.drop_left, hfraction, List.drop_left]
    simp only [hexponent, h.not_integer, Bool.false_eq_true, if_false, exponentValue_exponentChars,
      List.drop_left, fractionChars_drop]
    simp [RealText.digits, RealText.place, hw]

-- ---------------------------------------------------------------------------
-- The layout of a real
-- ---------------------------------------------------------------------------

namespace RealText

/-- The text has the value of a decimal. -/
def Denotes (t : RealText) (digits : Nat) (exponent : Int) : Prop :=
  (t.digits * 10 ^ t.place : ℚ) = digits * 10 ^ exponent

theorem denotes_of_digits {t : RealText} (h : t.digits = n) (hp : t.place = e) : t.Denotes n e := by
  rw [Denotes, h, hp]

/-- Zeros after the digits are made up for by the place of the point. -/
theorem denotes_of_zeros {t : RealText} {k : Nat} (h : t.digits = n * 10 ^ k) (hp : t.place = e - k) :
    t.Denotes n e := by
  rw [Denotes, h, hp, zpow_sub₀ (by decide), zpow_natCast]
  push_cast
  field_simp

end RealText

theorem toList_zeros (n : Nat) : (NumberStyle.zeros n).toList = List.replicate n '0' :=
  String.toList_ofList

theorem isDigit_of_mem_replicate (h : c ∈ List.replicate n '0') : c.isDigit = true := by
  obtain ⟨-, rfl⟩ := List.mem_replicate.mp h
  rfl

/-- Without an exponent, the point stands somewhere in the digits or in zeros around them. -/
theorem positional_text {style : NumberStyle} (hstyle : style.wholeFraction = true) {ds : List Char}
    (hne : ds ≠ []) (hd : ∀ c ∈ ds, c.isDigit = true) (point : Int) :
    ∃ t : RealText, t.Valid ∧ (NumberStyle.positional style ds point).toList = t.chars ∧
      t.Denotes (digitsValue ds) (point - ds.length) := by
  have hlen : 0 < ds.length := List.length_pos_of_ne_nil hne
  unfold NumberStyle.positional
  simp only
  split
  · next h =>
    refine ⟨⟨['0'], some (List.replicate point.natAbs '0' ++ ds), none, false⟩,
      ⟨by simp, by simp, ?_, by simp⟩, ?_, RealText.denotes_of_digits ?_ ?_⟩
    · rintro _ ⟨⟩ c hc
      exact (List.mem_append.mp hc).elim isDigit_of_mem_replicate (hd c)
    · simp [RealText.chars, fractionChars, exponentChars, toList_zeros]
    · rw [RealText.digits, Option.getD_some, Text.digitsValue_append, Text.digitsValue_append,
        Text.digitsValue_zeros]
      simp [digitsValue, Text.digitValue]
    · simp only [RealText.place, Option.getD_none, Option.getD_some, List.length_append,
        List.length_replicate]
      omega
  · next h =>
    split
    · next hlt =>
      have htake : (ds.take point.natAbs).length = point.natAbs := by
        rw [List.length_take]
        omega
      refine ⟨⟨ds.take point.natAbs, some (ds.drop point.natAbs), none, false⟩,
        ⟨?_, ?_, ?_, by simp⟩, ?_, RealText.denotes_of_digits ?_ ?_⟩
      · intro hnil
        rw [show ds.take point.natAbs = [] from hnil, List.length_nil] at htake
        omega
      · exact fun c hc => hd c (List.mem_of_mem_take hc)
      · rintro _ ⟨⟩ c hc
        exact hd c (List.mem_of_mem_drop hc)
      · simp [RealText.chars, fractionChars, exponentChars]
      · rw [RealText.digits, Option.getD_some, List.take_append_drop]
      · simp only [RealText.place, Option.getD_none, Option.getD_some, List.length_drop]
        omega
    · next hlt =>
      refine ⟨⟨ds ++ List.replicate (point - ds.length).natAbs '0', some ['0'], none, false⟩,
        ⟨?_, ?_, by simp, by simp⟩, ?_,
        RealText.denotes_of_zeros (k := (point - ds.length).natAbs + 1) ?_ ?_⟩
      · simp [hne]
      · intro c hc
        exact (List.mem_append.mp hc).elim (hd c) isDigit_of_mem_replicate
      · simp [RealText.chars, fractionChars, exponentChars, toList_zeros]
      · rw [RealText.digits, Option.getD_some, List.append_assoc, Text.digitsValue_append,
          Text.digitsValue_append, Text.digitsValue_zeros]
        simp [digitsValue, Text.digitValue]
      · simp only [RealText.place, Option.getD_none, Option.getD_some, List.length_singleton]
        omega

theorem toList_exponent (plus : Bool) (e : Int) :
    ("e" ++ (if plus && 0 < e then "+" else "") ++ toString e).toList = exponentChars plus (some e) := by
  rw [String.toList_append, String.toList_append, exponentChars]
  split <;> simp

/-- With an exponent, the point stands after the first digit, or is left out where no digit follows. -/
theorem scientific_text (style : NumberStyle) {ds : List Char} (hne : ds ≠ [])
    (hd : ∀ c ∈ ds, c.isDigit = true) (e : Int) :
    ∃ t : RealText, t.Valid ∧ (style.scientific ds e).toList = t.chars ∧
      t.Denotes (digitsValue ds) (e + 1 - ds.length) := by
  have hexponent := toList_exponent style.plus e
  simp only [String.toList_append, List.append_assoc] at hexponent
  cases ds with
  | nil => contradiction
  | cons c cs =>
    cases cs with
    | nil =>
      cases hf : style.scientificFraction with
      | true =>
        refine ⟨⟨[c], some ['0'], some e, style.plus⟩, ⟨by simp, by simpa using hd, by simp, by simp⟩, ?_,
          RealText.denotes_of_zeros (k := 1) ?_ ?_⟩
        · simp [NumberStyle.scientific, hf, RealText.chars, fractionChars, ← hexponent]
        · rw [RealText.digits, Option.getD_some, Text.digitsValue_append]
          simp [digitsValue, Text.digitValue]
        · simp only [RealText.place, Option.getD_some, List.length_singleton]
          omega
      | false =>
        refine ⟨⟨[c], none, some e, style.plus⟩, ⟨by simp, by simpa using hd, by simp, by simp⟩, ?_,
          RealText.denotes_of_digits ?_ ?_⟩
        · simp [NumberStyle.scientific, hf, RealText.chars, fractionChars, ← hexponent]
        · rw [RealText.digits, Option.getD_none, List.append_nil]
        · simp only [RealText.place, Option.getD_some, Option.getD_none, List.length_singleton,
            List.length_nil]
          omega
    | cons c' cs =>
      refine ⟨⟨[c], some (c' :: cs), some e, style.plus⟩, ⟨by simp, ?_, ?_, by simp⟩, ?_,
        RealText.denotes_of_digits rfl ?_⟩
      · exact fun d hc => hd d (List.mem_of_mem_take (i := 1) hc)
      · rintro _ ⟨⟩ d hc
        exact hd d (List.mem_cons_of_mem _ hc)
      · simp [NumberStyle.scientific, RealText.chars, fractionChars, ← hexponent]
      · simp only [RealText.place, Option.getD_some, List.length_cons]
        omega

/-- The literal of a magnitude is scanned as the magnitude, in every style that tells reals from
integers. -/
theorem IsOperand.magnitude {style : NumberStyle} (hstyle : style.wholeFraction = true) {x : Binary64}
    (h : x.isFinite = true) :
    IsOperand (NumberStyle.magnitude style x) (.float (.ofMagnitude false x.magnitude)) := by
  generalize hshortest : x.shortest style.tie style.lowerEnd = decimal
  have hdigits : ∀ c ∈ Nat.toDigits 10 decimal.digits, c.isDigit = true :=
    fun c hc => isDigit_of_mem_toDigits hc
  have htext : ∃ t : RealText, t.Valid ∧ (style.magnitude x).toList = t.chars ∧
      t.Denotes decimal.digits decimal.exponent := by
    unfold NumberStyle.magnitude
    simp only [hshortest]
    split
    · obtain ⟨t, hv, ht, hvalue⟩ := positional_text hstyle Nat.toDigits_ne_nil hdigits
        (decimal.exponent + (Nat.toDigits 10 decimal.digits).length)
      rw [digitsValue_toDigits, add_sub_cancel_right] at hvalue
      exact ⟨t, hv, ht, hvalue⟩
    · obtain ⟨t, hv, ht, hvalue⟩ := scientific_text style Nat.toDigits_ne_nil hdigits
        (decimal.exponent + (Nat.toDigits 10 decimal.digits).length - 1)
      rw [digitsValue_toDigits, sub_add_cancel, add_sub_cancel_right] at hvalue
      exact ⟨t, hv, ht, hvalue⟩
  obtain ⟨t, hv, ht, hvalue⟩ := htext
  rw [← hshortest] at hvalue
  have hread := Binary64.ofDecimal_shortest false style.tie style.lowerEnd h hvalue
  have hscan := Scans.real hv
  rw [hread, ← ht] at hscan
  refine ⟨?_, [_], hscan, .token rfl, (ReadsAtom.token rfl).primary.operand⟩
  cases hw : t.whole with
  | nil => exact absurd hw hv.nonempty
  | cons c cs =>
    have hc : Text.isNamePart c = true :=
      Text.isNamePart_of_isDigit (hv.whole c (hw ▸ List.mem_cons_self))
    refine ⟨c, cs ++ (fractionChars t.fraction ++ exponentChars t.plus t.exponent), ?_,
      startsToken_of_isNamePart hc, endsOperator_of_isNamePart hc⟩
    rw [ht, RealText.chars, hw]
    rfl

end Script
end Qua
