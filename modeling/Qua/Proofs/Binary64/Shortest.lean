import Mathlib.Data.Nat.Cast.Order.Field
import Mathlib.Tactic.Ring
import Qua.Binary64.Shortest
import Qua.Proofs.Binary64.Rounding

/-!
# Shortest decimals read back

A decimal near a number is read as that number, whatever its digits and exponent are. The shortest
decimal is near the number that it was made for: seventeen digits are enough, since the spacing of
decimals with as many digits is less than the unit in the last place.
-/

namespace Qua

/-- The value of a decimal. -/
def Decimal.value (d : Decimal) : ℚ := d.digits * 10 ^ d.exponent

namespace Binary64

variable {n d m : Nat} {e : Int} {x : Binary64}

-- ---------------------------------------------------------------------------
-- Reading
-- ---------------------------------------------------------------------------

theorem decimalLength_pos (n : Nat) : 0 < decimalLength n := Nat.length_toDigits_pos

theorem decimalLength_bounds (hn : 0 < n) :
    10 ^ (decimalLength n - 1) ≤ n ∧ n < 10 ^ decimalLength n := by
  have hlen := decimalLength_pos n
  refine ⟨?_, (Nat.length_toDigits_le_iff (by decide) hlen).mp (Nat.le_refl _)⟩
  by_cases h : 0 < decimalLength n - 1
  · have hle := Nat.length_toDigits_le_iff (n := n) (b := 10) (by decide) h
    refine not_lt.mp fun hc => ?_
    have := hle.mpr hc
    unfold decimalLength at this h
    omega
  · have h0 : decimalLength n - 1 = 0 := by omega
    rw [h0]
    exact hn

/-- The value of a decimal by the place of its leading digit. -/
theorem decimal_bounds (hm : 0 < m) (e : Int) :
    (10 : ℚ) ^ (e + decimalLength m - 1) ≤ m * 10 ^ e ∧
      (m * 10 ^ e : ℚ) < 10 ^ (e + decimalLength m) := by
  obtain ⟨hl, hh⟩ := decimalLength_bounds hm
  have hlen := decimalLength_pos m
  have he : e + decimalLength m - 1 = ((decimalLength m - 1 : Nat) : Int) + e := by omega
  have hl : (10 : ℚ) ^ (decimalLength m - 1) ≤ m := by exact_mod_cast hl
  have hh : (m : ℚ) < 10 ^ decimalLength m := by exact_mod_cast hh
  constructor
  · rw [he, zpow_add₀ (by decide), zpow_natCast]
    gcongr
  · rw [add_comm, zpow_add₀ (by decide), zpow_natCast]
    gcongr

theorem two_pow_le_ten_pow {j k : Nat} (h : j ≤ 3 * k) : (2 : ℚ) ^ j ≤ 10 ^ k :=
  calc (2 : ℚ) ^ j ≤ 2 ^ (3 * k) := pow_le_pow_right₀ (by norm_num) h
    _ = (2 ^ 3) ^ k := pow_mul 2 3 k
    _ ≤ 10 ^ k := by gcongr; norm_num

theorem Near.pos (hzero : x.isZero = false) (h : Near x q) : (2 : ℚ) ^ (-1075 : Int) ≤ q := by
  have hs : (1 : ℚ) ≤ x.significand := by exact_mod_cast significand_pos hzero
  have hb := x.reachBelow_le
  calc (2 : ℚ) ^ (-1075 : Int) = 1 / 2 * 2 ^ (-1074 : Int) := by
        rw [show (-1075 : Int) = -1 + -1074 by decide, zpow_add₀ (by decide)]
        norm_num
    _ ≤ (x.significand - x.reachBelow) * 2 ^ x.exponent := by
      have hp : (2 : ℚ) ^ (-1074 : Int) ≤ 2 ^ x.exponent :=
        zpow_le_zpow_right₀ (by norm_num) x.exponent_ge
      have hr : 1 / 2 ≤ x.significand - x.reachBelow := by linarith
      gcongr
    _ ≤ q := h.low

/-- A decimal near a number is read as the number. -/
theorem ofDecimal_of_near (negative : Bool) (hfinite : x.isFinite = true) (hzero : x.isZero = false)
    (h : Near x (m * 10 ^ e)) : ofDecimal negative m e = ofMagnitude negative x.magnitude := by
  have hpos := h.pos hzero
  have hm : 0 < m := by
    refine Nat.pos_of_ne_zero fun hm => ?_
    rw [hm, Nat.cast_zero, zero_mul] at hpos
    exact absurd hpos (not_le.mpr (by positivity))
  obtain ⟨hl, hh⟩ := decimal_bounds hm e
  have hhigh : ¬ 400 < e + decimalLength m := by
    intro htop
    have hlt := hl.trans_lt h.lt
    have hten : (10 : ℚ) ^ (400 : Int) ≤ 10 ^ (e + decimalLength m - 1) :=
      zpow_le_zpow_right₀ (by norm_num) (by omega)
    have htwo : (2 : ℚ) ^ (53 + x.exponent) ≤ 2 ^ (1024 : Int) := by
      have := exponent_le hfinite
      exact zpow_le_zpow_right₀ (by norm_num) (by omega)
    exact absurd (hten.trans_lt (hlt.trans_le htwo))
      (not_lt.mpr (two_pow_le_ten_pow (j := 1024) (k := 400) (by decide)))
  have hlow : ¬ e + decimalLength m < -400 := by
    intro htop
    have hten : (10 : ℚ) ^ (e + decimalLength m) ≤ 10 ^ (-401 : Int) :=
      zpow_le_zpow_right₀ (by norm_num) (by omega)
    have hle : ((10 : ℚ) ^ 401)⁻¹ ≤ (2 ^ 1075)⁻¹ :=
      inv_anti₀ (by positivity) (two_pow_le_ten_pow (by decide))
    exact absurd (hpos.trans_lt (hh.trans_le hten)) (not_lt.mpr hle)
  simp only [ofDecimal, hm.ne', hhigh, hlow, if_false]
  split
  · next he =>
    refine ofRatio_of_near negative hfinite hm (Nat.pow_pos (by decide)) ?_
    have hq : (m : ℚ) / (Nat.pow 10 e.natAbs : Nat) = m * 10 ^ e := by
      rw [zpow_of_neg 10 he, Nat.pow_eq, Nat.cast_pow, div_eq_mul_inv]
      rfl
    exact hq ▸ h
  · next he =>
    have hpow : 0 < m * Nat.pow 10 e.natAbs := Nat.mul_pos hm (Nat.pow_pos (by decide))
    refine ofRatio_of_near negative hfinite hpow Nat.one_pos ?_
    have hq : ((m * Nat.pow 10 e.natAbs : Nat) : ℚ) / (1 : Nat) = m * 10 ^ e := by
      rw [zpow_of_nonneg 10 (not_lt.mp he), Nat.pow_eq, Nat.cast_mul, Nat.cast_pow, Nat.cast_one,
        div_one]
      rfl
    exact hq ▸ h

-- ---------------------------------------------------------------------------
-- Intervals
-- ---------------------------------------------------------------------------

namespace Interval

/-- The ends of an interval and the value in it, in units of one. -/
def lowEnd (i : Interval) : ℚ := i.low / i.denominator
def middle (i : Interval) : ℚ := i.value / i.denominator
def highEnd (i : Interval) : ℚ := i.high / i.denominator

theorem contains_iff {i : Interval} (hd : 0 < i.denominator) (t : Decimal) :
    i.contains t = true ↔
      (if i.lowClosed then i.lowEnd ≤ t.value else i.lowEnd < t.value) ∧
        (if i.highClosed then t.value ≤ i.highEnd else t.value < i.highEnd) := by
  have hq : (0 : ℚ) < i.denominator := by exact_mod_cast hd
  have hsplit : ∃ n u : Nat, 0 < u ∧ (n : ℚ) / u = t.value ∧
      (if t.exponent < 0 then (t.digits, Nat.pow 10 t.exponent.natAbs)
        else (t.digits * Nat.pow 10 t.exponent.natAbs, 1)) = (n, u) := by
    split
    · next h =>
      refine ⟨_, _, Nat.pow_pos (by decide), ?_, rfl⟩
      rw [Decimal.value, zpow_of_neg 10 h, Nat.cast_pow, div_eq_mul_inv]
      rfl
    · next h =>
      refine ⟨_, _, Nat.one_pos, ?_, rfl⟩
      rw [Decimal.value, zpow_of_nonneg 10 (not_lt.mp h), Nat.cast_mul, Nat.pow_eq, Nat.cast_pow,
        Nat.cast_one, div_one]
      rfl
  obtain ⟨n, u, hu, hvalue, hpair⟩ := hsplit
  have hu : (0 : ℚ) < u := by exact_mod_cast hu
  have hle (a : Nat) : (a : ℚ) / i.denominator ≤ n / u ↔ a * u ≤ n * i.denominator := by
    rw [div_le_div_iff₀ hq hu]
    exact_mod_cast Iff.rfl
  have hge (a : Nat) : (n : ℚ) / u ≤ a / i.denominator ↔ n * i.denominator ≤ a * u := by
    rw [div_le_div_iff₀ hu hq]
    exact_mod_cast Iff.rfl
  unfold contains lowEnd highEnd
  simp only [hpair, ← hvalue]
  simp only [← not_le, hle, hge]
  cases i.lowClosed <;> cases i.highClosed <;> simp

theorem contains_of_between {i : Interval} (hd : 0 < i.denominator) {t : Decimal}
    (hl : i.lowEnd < t.value) (hh : t.value < i.highEnd) : i.contains t = true := by
  rw [contains_iff hd]
  constructor
  · split
    · exact hl.le
    · exact hl
  · split
    · exact hh.le
    · exact hh

end Interval

theorem interval_denominator (lowerEnd : Option Int) (x : Binary64) :
    0 < (x.interval lowerEnd).denominator := scaled_pos 1 (x.exponent - 2)

/-- A quarter of the unit in the last place. -/
theorem quarter (x : Binary64) :
    ((scaled 1 (x.exponent - 2)).1 : ℚ) / (scaled 1 (x.exponent - 2)).2 = 2 ^ x.exponent / 4 := by
  rw [scaled_div, zpow_sub₀ (by decide)]
  norm_num

theorem interval_middle (lowerEnd : Option Int) (x : Binary64) :
    (x.interval lowerEnd).middle = x.significand * 2 ^ x.exponent := by
  have h := quarter x
  change ((4 * x.significand * (scaled 1 (x.exponent - 2)).1 : Nat) : ℚ) /
    (scaled 1 (x.exponent - 2)).2 = _
  rw [Nat.cast_mul, mul_div_assoc, h]
  push_cast
  ring

theorem interval_highEnd (lowerEnd : Option Int) (x : Binary64) :
    (x.interval lowerEnd).highEnd = (x.significand + 1 / 2) * 2 ^ x.exponent := by
  have h := quarter x
  change (((4 * x.significand + 2) * (scaled 1 (x.exponent - 2)).1 : Nat) : ℚ) /
    (scaled 1 (x.exponent - 2)).2 = _
  rw [Nat.cast_mul, mul_div_assoc, h]
  push_cast
  ring

theorem interval_lowEnd (lowerEnd : Option Int) (hzero : x.isZero = false) :
    (x.interval lowerEnd).lowEnd = (x.significand - x.reachBelow) * 2 ^ x.exponent := by
  have h := quarter x
  have hs := significand_pos hzero
  change (((4 * x.significand - if x.significand = hiddenBit ∧ 1 < x.biasedExponent then 1 else 2) *
    (scaled 1 (x.exponent - 2)).1 : Nat) : ℚ) / (scaled 1 (x.exponent - 2)).2 = _
  rw [Nat.cast_mul, mul_div_assoc, h, reachBelow]
  split
  · rw [Nat.cast_sub (by omega)]
    push_cast
    ring
  · rw [Nat.cast_sub (by omega)]
    push_cast
    ring

/-- Decimals in the interval of a number are near it. -/
theorem near_of_contains (hzero : x.isZero = false) {t : Decimal}
    (h : (x.interval lowerEnd).contains t = true) : Near x t.value := by
  rw [Interval.contains_iff (interval_denominator lowerEnd x), interval_lowEnd lowerEnd hzero,
    interval_highEnd lowerEnd x] at h
  obtain ⟨hl, hh⟩ := h
  refine ⟨?_, ?_, fun hodd => ?_⟩
  · split at hl
    · exact hl
    · exact hl.le
  · split at hh
    · exact hh
    · exact hh.le
  · have hlow : (x.interval lowerEnd).lowClosed = false := by simp [interval, hodd]
    have hhigh : (x.interval lowerEnd).highClosed = false := by simp [interval, hodd]
    rw [hlow] at hl
    rw [hhigh] at hh
    exact ⟨hl, hh⟩

-- ---------------------------------------------------------------------------
-- The search
-- ---------------------------------------------------------------------------

namespace Interval

/-- Of the two decimals of a grid around the value, the one that is taken. -/
def select (i : Interval) (below above : Decimal) (preferBelow : Bool) : Option Decimal :=
  match i.contains below, i.contains above with
  | true, true => some (if preferBelow then below else above)
  | true, false => some below
  | false, true => some above
  | false, false => none

theorem nearest_eq {i : Interval} (hd : 0 < i.denominator) (tie : Tie) (e : Int) :
    ∃ (k : Nat) (preferBelow : Bool), (k : ℚ) * 10 ^ e ≤ i.middle ∧ i.middle < (k + 1) * 10 ^ e ∧
      i.nearest? tie e = i.select ⟨k, e⟩ ⟨k + 1, e⟩ preferBelow := by
  have hq : (0 : ℚ) < i.denominator := by exact_mod_cast hd
  have hsplit : ∃ n d : Nat, 0 < d ∧ (n : ℚ) / d * 10 ^ e = i.middle ∧
      (if e < 0 then (i.value * Nat.pow 10 e.natAbs, i.denominator)
        else (i.value, i.denominator * Nat.pow 10 e.natAbs)) = (n, d) := by
    split
    · next h =>
      refine ⟨_, _, hd, ?_, rfl⟩
      rw [middle, zpow_of_neg 10 h, Nat.cast_mul, Nat.pow_eq, Nat.cast_pow, mul_div_right_comm,
        mul_assoc]
      exact (congrArg _ (mul_inv_cancel₀ (by positivity))).trans (mul_one _)
    · next h =>
      refine ⟨_, _, Nat.mul_pos hd (Nat.pow_pos (by decide)), ?_, rfl⟩
      rw [middle, zpow_of_nonneg 10 (not_lt.mp h), Nat.cast_mul, Nat.cast_pow, ← div_div]
      exact div_mul_cancel₀ _ (by positivity)
  obtain ⟨n, d, hpos, hvalue, hpair⟩ := hsplit
  have hdq : (0 : ℚ) < d := by exact_mod_cast hpos
  refine ⟨n / d, 2 * (n % d) < d || (2 * (n % d) == d && tie == .even && n / d % 2 == 0), ?_, ?_, ?_⟩
  · rw [← hvalue]
    gcongr
    exact Nat.cast_div_le
  · rw [← hvalue]
    gcongr
    rw [div_lt_iff₀ hdq]
    exact_mod_cast (Nat.div_lt_iff_lt_mul hpos).mp (Nat.lt_succ_self _)
  · exact congrArg (fun p : Nat × Nat => i.select ⟨p.1 / p.2, e⟩ ⟨p.1 / p.2 + 1, e⟩
      (2 * (p.1 % p.2) < p.2 || (2 * (p.1 % p.2) == p.2 && tie == .even && p.1 / p.2 % 2 == 0))) hpair

theorem select_contains {i : Interval} (h : i.select below above b = some t) :
    i.contains t = true := by
  unfold select at h
  split at h
  · next hb ha =>
    obtain rfl := Option.some.inj h
    split
    · exact hb
    · exact ha
  · next hb _ => exact Option.some.inj h ▸ hb
  · next _ ha => exact Option.some.inj h ▸ ha
  · contradiction

theorem select_isSome {i : Interval} (h : i.contains below = true ∨ i.contains above = true) :
    (i.select below above b).isSome = true := by
  unfold select
  split <;> simp_all

/-- The search ends in the interval if one of the grids that it tries has a decimal there. -/
theorem search_contains {i : Interval} (hd : 0 < i.denominator) (h : k < n)
    (hs : (i.nearest? tie (e - k)).isSome) :
    i.contains (i.search tie n e) = true := by
  induction n generalizing k e with
  | zero => omega
  | succ n ih =>
    rw [search]
    cases hfound : i.nearest? tie e with
    | some t =>
      obtain ⟨_, _, -, -, heq⟩ := nearest_eq hd tie e
      exact select_contains (heq ▸ hfound)
    | none =>
      obtain rfl | hk : k = 0 ∨ 0 < k := Nat.eq_zero_or_pos k
      · simp [hfound] at hs
      · refine ih (k := k - 1) (by omega) ?_
        rwa [show e - 1 - ((k - 1 : Nat) : Int) = e - k by omega]

end Interval

theorem floorLog10_le (hn : 0 < n) (hd : 0 < d) : (10 : ℚ) ^ floorLog10 n d ≤ n / d := by
  have hnq : (0 : ℚ) < n := by exact_mod_cast hn
  have hdq : (0 : ℚ) < d := by exact_mod_cast hd
  unfold floorLog10
  split
  · next h =>
    have hpos : 0 < n / d := Nat.div_pos h hd
    obtain ⟨hl, -⟩ := decimalLength_bounds hpos
    have hlen := decimalLength_pos (n / d)
    rw [show (decimalLength (n / d) : Int) - 1 = (decimalLength (n / d) - 1 : Nat) by omega,
      zpow_natCast]
    calc (10 : ℚ) ^ (decimalLength (n / d) - 1) ≤ (n / d : Nat) := by exact_mod_cast hl
      _ ≤ n / d := Nat.cast_div_le
  · next h =>
    have hpos : 0 < d / n := Nat.div_pos (by omega) hn
    have hlen := decimalLength_pos (d / n)
    simp only
    rw [le_div_iff₀ hdq]
    split
    · next hreached =>
      rw [zpow_neg, zpow_natCast, inv_mul_le_iff₀ (by positivity), mul_comm]
      exact_mod_cast hreached
    · obtain ⟨-, hh⟩ := decimalLength_bounds hpos
      have hlt : d < 10 ^ decimalLength (d / n) * n := (Nat.div_lt_iff_lt_mul hn).mp hh
      rw [show (-(((decimalLength (d / n) - 1 : Nat) : Int) + 1)) = -(decimalLength (d / n) : Int) by
        omega, zpow_neg, zpow_natCast, inv_mul_le_iff₀ (by positivity)]
      exact_mod_cast hlt.le

/-- Seventeen digits are enough. -/
theorem nearest_isSome_of_seventeen (tie : Tie) (lowerEnd : Option Int) (hzero : x.isZero = false) :
    ((x.interval lowerEnd).nearest? tie
      (floorLog10 (x.interval lowerEnd).value (x.interval lowerEnd).denominator - 16)).isSome := by
  have hd := interval_denominator lowerEnd x
  have hu : (0 : ℚ) < 2 ^ x.exponent := by positivity
  have hs : (0 : ℚ) < x.significand := by exact_mod_cast significand_pos hzero
  have hlt : (x.significand : ℚ) < 2 ^ 53 := by exact_mod_cast x.significand_lt
  have hmid := interval_middle lowerEnd x
  have hv : 0 < (x.interval lowerEnd).value := by
    refine Nat.pos_of_ne_zero fun h => ?_
    rw [Interval.middle, h, Nat.cast_zero, zero_div] at hmid
    exact absurd hmid (ne_of_lt (by positivity))
  have hlog := floorLog10_le hv hd
  rw [← Interval.middle, hmid] at hlog
  generalize floorLog10 _ _ = e at *
  obtain ⟨k, preferBelow, hbelow, habove, heq⟩ := Interval.nearest_eq hd tie (e - 16)
  rw [hmid] at hbelow habove
  -- The grid is finer than the unit in the last place, and than half of it below a power of two.
  have hgrid : (10 : ℚ) ^ (e - 16) * 10 ^ 16 ≤ x.significand * 2 ^ x.exponent := by
    rw [← zpow_natCast, ← zpow_add₀ (by decide)]
    simpa using hlog
  have hlow := interval_lowEnd lowerEnd hzero
  have hhigh := interval_highEnd lowerEnd x
  have hvalue (t : Nat) : (⟨t, e - 16⟩ : Decimal).value = t * 10 ^ (e - 16) := rfl
  have hcontains {t : Nat} := Interval.contains_of_between hd (t := ⟨t, e - 16⟩)
  simp only [hvalue, hlow, hhigh] at hcontains
  have hpos : (0 : ℚ) < 10 ^ (e - 16) := by positivity
  generalize (10 : ℚ) ^ (e - 16) = g at *
  generalize (2 : ℚ) ^ x.exponent = u at *
  have hsu := mul_lt_mul_of_pos_right hlt hu
  rw [heq]
  refine Interval.select_isSome ?_
  by_cases hpow : x.significand = hiddenBit ∧ 1 < x.biasedExponent
  · have hreach : x.reachBelow = 1 / 4 := if_pos hpow
    have hs : (x.significand : ℚ) = 2 ^ 52 := by rw [hpow.1]; norm_num [hiddenBit]
    rw [hs] at hgrid habove hbelow hcontains
    rw [hreach] at hcontains
    refine .inr (hcontains ?_ ?_)
    · push_cast
      linarith
    · push_cast
      linarith
  · have hreach : x.reachBelow = 1 / 2 := if_neg hpow
    rw [hreach] at hcontains
    by_cases hnear : (x.significand - 1 / 2) * u < k * g
    · exact .inl (hcontains hnear (by linarith))
    · refine .inr (hcontains ?_ ?_)
      · push_cast
        linarith
      · push_cast
        linarith

-- ---------------------------------------------------------------------------
-- The decimal
-- ---------------------------------------------------------------------------

theorem trim_go_value (n : Nat) (t : Decimal) : (Decimal.trim.go n t).value = t.value := by
  induction n generalizing t with
  | zero => rfl
  | succ n ih =>
    rw [Decimal.trim.go]
    split
    · next h =>
      have hdigits : t.digits = t.digits / 10 * 10 := by omega
      rw [ih, Decimal.value, Decimal.value, zpow_add₀ (by decide), zpow_one]
      nth_rewrite 2 [hdigits]
      push_cast
      ring
    · rfl

/-- The shortest decimal of a number is near it. -/
theorem shortest_near (tie : Tie) (lowerEnd : Option Int) (hzero : x.isZero = false) :
    Near x (x.shortest tie lowerEnd).value := by
  have h := Interval.search_contains (k := 16) (n := 17) (interval_denominator lowerEnd x) (by decide)
    (nearest_isSome_of_seventeen tie lowerEnd hzero)
  unfold shortest
  rw [hzero]
  simp only [Bool.false_eq_true, if_false]
  rw [Decimal.trim, trim_go_value]
  exact near_of_contains hzero h

/-- Any decimal of the value of the shortest one reads back as the number. -/
theorem ofDecimal_shortest (negative : Bool) (tie : Tie) (lowerEnd : Option Int)
    (hfinite : x.isFinite = true) (h : (m * 10 ^ e : ℚ) = (x.shortest tie lowerEnd).value) :
    ofDecimal negative m e = ofMagnitude negative x.magnitude := by
  cases hzero : x.isZero with
  | false => exact ofDecimal_of_near negative hfinite hzero (h ▸ shortest_near tie lowerEnd hzero)
  | true =>
    have hmag : x.magnitude = 0 := by simpa [isZero] using hzero
    have hvalue : (x.shortest tie lowerEnd).value = 0 := by
      simp [shortest, hzero, Decimal.value]
    have hm : m = 0 := by
      rw [hvalue, mul_eq_zero] at h
      exact_mod_cast h.resolve_right (by positivity)
    rw [hm, hmag, ofDecimal, if_pos rfl]

end Binary64
end Qua
