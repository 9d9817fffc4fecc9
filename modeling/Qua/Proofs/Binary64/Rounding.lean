import Mathlib.Algebra.Order.Field.Power
import Mathlib.Algebra.Order.Field.Rat
import Mathlib.Tactic.FieldSimp
import Mathlib.Tactic.Linarith
import Mathlib.Tactic.Positivity
import Qua.Binary64.Rounding

/-!
# Rounding to a given number

The quotients that round to a given finite number: those no further from it than half the way to its
neighbours, the ends included where its significand is even (`Near`).
-/

namespace Qua.Binary64

variable {n d m : Nat} {e : Int} {x : Binary64}

-- ---------------------------------------------------------------------------
-- Powers and quotients
-- ---------------------------------------------------------------------------

theorem zpow_of_neg (b : ℚ) (h : e < 0) : b ^ e = (b ^ e.natAbs)⁻¹ := by
  obtain ⟨n, rfl⟩ := Int.exists_eq_neg_ofNat h.le
  simp

theorem zpow_of_nonneg (b : ℚ) (h : 0 ≤ e) : b ^ e = b ^ e.natAbs := by
  obtain ⟨n, rfl⟩ := Int.eq_ofNat_of_zero_le h
  simp

theorem scaled_pos (m : Nat) (e : Int) : 0 < (scaled m e).2 := by
  unfold scaled
  split
  · exact Nat.pow_pos (by decide)
  · exact Nat.one_pos

theorem scaled_div (m : Nat) (e : Int) : ((scaled m e).1 : ℚ) / (scaled m e).2 = m * 2 ^ e := by
  unfold scaled
  split
  · next h => simp [zpow_of_neg 2 h, div_eq_mul_inv]
  · next h => simp [zpow_of_nonneg 2 (not_lt.mp h)]

/-- The natural is the one to which the quotient is rounded. -/
structure RoundsTo (q : ℚ) (m : Nat) : Prop where
  low : m - 1 / 2 ≤ q
  high : q ≤ m + 1 / 2
  odd : m % 2 = 1 → m - 1 / 2 < q ∧ q < m + 1 / 2

theorem roundQuotient_eq (hd : 0 < d) (h : RoundsTo ((n : ℚ) / d) m) : roundQuotient n d = m := by
  have hq : (0 : ℚ) < d := by exact_mod_cast hd
  have hlow : 2 * (m * d) ≤ 2 * n + d := by
    have hl := h.low
    rw [le_div_iff₀ hq] at hl
    have hl : (2 * (m * d) : ℚ) ≤ 2 * n + d := by linarith
    exact_mod_cast hl
  have hhigh : 2 * n ≤ 2 * (m * d) + d := by
    have hl := h.high
    rw [div_le_iff₀ hq] at hl
    have hl : (2 * n : ℚ) ≤ 2 * (m * d) + d := by linarith
    exact_mod_cast hl
  have hodd : m % 2 = 1 → 2 * (m * d) < 2 * n + d ∧ 2 * n < 2 * (m * d) + d := by
    intro hm
    obtain ⟨hl, hh⟩ := h.odd hm
    rw [lt_div_iff₀ hq] at hl
    rw [div_lt_iff₀ hq] at hh
    have hl : (2 * (m * d) : ℚ) < 2 * n + d := by linarith
    have hh : (2 * n : ℚ) < 2 * (m * d) + d := by linarith
    exact ⟨by exact_mod_cast hl, by exact_mod_cast hh⟩
  have hdiv := Nat.div_add_mod n d
  have hmod := Nat.mod_lt n hd
  have hle : n / d ≤ m := by
    by_contra hc
    have := Nat.mul_le_mul_right d (show m + 1 ≤ n / d by omega)
    rw [Nat.add_mul, Nat.one_mul, Nat.mul_comm (n / d)] at this
    omega
  have hge : m ≤ n / d + 1 := by
    by_contra hc
    have := Nat.mul_le_mul_right d (show n / d + 2 ≤ m by omega)
    rw [Nat.add_mul, Nat.mul_comm (n / d)] at this
    omega
  unfold roundQuotient
  obtain hm | hm : m = n / d ∨ m = n / d + 1 := by omega
  · rw [hm, Nat.mul_comm (n / d)] at hlow hhigh hodd
    simp only
    split
    · omega
    · split <;> omega
  · rw [hm, Nat.add_mul, Nat.mul_comm (n / d)] at hlow hhigh hodd
    simp only
    split
    · omega
    · split <;> omega

-- ---------------------------------------------------------------------------
-- Exponents
-- ---------------------------------------------------------------------------

/-- The quotient is compared with a power of two in naturals. -/
theorem pow_le_div (hd : 0 < d) :
    (if e < 0 then decide (d ≤ n * Nat.pow 2 e.natAbs) else decide (d * Nat.pow 2 e.natAbs ≤ n)) = true ↔
      (2 : ℚ) ^ e ≤ n / d := by
  have hq : (0 : ℚ) < d := by exact_mod_cast hd
  rw [le_div_iff₀ hq]
  split
  · next h =>
    rw [decide_eq_true_eq, zpow_of_neg 2 h, inv_mul_le_iff₀ (by positivity), mul_comm]
    exact_mod_cast Iff.rfl
  · next h =>
    rw [decide_eq_true_eq, zpow_of_nonneg 2 (not_lt.mp h), mul_comm]
    exact_mod_cast Iff.rfl

/-- A natural lies between two powers of two. -/
theorem log2_bounds (hn : 0 < n) : (2 : ℚ) ^ (n.log2 : Int) ≤ n ∧ (n : ℚ) < 2 ^ (n.log2 + 1 : Int) := by
  have hl := Nat.log2_self_le hn.ne'
  have hh := Nat.lt_log2_self (n := n)
  constructor
  · rw [zpow_natCast]
    exact_mod_cast hl
  · exact_mod_cast hh

theorem floorLog2_bounds (hn : 0 < n) (hd : 0 < d) :
    (2 : ℚ) ^ floorLog2 n d ≤ n / d ∧ (n / d : ℚ) < 2 ^ (floorLog2 n d + 1) := by
  have hq : (0 : ℚ) < d := by exact_mod_cast hd
  obtain ⟨hnl, hnh⟩ := log2_bounds hn
  obtain ⟨hdl, hdh⟩ := log2_bounds hd
  have hlow : (2 : ℚ) ^ ((n.log2 : Int) - d.log2 - 1) ≤ n / d := by
    rw [le_div_iff₀ hq]
    calc (2 : ℚ) ^ ((n.log2 : Int) - d.log2 - 1) * d
        ≤ 2 ^ ((n.log2 : Int) - d.log2 - 1) * 2 ^ (d.log2 + 1 : Int) := by gcongr
      _ = 2 ^ (n.log2 : Int) := by rw [← zpow_add₀ (by decide)]; congr 1; omega
      _ ≤ n := hnl
  have hhigh : (n / d : ℚ) < 2 ^ ((n.log2 : Int) - d.log2 + 1) := by
    rw [div_lt_iff₀ hq]
    calc (n : ℚ) < 2 ^ (n.log2 + 1 : Int) := hnh
      _ = 2 ^ ((n.log2 : Int) - d.log2 + 1) * 2 ^ (d.log2 : Int) := by
        rw [← zpow_add₀ (by decide)]; congr 1; omega
      _ ≤ 2 ^ ((n.log2 : Int) - d.log2 + 1) * d := by gcongr
  have hreached := pow_le_div (n := n) (e := (n.log2 : Int) - d.log2) hd
  have hdef : floorLog2 n d = if (2 : ℚ) ^ ((n.log2 : Int) - d.log2) ≤ n / d
      then (n.log2 : Int) - d.log2 else n.log2 - d.log2 - 1 := if_congr hreached rfl rfl
  rw [hdef]
  split
  · next h => exact ⟨h, hhigh⟩
  · next h => exact ⟨hlow, by rw [sub_add_cancel]; exact not_le.mp h⟩

-- ---------------------------------------------------------------------------
-- Magnitudes
-- ---------------------------------------------------------------------------

theorem bits_ofMagnitude (h : m < signBit) : (ofMagnitude false m).bits.toNat = m := by
  have hsign : signBit = 2 ^ 63 := by decide
  rw [ofMagnitude, UInt64.toNat_ofNat']
  exact Nat.mod_eq_of_lt (by simp only [Bool.false_eq_true, if_false]; omega)

theorem isNegative_ofMagnitude (h : m < signBit) : (ofMagnitude false m).isNegative = false := by
  simp [isNegative, bits_ofMagnitude h, h]

theorem magnitude_ofMagnitude {negative : Bool} (h : m < signBit) :
    (ofMagnitude negative m).magnitude = m := by
  have hsign : signBit = 2 ^ 63 := by decide
  rw [magnitude, ofMagnitude, UInt64.toNat_ofNat', hsign]
  rw [hsign] at h
  cases negative <;> simp only [Bool.false_eq_true, if_false, if_true] <;> omega

-- ---------------------------------------------------------------------------
-- Near a number
-- ---------------------------------------------------------------------------

/-- A quotient rounded at the exponent that fits it. -/
theorem ofRatio_eq (negative : Bool) (hn : 0 < n) (hd : 0 < d)
    (he : max (floorLog2 n d - 52) (-1074) = e) (hm : RoundsTo (n / d / 2 ^ e) m)
    (hfinite : (e + 1074).toNat * hiddenBit + m ≤ infiniteMagnitude) :
    ofRatio negative n d = ofMagnitude negative ((e + 1074).toNat * hiddenBit + m) := by
  have hround : (if e < 0 then roundQuotient (n * Nat.pow 2 e.natAbs) d
      else roundQuotient n (d * Nat.pow 2 e.natAbs)) = m := by
    split
    · next h =>
      refine roundQuotient_eq hd ?_
      rw [zpow_of_neg 2 h, div_inv_eq_mul] at hm
      have hq : ((n * Nat.pow 2 e.natAbs : Nat) : ℚ) / d = n / d * 2 ^ e.natAbs := by
        rw [Nat.pow_eq, Nat.cast_mul, Nat.cast_pow, mul_div_right_comm]
        rfl
      exact hq ▸ hm
    · next h =>
      refine roundQuotient_eq (Nat.mul_pos hd (Nat.pow_pos (by decide))) ?_
      rw [zpow_of_nonneg 2 (not_lt.mp h), div_div] at hm
      have hq : ((d * Nat.pow 2 e.natAbs : Nat) : ℚ) = d * 2 ^ e.natAbs := by
        rw [Nat.pow_eq, Nat.cast_mul, Nat.cast_pow]
        rfl
      exact hq ▸ hm
  simp only [ofRatio, hn.ne', if_false, he, hround, Nat.min_eq_left hfinite]

/-- How far the quotients that round to a number reach below it, in units in its last place. -/
def reachBelow (x : Binary64) : ℚ :=
  if x.significand = hiddenBit ∧ 1 < x.biasedExponent then 1 / 4 else 1 / 2

/-- The quotient is no further from the magnitude than half the way to a neighbour. -/
structure Near (x : Binary64) (q : ℚ) : Prop where
  low : (x.significand - x.reachBelow) * 2 ^ x.exponent ≤ q
  high : q ≤ (x.significand + 1 / 2) * 2 ^ x.exponent
  odd : x.significand % 2 = 1 →
    (x.significand - x.reachBelow) * 2 ^ x.exponent < q ∧
      q < (x.significand + 1 / 2) * 2 ^ x.exponent

/-- The magnitude of a finite number is its significand and exponent put together. -/
theorem magnitude_eq (x : Binary64) :
    (x.exponent + 1074).toNat * hiddenBit + x.significand = x.magnitude := by
  have h := Nat.div_add_mod x.magnitude hiddenBit
  unfold exponent significand fraction
  unfold biasedExponent
  split
  · next hz =>
    rw [hz] at h ⊢
    simpa using h
  · next hz =>
    obtain ⟨k, hk⟩ := Nat.exists_eq_succ_of_ne_zero hz
    rw [hk, Nat.succ_eq_add_one, Nat.mul_add, Nat.mul_comm] at h
    have hnat : (((max (k + 1) 1 : Nat) : Int) - 1075 + 1074).toNat = k := by omega
    rw [hk, Nat.succ_eq_add_one, hnat]
    omega

theorem exponent_ge (x : Binary64) : -1074 ≤ x.exponent := by
  unfold exponent
  omega

theorem significand_lt (x : Binary64) : x.significand < 2 ^ 53 := by
  have h : x.fraction < hiddenBit := Nat.mod_lt _ (by decide)
  have hb : hiddenBit + hiddenBit = 2 ^ 53 := by decide
  unfold significand
  split <;> omega

/-- Above the least exponent all numbers are normal. -/
theorem normal_of_exponent (h : -1074 < x.exponent) :
    1 < x.biasedExponent ∧ hiddenBit ≤ x.significand := by
  have hb : 1 < x.biasedExponent := by
    unfold exponent at h
    omega
  refine ⟨hb, ?_⟩
  unfold significand
  split <;> omega

theorem significand_pos (h : x.isZero = false) : 0 < x.significand := by
  have hm := x.magnitude_eq
  have hz : x.magnitude ≠ 0 := by simpa [isZero] using h
  by_cases he : -1074 < x.exponent
  · have hb : 0 < hiddenBit := by decide
    have := (normal_of_exponent he).2
    omega
  · have hnat : (x.exponent + 1074).toNat = 0 := by omega
    rw [hnat, Nat.zero_mul, Nat.zero_add] at hm
    omega

theorem exponent_le (h : x.isFinite = true) : x.exponent ≤ 971 := by
  have hb : x.biasedExponent < 2047 := by
    have h : x.magnitude < 2047 * hiddenBit := of_decide_eq_true h
    exact Nat.div_lt_of_lt_mul (by rwa [Nat.mul_comm] at h)
  unfold exponent
  omega

theorem reachBelow_le (x : Binary64) : x.reachBelow ≤ 1 / 2 := by
  unfold reachBelow
  split <;> norm_num

/-- Quotients near a number are below the next binade. -/
theorem Near.lt (h : Near x q) : q < 2 ^ (53 + x.exponent) := by
  have hs : (x.significand + 1 / 2 : ℚ) < 2 ^ 53 := by
    have hlt := x.significand_lt
    have hlt : (x.significand : ℚ) + 1 ≤ 2 ^ 53 := by exact_mod_cast hlt
    linarith
  calc q ≤ (x.significand + 1 / 2) * 2 ^ x.exponent := h.high
    _ < 2 ^ 53 * 2 ^ x.exponent := by gcongr
    _ = 2 ^ (53 + x.exponent) := by rw [zpow_add₀ (by decide)]; rfl

/-- A quotient near a number is rounded to it. -/
theorem ofRatio_of_near (negative : Bool) (hfinite : x.isFinite = true) (hn : 0 < n) (hd : 0 < d)
    (h : Near x (n / d)) : ofRatio negative n d = ofMagnitude negative x.magnitude := by
  obtain ⟨hfl, hfh⟩ := floorLog2_bounds hn hd
  generalize hq : (n / d : ℚ) = q at *
  have hmag : x.magnitude ≤ infiniteMagnitude := by
    simp only [isFinite, decide_eq_true_eq] at hfinite
    omega
  have hu : (0 : ℚ) < 2 ^ x.exponent := by positivity
  have hge := x.exponent_ge
  have htop : floorLog2 n d < 53 + x.exponent :=
    (zpow_lt_zpow_iff_right₀ (by norm_num : (1 : ℚ) < 2)).mp (hfl.trans_lt h.lt)
  by_cases hnormal : x.exponent = -1074 ∨ 2 ^ (52 + x.exponent) ≤ q
  · -- The quotient is in the binade of the number.
    have he : max (floorLog2 n d - 52) (-1074) = x.exponent := by
      obtain hmin | hlow := hnormal
      · omega
      · have := (zpow_lt_zpow_iff_right₀ (by norm_num : (1 : ℚ) < 2)).mp (hlow.trans_lt hfh)
        omega
    rw [← x.magnitude_eq] at hmag ⊢
    refine ofRatio_eq negative hn hd he ?_ hmag
    rw [hq]
    have hb := x.reachBelow_le
    refine ⟨?_, ?_, fun hodd => ?_⟩
    · rw [le_div_iff₀ hu]
      exact (by gcongr : _ ≤ (x.significand - x.reachBelow) * (2 : ℚ) ^ x.exponent).trans h.low
    · rw [div_le_iff₀ hu]
      exact h.high
    · rw [lt_div_iff₀ hu, div_lt_iff₀ hu]
      obtain ⟨hl, hh⟩ := h.odd hodd
      exact ⟨(by gcongr : _ ≤ (x.significand - x.reachBelow) * (2 : ℚ) ^ x.exponent).trans_lt hl, hh⟩
  · -- The number is a power of two, and the quotient in the binade below it.
    obtain ⟨hmin, hlow⟩ := not_or.mp hnormal
    rw [not_le] at hlow
    obtain ⟨hbiased, hhidden⟩ := normal_of_exponent (x := x) (by omega)
    have hpow : (2 : ℚ) ^ (52 + x.exponent) = 2 ^ 52 * 2 ^ x.exponent := by
      rw [zpow_add₀ (by decide)]; rfl
    have hs : x.significand = hiddenBit := by
      have hb := x.reachBelow_le
      have hl := h.low.trans_lt hlow
      rw [hpow, mul_lt_mul_iff_left₀ hu] at hl
      have hl : (x.significand : ℚ) < 2 ^ 52 + 1 := by linarith
      have hl : x.significand < 2 ^ 52 + 1 := by exact_mod_cast hl
      have hh : hiddenBit = 2 ^ 52 := by decide
      omega
    have hreach : x.reachBelow = 1 / 4 := if_pos ⟨hs, hbiased⟩
    have hbelow := h.low
    rw [hreach, hs, show ((hiddenBit : Nat) : ℚ) = 2 ^ 52 by norm_num [hiddenBit]] at hbelow
    have he : max (floorLog2 n d - 52) (-1074) = x.exponent - 1 := by
      have hlt := (zpow_lt_zpow_iff_right₀ (by norm_num : (1 : ℚ) < 2)).mp (hfl.trans_lt hlow)
      have hbinade : (2 : ℚ) ^ (51 + x.exponent) ≤ q := by
        calc (2 : ℚ) ^ (51 + x.exponent) = 2 ^ 51 * 2 ^ x.exponent := by
              rw [zpow_add₀ (by decide)]; rfl
          _ ≤ (2 ^ 52 - 1 / 4) * 2 ^ x.exponent := by gcongr; norm_num
          _ ≤ q := hbelow
      have hgt := (zpow_lt_zpow_iff_right₀ (by norm_num : (1 : ℚ) < 2)).mp (hbinade.trans_lt hfh)
      omega
    have hmag' : (x.exponent - 1 + 1074).toNat * hiddenBit + 2 ^ 53 = x.magnitude := by
      rw [← x.magnitude_eq, hs]
      have hnat : (x.exponent + 1074).toNat = (x.exponent - 1 + 1074).toNat + 1 := by omega
      have htwo : (2 : Nat) ^ 53 = hiddenBit + hiddenBit := by decide
      rw [hnat, Nat.add_mul, htwo]
      omega
    rw [← hmag'] at hmag ⊢
    refine ofRatio_eq negative hn hd he ?_ hmag
    have hhalf : q / 2 ^ (x.exponent - 1) = 2 * (q / 2 ^ x.exponent) := by
      rw [zpow_sub₀ (by decide), zpow_one]
      field_simp
    rw [hpow] at hlow
    rw [← le_div_iff₀ hu] at hbelow
    rw [← div_lt_iff₀ hu] at hlow
    rw [hq, hhalf]
    refine ⟨?_, ?_, fun hodd => ?_⟩
    · push_cast
      linarith
    · push_cast
      linarith
    · exact absurd hodd (by decide)

end Qua.Binary64
