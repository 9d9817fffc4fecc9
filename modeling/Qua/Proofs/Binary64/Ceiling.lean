import Mathlib.Algebra.Order.Floor.Ring
import Mathlib.Algebra.Order.Floor.Semiring
import Mathlib.Data.Rat.Floor
import Mathlib.Tactic.Ring
import Qua.Proofs.Binary64.Rounding

/-!
# Rounded quotients rounded up

A quotient of two naturals of which the first is at most `2 ^ 53` is rounded to a number that has
the same least integer above it, unless the quotient is at most one (`ceil_ofRatio`): the integers
next to the quotient are numbers themselves, and it is further from the one below it than half of a
unit in its last place.
-/

namespace Qua.Binary64

variable {n d m c : Nat} {e : Int} {q : ℚ} {x : Binary64}

/-- The magnitude of a finite number. -/
def size (x : Binary64) : ℚ := x.significand * 2 ^ x.exponent

theorem ratio_pos (x : Binary64) : 0 < x.ratio.2 := scaled_pos _ _

theorem ratio_div (x : Binary64) : (x.ratio.1 : ℚ) / x.ratio.2 = x.size := scaled_div _ _

-- ---------------------------------------------------------------------------
-- Magnitudes put together
-- ---------------------------------------------------------------------------

/-- A significand and an exponent put together, the significand being a normal one if it can. -/
theorem size_ofMagnitude (he : -1074 ≤ e) (hm : m ≤ 2 ^ 53) (hnormal : hiddenBit ≤ m ∨ e = -1074)
    (htop : (e + 1074).toNat * hiddenBit + m < signBit) :
    (ofMagnitude false ((e + 1074).toNat * hiddenBit + m)).size = m * 2 ^ e := by
  obtain ⟨k, hk⟩ : ∃ k : Nat, e = k - 1074 := ⟨(e + 1074).toNat, by omega⟩
  have hnat : (e + 1074).toNat = k := by omega
  rw [hnat] at htop ⊢
  have hhidden : hiddenBit = 2 ^ 52 := by decide
  have hcast : ((hiddenBit : Nat) : ℚ) = 2 ^ 52 := by norm_num [hiddenBit]
  -- The biased exponent and the fraction, by where the significand lies.
  obtain hsub | ⟨hlow, hlt⟩ | rfl : m < hiddenBit ∨ (hiddenBit ≤ m ∧ m < 2 ^ 53) ∨ m = 2 ^ 53 := by omega
  · have hz : k = 0 := by omega
    subst hz
    rw [Nat.zero_mul, Nat.zero_add] at htop ⊢
    have hb : (ofMagnitude false m).biasedExponent = 0 := by
      rw [biasedExponent, magnitude_ofMagnitude htop, Nat.div_eq_of_lt hsub]
    have hf : (ofMagnitude false m).fraction = m := by
      rw [fraction, magnitude_ofMagnitude htop, Nat.mod_eq_of_lt hsub]
    rw [size, significand, exponent, hb, if_pos rfl, hf, hk]
    rfl
  · have hsplit : k * hiddenBit + m = (m - hiddenBit) + hiddenBit * (k + 1) := by
      rw [Nat.mul_add, Nat.mul_comm]
      omega
    have hb : (ofMagnitude false (k * hiddenBit + m)).biasedExponent = k + 1 := by
      rw [biasedExponent, magnitude_ofMagnitude htop, hsplit, Nat.add_mul_div_left _ _ (by decide),
        Nat.div_eq_of_lt (by omega), Nat.zero_add]
    have hf : (ofMagnitude false (k * hiddenBit + m)).fraction = m - hiddenBit := by
      rw [fraction, magnitude_ofMagnitude htop, hsplit, Nat.add_mul_mod_self_left,
        Nat.mod_eq_of_lt (by omega)]
    rw [size, significand, exponent, hb, if_neg (Nat.succ_ne_zero k), hf,
      show hiddenBit + (m - hiddenBit) = m by omega]
    congr 2
    omega
  · have hsplit : k * hiddenBit + 2 ^ 53 = hiddenBit * (k + 2) := by
      rw [Nat.mul_add, Nat.mul_comm, hhidden]
      omega
    have hb : (ofMagnitude false (k * hiddenBit + 2 ^ 53)).biasedExponent = k + 2 := by
      rw [biasedExponent, magnitude_ofMagnitude htop, hsplit, Nat.mul_div_cancel_left _ (by decide)]
    have hf : (ofMagnitude false (k * hiddenBit + 2 ^ 53)).fraction = 0 := by
      rw [fraction, magnitude_ofMagnitude htop, hsplit, Nat.mul_mod_right]
    have hexponent : ((max (k + 2) 1 : Nat) : Int) - 1075 = e + 1 := by omega
    rw [size, significand, exponent, hb, if_neg (Nat.succ_ne_zero _), hf, hexponent,
      zpow_add₀ (by decide), Nat.add_zero, hcast]
    push_cast
    ring

-- ---------------------------------------------------------------------------
-- The nearest number
-- ---------------------------------------------------------------------------

theorem exists_roundsTo (hq : 0 ≤ q) : ∃ m, RoundsTo q m := by
  have hlow := Nat.floor_le hq
  have hhigh := Nat.lt_floor_add_one q
  obtain hlt | heq | hgt := lt_trichotomy q (⌊q⌋₊ + 1 / 2)
  · exact ⟨⌊q⌋₊, by linarith, hlt.le, fun _ => ⟨by linarith, hlt⟩⟩
  · obtain heven | hodd := Nat.mod_two_eq_zero_or_one ⌊q⌋₊
    · exact ⟨⌊q⌋₊, by linarith, heq.le, fun h => by omega⟩
    · refine ⟨⌊q⌋₊ + 1, ?_, ?_, fun h => by omega⟩
      · push_cast; linarith
      · push_cast; linarith
  · refine ⟨⌊q⌋₊ + 1, ?_, ?_, fun _ => ⟨?_, ?_⟩⟩ <;> push_cast <;> linarith

/-- The quotient `q` in units of `2 ^ e`, rounded to `m` of them. -/
structure Rounded (q : ℚ) (e : Int) (m : Nat) : Prop where
  rounds : RoundsTo (q / 2 ^ e) m
  small : q < 2 ^ (53 + e)
  normal : 2 ^ (52 + e) ≤ q ∨ e = -1074

namespace Rounded

theorem unit_pos : (0 : ℚ) < 2 ^ e := by positivity

theorem scaled_lt (h : Rounded q e m) : q / 2 ^ e < 2 ^ 53 := by
  have hs := h.small
  rw [zpow_add₀ (by decide)] at hs
  rw [div_lt_iff₀ unit_pos]
  exact_mod_cast hs

theorem le_scaled (h : Rounded q e m) (he : e ≠ -1074) : 2 ^ 52 ≤ q / 2 ^ e := by
  have hs := h.normal.resolve_right he
  rw [zpow_add₀ (by decide)] at hs
  rw [le_div_iff₀ unit_pos]
  exact_mod_cast hs

theorem significand_le (h : Rounded q e m) : m ≤ 2 ^ 53 := by
  have hlow := h.rounds.low
  have hs := h.scaled_lt
  have hlt : (m : ℚ) < 2 ^ 53 + 1 := by linarith
  have hlt : m < 2 ^ 53 + 1 := by exact_mod_cast hlt
  omega

theorem significand_normal (h : Rounded q e m) : hiddenBit ≤ m ∨ e = -1074 := by
  refine or_iff_not_imp_right.mpr fun he => ?_
  have hhigh := h.rounds.high
  have hs := h.le_scaled he
  have hlt : (2 ^ 52 : ℚ) < m + 1 := by linarith
  have hlt : 2 ^ 52 < m + 1 := by exact_mod_cast hlt
  have hhidden : hiddenBit = 2 ^ 52 := by decide
  omega

/-- An integer multiple of the unit above the quotient is above what it is rounded to. -/
theorem le_of_multiple (h : Rounded q e m) {k : Nat} (hk : q ≤ k * 2 ^ e) : m * (2 : ℚ) ^ e ≤ k * 2 ^ e := by
  have hlow := h.rounds.low
  rw [← div_le_iff₀ unit_pos] at hk
  have hlt : (m : ℚ) < k + 1 := by linarith
  have hle : m < k + 1 := by exact_mod_cast hlt
  have hle : (m : ℚ) ≤ k := by exact_mod_cast Nat.lt_succ_iff.mp hle
  gcongr

/-- A multiple of the unit is rounded to itself. -/
theorem eq_of_multiple (h : Rounded q e m) {k : Nat} (hk : q = k * 2 ^ e) : m * (2 : ℚ) ^ e = q := by
  have hdiv : q / 2 ^ e = k := by rw [hk, mul_div_cancel_right₀ _ unit_pos.ne']
  have hlow := h.rounds.low
  have hhigh := h.rounds.high
  rw [hdiv] at hlow hhigh
  have hl : (m : ℚ) < k + 1 := by linarith
  have hh : (k : ℚ) < m + 1 := by linarith
  have hl : m < k + 1 := by exact_mod_cast hl
  have hh : k < m + 1 := by exact_mod_cast hh
  rw [hk, show m = k by omega]

/-- What lies below the quotient by a `2 ^ 53`rd of it lies below what it is rounded to. -/
theorem lt_of_below (h : Rounded q e m) (he : e ≠ -1074) {t : ℚ} (ht : t ≤ q - q / 2 ^ 53) :
    t < m * 2 ^ e := by
  have hs := h.le_scaled he
  have hhigh := h.rounds.high
  have htt : t / 2 ^ e ≤ q / 2 ^ e - q / 2 ^ e / 2 ^ 53 := by
    rw [div_right_comm, ← sub_div]
    exact div_le_div_of_nonneg_right ht unit_pos.le
  rw [← div_lt_iff₀ unit_pos]
  generalize q / 2 ^ e = r at *
  generalize t / 2 ^ e = s at *
  by_contra hc
  rw [not_lt] at hc
  -- The significand would be half a unit below the least normal one.
  have hr : r = m + 1 / 2 := by linarith
  have hm : (2 * m + 1 : ℚ) ≤ 2 * 2 ^ 52 := by linarith
  have hm : 2 * m + 1 ≤ 2 * 2 ^ 52 := by exact_mod_cast hm
  have hn : (2 * 2 ^ 52 : ℚ) ≤ 2 * m + 1 := by linarith
  have hn : 2 * 2 ^ 52 ≤ 2 * m + 1 := by exact_mod_cast hn
  omega

end Rounded

/-- A quotient of at most `2 ^ 53` is rounded to some number of units, which are put together. -/
theorem ofRatio_units (hn : 0 < n) (hd : 0 < d) (hq : (n : ℚ) / d ≤ 2 ^ 53) :
    ∃ e m, -1074 ≤ e ∧ e ≤ 1 ∧ Rounded (n / d) e m ∧
      (e + 1074).toNat * hiddenBit + m < infiniteMagnitude ∧
      ∀ negative, ofRatio negative n d = ofMagnitude negative ((e + 1074).toNat * hiddenBit + m) := by
  obtain ⟨hfl, hfh⟩ := floorLog2_bounds hn hd
  obtain ⟨e, he⟩ : ∃ e, max (floorLog2 n d - 52) (-1074) = e := ⟨_, rfl⟩
  have htop : floorLog2 n d ≤ 53 := by
    have h53 : (2 : ℚ) ^ floorLog2 n d ≤ 2 ^ (53 : Int) := hfl.trans (by exact_mod_cast hq)
    exact (zpow_le_zpow_iff_right₀ (by norm_num : (1 : ℚ) < 2)).mp h53
  obtain ⟨m, hm⟩ := exists_roundsTo (q := n / d / 2 ^ e) (by positivity)
  have hrounded : Rounded (n / d) e m := by
    refine ⟨hm, hfh.trans_le (zpow_le_zpow_right₀ (by norm_num) (by omega)), ?_⟩
    by_cases hmin : e = -1074
    · exact .inr hmin
    · exact .inl ((zpow_le_zpow_right₀ (by norm_num) (by omega)).trans hfl)
  have hmle := hrounded.significand_le
  have hbelow : (e + 1074).toNat * hiddenBit + m < infiniteMagnitude := by
    have hunits : (e + 1074).toNat * hiddenBit ≤ 1075 * hiddenBit := Nat.mul_le_mul_right _ (by omega)
    have hinf : 1075 * hiddenBit + 2 ^ 53 < infiniteMagnitude := by decide
    omega
  exact ⟨e, m, by omega, by omega, hrounded, hbelow, fun negative => ofRatio_eq negative hn hd he hm hbelow.le⟩

theorem ofRatio_rounded (hn : 0 < n) (hd : 0 < d) (hq : (n : ℚ) / d ≤ 2 ^ 53) :
    ∃ e m, -1074 ≤ e ∧ e ≤ 1 ∧ Rounded (n / d) e m ∧ (ofRatio false n d).isNegative = false ∧
      (ofRatio false n d).size = m * 2 ^ e := by
  obtain ⟨e, m, hlow, hhigh, h, hbelow, heq⟩ := ofRatio_units hn hd hq
  have hsign : (e + 1074).toNat * hiddenBit + m < signBit := hbelow.trans (by decide)
  refine ⟨e, m, hlow, hhigh, h, ?_, ?_⟩
  · rw [heq, isNegative_ofMagnitude hsign]
  · rw [heq, size_ofMagnitude hlow h.significand_le h.significand_normal hsign]

/-- Integers whose absolute value is at most `2 ^ 53` are finite. -/
theorem isFinite_ofInt {n : Int} (h : n.natAbs ≤ 2 ^ 53) : (ofInt n).isFinite = true := by
  obtain rfl | hpos := eq_or_ne n 0
  · decide
  · have hq : (n.natAbs : ℚ) / (1 : Nat) ≤ 2 ^ 53 := by
      rw [Nat.cast_one, div_one]
      exact_mod_cast h
    obtain ⟨e, m, -, -, -, hbelow, heq⟩ := ofRatio_units (Int.natAbs_pos.mpr hpos) Nat.one_pos hq
    rw [ofInt, heq, isFinite, magnitude_ofMagnitude (hbelow.trans (by decide))]
    exact decide_eq_true hbelow

/-- Naturals up to `2 ^ 53` are numbers. -/
theorem ofRatio_natural (hn : 0 < n) (hle : n ≤ 2 ^ 53) :
    (ofRatio false n 1).isNegative = false ∧ (ofRatio false n 1).size = n := by
  have hq : (n : ℚ) / (1 : Nat) ≤ 2 ^ 53 := by
    rw [Nat.cast_one, div_one]
    exact_mod_cast hle
  obtain ⟨e, m, -, hhigh, h, hsign, hsize⟩ := ofRatio_rounded hn Nat.one_pos hq
  rw [Nat.cast_one, div_one] at h
  refine ⟨hsign, hsize.trans ?_⟩
  obtain he | rfl : e ≤ 0 ∨ e = 1 := by omega
  · -- Units are fractions.
    refine h.eq_of_multiple (k := n * 2 ^ e.natAbs) ?_
    obtain ⟨j, rfl⟩ := Int.exists_eq_neg_ofNat he
    push_cast
    simp
  · have hn : (2 ^ 53 : ℚ) ≤ n := by
      have := h.normal.resolve_right (by decide)
      exact_mod_cast this
    have hn : 2 ^ 53 ≤ n := by exact_mod_cast hn
    obtain rfl : n = 2 ^ 53 := by omega
    exact h.eq_of_multiple (k := 2 ^ 52) (by norm_num)

-- ---------------------------------------------------------------------------
-- The least integer above
-- ---------------------------------------------------------------------------

theorem ceil_eq (h : x.isNegative = false) : x.ceil = ⌈x.size⌉ := by
  have hpos := x.ratio_pos
  rw [← x.ratio_div]
  simp only [ceil, h, Bool.false_eq_true, if_false]
  generalize x.ratio.1 = n at *
  generalize x.ratio.2 = d at *
  have hq : (0 : ℚ) < d := by exact_mod_cast hpos
  have hdiv := Nat.div_add_mod (n + (d - 1)) d
  have hmod := Nat.mod_lt (n + (d - 1)) hpos
  generalize (n + (d - 1)) / d = k at *
  symm
  rw [Int.ceil_eq_iff]
  constructor
  · rw [lt_div_iff₀ hq]
    have hnat : k * d < n + d := by
      rw [Nat.mul_comm]
      omega
    have hrat : (k * d : ℚ) < n + d := by exact_mod_cast hnat
    push_cast
    linarith
  · rw [div_le_iff₀ hq]
    have hnat : n ≤ k * d := by
      rw [Nat.mul_comm]
      omega
    exact_mod_cast hnat

/-- The integer above a quotient is at least the number to which the quotient is rounded. -/
theorem Rounded.le_ceil (h : Rounded q e m) (he : e ≤ 1) (hpos : 0 ≤ q) (hq : q ≤ 2 ^ 53) :
    m * (2 : ℚ) ^ e ≤ ⌈q⌉ := by
  obtain ⟨c, hc⟩ := Int.eq_ofNat_of_zero_le (Int.ceil_nonneg hpos)
  have hle : q ≤ c := by
    have := Int.le_ceil q
    rwa [hc] at this
  rw [hc]
  obtain he | rfl : e ≤ 0 ∨ e = 1 := by omega
  · -- Units are fractions, of which the integer is a multiple.
    obtain ⟨j, rfl⟩ := Int.exists_eq_neg_ofNat he
    have hmultiple : ((c * 2 ^ j : Nat) : ℚ) * 2 ^ (-(j : Int)) = c := by
      push_cast
      simp
    have hbound := h.le_of_multiple (k := c * 2 ^ j) (hmultiple.symm ▸ hle)
    rw [hmultiple] at hbound
    exact_mod_cast hbound
  · have hlow : (2 ^ 53 : ℚ) ≤ q := by
      have := h.normal.resolve_right (by decide)
      exact_mod_cast this
    have hexact := h.eq_of_multiple (k := 2 ^ 52) (by rw [le_antisymm hq hlow]; norm_num)
    rw [hexact]
    exact_mod_cast hle

/-- The integer below a quotient is below the number to which the quotient is rounded. -/
theorem Rounded.ceil_sub_one_lt (h : Rounded (n / d) e m) (hd : 0 < d) (hn : n ≤ 2 ^ 53)
    (hone : 1 < (n / d : ℚ)) : (⌈(n : ℚ) / d⌉ - 1 : ℚ) < m * 2 ^ e := by
  have hdq : (0 : ℚ) < d := by exact_mod_cast hd
  have he : e ≠ -1074 := by
    rintro rfl
    have hle : (2 : ℚ) ^ (53 + -1074 : Int) ≤ 2 ^ (0 : Int) :=
      zpow_le_zpow_right₀ (by norm_num) (by decide)
    rw [zpow_zero] at hle
    exact absurd (hone.trans (h.small.trans_le hle)) (lt_irrefl 1)
  refine h.lt_of_below he ?_
  have hbelow : (⌈(n : ℚ) / d⌉ - 1 : ℚ) ≤ (n - 1) / d := by
    have hlt : ((⌈(n : ℚ) / d⌉ - 1 : Int) : ℚ) < n / d := by
      have := Int.ceil_lt_add_one ((n : ℚ) / d)
      push_cast
      linarith
    rw [lt_div_iff₀ hdq] at hlt
    have hlt : (⌈(n : ℚ) / d⌉ - 1) * (d : Int) < n := by exact_mod_cast hlt
    have hle : (⌈(n : ℚ) / d⌉ - 1) * (d : Int) ≤ n - 1 := by omega
    rw [le_div_iff₀ hdq]
    exact_mod_cast hle
  calc (⌈(n : ℚ) / d⌉ - 1 : ℚ) ≤ (n - 1) / d := hbelow
    _ = n / d - 1 / d := sub_div _ _ _
    _ ≤ n / d - n / d / 2 ^ 53 := by
      have hle : (n : ℚ) ≤ 2 ^ 53 := by exact_mod_cast hn
      rw [div_right_comm]
      gcongr
      rwa [div_le_one (by norm_num)]

/-- The quotient may be rounded up after it has been rounded to a number. -/
theorem ceil_ofRatio (hn : 0 < n) (hd : 0 < d) (hle : n ≤ 2 ^ 53) {a b : Nat} (ha : 0 < a) (hb : 0 < b)
    (hsame : (a : ℚ) / b = n / d) : max 1 (ofRatio false a b).ceil = ⌈(n : ℚ) / d⌉ := by
  have hpos : (0 : ℚ) < n / d := by positivity
  have hq : (n / d : ℚ) ≤ 2 ^ 53 := by
    have hleq : (n : ℚ) ≤ 2 ^ 53 := by exact_mod_cast hle
    have hone : (1 : ℚ) ≤ d := by exact_mod_cast hd
    exact (div_le_self (by positivity) hone).trans hleq
  obtain ⟨e, m, -, he, h, hsign, hsize⟩ := ofRatio_rounded ha hb (hsame ▸ hq)
  rw [hsame] at h
  rw [ceil_eq hsign, hsize]
  have hhigh : ⌈(m : ℚ) * 2 ^ e⌉ ≤ ⌈(n : ℚ) / d⌉ := Int.ceil_le.mpr (h.le_ceil he hpos.le hq)
  have hceil : 0 < ⌈(n : ℚ) / d⌉ := Int.ceil_pos.mpr hpos
  obtain hone | hone := le_or_gt (n / d : ℚ) 1
  · have hceilone : ⌈(n : ℚ) / d⌉ ≤ 1 := Int.ceil_le.mpr (by exact_mod_cast hone)
    omega
  · have hlow : ⌈(n : ℚ) / d⌉ - 1 < ⌈(m : ℚ) * 2 ^ e⌉ :=
      Int.lt_ceil.mpr (by exact_mod_cast h.ceil_sub_one_lt hd hle hone)
    omega

end Qua.Binary64
