import Qua.Proofs.Binary64.Ceiling
import Qua.Stream.Bins

/-!
# The range that bins cover

Bins follow one another without a gap, from the first value on, and are no more than asked for: their
width is the exact quotient rounded up, although it is computed with rounded numbers. No bin starts
at the last value of the range. Where the width divides the distance from the first value to the
last, the bin of the last value would start there, and the bins end one value before it
(`bins_cover_iff`).
-/

namespace Qua

variable {first last low stop : Int} {n width : Nat} {parts : List (Int × Int)}

/-- The bins divide the values from `first` to `last` among them. -/
structure Covers (parts : List (Int × Int)) (first last : Int) : Prop where
  nonempty : parts ≠ []
  ordered : ∀ bin ∈ parts, bin.1 ≤ bin.2
  starts : (parts.head nonempty).1 = first
  ends : (parts.getLast nonempty).2 = last
  follows : parts.IsChain fun bin next => next.1 = bin.2 + 1
  once : ∀ value, first ≤ value → value ≤ last → ∃! bin, bin ∈ parts ∧ bin.1 ≤ value ∧ value ≤ bin.2

-- ---------------------------------------------------------------------------
-- The width
-- ---------------------------------------------------------------------------

/-- The width is computed as if numbers were not rounded. -/
theorem binWidth_eq (h : first ≤ last) (hspan : last - first < 2 ^ 53) (hn : 1 ≤ n) :
    binWidth first last n = ⌈((last - first + 1 : Int) : ℚ) / n⌉ := by
  obtain ⟨count, hcount⟩ := Int.eq_ofNat_of_zero_le (show 0 ≤ last - first + 1 by omega)
  have hpos : 0 < count := by omega
  have hle : count ≤ 2 ^ 53 := by omega
  obtain ⟨hsign, hsize⟩ := Binary64.ofRatio_natural hpos hle
  have hdiv := (Binary64.ofRatio false count 1).ratio_div
  have hd := (Binary64.ofRatio false count 1).ratio_pos
  rw [hsize] at hdiv
  have hneg : ¬ (count : Int) < 0 := by omega
  have hof : Binary64.ofInt (last - first + 1) = Binary64.ofRatio false count 1 := by
    simp [hcount, Binary64.ofInt, hneg]
  simp only [binWidth]
  rw [hof, hsign, hcount]
  generalize (Binary64.ofRatio false count 1).ratio = ratio at *
  obtain ⟨m, d⟩ := ratio
  have hm : 0 < m := by
    refine Nat.pos_of_ne_zero fun hm => ?_
    rw [hm, Nat.cast_zero, zero_div] at hdiv
    have : count = 0 := by exact_mod_cast hdiv.symm
    omega
  have hsame : (m : ℚ) / (d * n : Nat) = count / n := by
    rw [Nat.cast_mul, ← div_div, hdiv]
  rw [Int.cast_natCast]
  exact Binary64.ceil_ofRatio hpos hn hle hm (Nat.mul_pos hd hn) hsame

/-- Bins of the width are wide enough for the range. -/
theorem binWidth_spec (h : first ≤ last) (hspan : last - first < 2 ^ 53) (hn : 1 ≤ n) :
    0 < binWidth first last n ∧ last - first < binWidth first last n * n := by
  have hnq : (0 : ℚ) < n := by exact_mod_cast hn
  rw [binWidth_eq h hspan hn]
  constructor
  · have hcount : (0 : ℚ) < (last - first + 1 : Int) := by exact_mod_cast (by omega : 0 < last - first + 1)
    exact Int.ceil_pos.mpr (by positivity)
  · have hle := Int.le_ceil (((last - first + 1 : Int) : ℚ) / n)
    rw [div_le_iff₀ hnq] at hle
    have hle : last - first + 1 ≤ ⌈((last - first + 1 : Int) : ℚ) / n⌉ * n := by exact_mod_cast hle
    omega

-- ---------------------------------------------------------------------------
-- Consecutive bins
-- ---------------------------------------------------------------------------

/-- Bins one after the other, from `low` on and up to the value before `stop`. -/
inductive Consecutive (stop : Int) : Int → List (Int × Int) → Prop
  | nil : Consecutive stop stop []
  | cons {low high : Int} {parts : List (Int × Int)} (ordered : low ≤ high)
      (rest : Consecutive stop (high + 1) parts) : Consecutive stop low ((low, high) :: parts)

namespace Consecutive

theorem ordered (h : Consecutive stop low parts) : ∀ bin ∈ parts, low ≤ bin.1 ∧ bin.1 ≤ bin.2 := by
  induction h with
  | nil => simp
  | cons ordered _ ih =>
    rintro bin (_ | ⟨_, hbin⟩)
    · exact ⟨le_refl _, ordered⟩
    · have := ih bin hbin
      omega

theorem starts (h : Consecutive stop low parts) (hne : parts ≠ []) : (parts.head hne).1 = low := by
  cases h with
  | nil => exact absurd rfl hne
  | cons => rfl

theorem ends (h : Consecutive stop low parts) (hne : parts ≠ []) : (parts.getLast hne).2 = stop - 1 := by
  induction h with
  | nil => exact absurd rfl hne
  | @cons low high parts _ rest ih =>
    cases rest with
    | nil => simp
    | cons => exact ih (List.cons_ne_nil _ _)

theorem follows (h : Consecutive stop low parts) : parts.IsChain fun bin next => next.1 = bin.2 + 1 := by
  induction h with
  | nil => exact .nil
  | cons _ rest ih =>
    cases rest with
    | nil => exact .singleton _
    | cons => exact .cons_cons rfl ih

theorem once (h : Consecutive stop low parts) {value : Int} (hl : low ≤ value) (hh : value < stop) :
    ∃! bin, bin ∈ parts ∧ bin.1 ≤ value ∧ value ≤ bin.2 := by
  induction h with
  | nil => omega
  | @cons low high parts _ rest ih =>
    by_cases hv : value ≤ high
    · refine ⟨(low, high), ⟨List.mem_cons_self, hl, hv⟩, ?_⟩
      rintro bin ⟨_ | ⟨_, hbin⟩, hlow, -⟩
      · rfl
      · have := (rest.ordered bin hbin).1
        omega
    · obtain ⟨bin, ⟨hmem, hlow, hhigh⟩, hunique⟩ := ih (by omega)
      refine ⟨bin, ⟨List.mem_cons_of_mem _ hmem, hlow, hhigh⟩, ?_⟩
      rintro other ⟨_ | ⟨_, hother⟩, hother'⟩
      · exact absurd hother'.2 hv
      · exact hunique other ⟨hother, hother'⟩

theorem covers (h : Consecutive (last + 1) first parts) (hle : first ≤ last) : Covers parts first last := by
  have hne : parts ≠ [] := by
    rintro rfl
    cases h
    omega
  exact ⟨hne, fun bin hbin => (h.ordered bin hbin).2, h.starts hne, by rw [h.ends hne]; omega, h.follows,
    fun _ hl hh => h.once hl (by omega)⟩

/-- What consecutive bins cover is determined by where they stop. -/
theorem stop_eq (h : Consecutive stop first parts) (hc : Covers parts first last) : stop = last + 1 := by
  have := h.ends hc.nonempty
  rw [hc.ends] at this
  omega

end Consecutive

-- ---------------------------------------------------------------------------
-- The bins of a range
-- ---------------------------------------------------------------------------

/-- The value at which bins of a width stop: the last one gets none if a bin would start there. -/
def binsStop (width : Nat) (low last : Int) : Int :=
  if (width : Int) ∣ last - low then last else last + 1

/-- A bin of full width is followed by the bins of the rest of the range. -/
theorem binsStop_next : binsStop width (low + width) last = binsStop width low last := by
  have hdvd : (width : Int) ∣ last - (low + width) ↔ (width : Int) ∣ last - low := by
    rw [← sub_sub]
    exact dvd_sub_self_right
  simp only [binsStop, hdvd]

theorem binsFrom_consecutive (hwidth : 0 < width) (h : low ≤ last) :
    Consecutive (binsStop width low last) low (binsFrom width low last) := by
  fun_induction binsFrom width low last with
  | case1 low hlow ih =>
    obtain hfull | hcut : low + width ≤ last ∨ last < low + width := le_or_gt _ _
    · rw [min_eq_left (by omega)]
      refine .cons (by omega) ?_
      rw [sub_add_cancel, ← binsStop_next]
      exact ih hfull
    · -- The last bin is cut at the end of the range.
      have hstop : binsStop width low last = last + 1 := by
        refine if_neg fun hdvd => ?_
        have := Int.le_of_dvd (by omega) hdvd
        omega
      rw [min_eq_right (by omega), hstop, binsFrom, if_neg (by omega)]
      exact .cons (by omega) .nil
  | case2 low hlow =>
    obtain rfl : low = last := by omega
    have hstop : binsStop width low low = low := if_pos (by simp)
    rw [hstop]
    exact .nil

theorem length_binsFrom_le (h : last - low ≤ width * n) : (binsFrom width low last).length ≤ n := by
  induction n generalizing low with
  | zero =>
    rw [binsFrom, if_neg (by simp at h; omega)]
    exact Nat.le_refl 0
  | succ n ih =>
    rw [binsFrom]
    split
    · have hrest : last - (low + width) ≤ width * n := by
        push_cast at h
        linarith
      exact Nat.succ_le_succ (ih hrest)
    · exact Nat.zero_le _

theorem bins_eq (h : first ≤ last) (hspan : last - first < 2 ^ 53) (hn : 1 ≤ n) :
    ∃ width : Nat, 0 < width ∧ (width : Int) = binWidth first last n ∧ last - first < width * n ∧
      bins first last n = binsFrom width first last := by
  obtain ⟨hpos, hlt⟩ := binWidth_spec h hspan hn
  obtain ⟨width, hwidth⟩ := Int.eq_ofNat_of_zero_le hpos.le
  refine ⟨width, by omega, hwidth.symm, hwidth ▸ hlt, ?_⟩
  rw [bins, if_neg (by omega), hwidth, Int.toNat_natCast]

/-- There are at most as many bins as asked for, of the exact width. They cover the range unless
the width divides the distance of its ends; then they cover all of it but its last value. -/
theorem bins_cover_iff (h : first ≤ last) (hspan : last - first < 2 ^ 53) (hn : 1 ≤ n) :
    binWidth first last n = ⌈((last - first + 1 : Int) : ℚ) / n⌉ ∧
      (bins first last n).length ≤ n ∧
      (Covers (bins first last n) first last ↔ ¬ binWidth first last n ∣ last - first) ∧
      (binWidth first last n ∣ last - first → first < last →
        Covers (bins first last n) first (last - 1)) ∧
      (bins first last n = [] ↔ first = last) := by
  obtain ⟨width, hpos, hwidth, hlt, hbins⟩ := bins_eq h hspan hn
  have hc := binsFrom_consecutive hpos h
  rw [← hbins] at hc
  refine ⟨binWidth_eq h hspan hn, ?_, ?_, ?_, ?_⟩
  · rw [hbins]
    exact length_binsFrom_le hlt.le
  · rw [← hwidth]
    constructor
    · intro hcovers hdvd
      have := hc.stop_eq hcovers
      rw [binsStop, if_pos hdvd] at this
      omega
    · intro hdvd
      rw [binsStop, if_neg hdvd] at hc
      exact hc.covers h
  · intro hdvd hlast
    rw [binsStop, if_pos (hwidth ▸ hdvd)] at hc
    exact Consecutive.covers (by rwa [sub_add_cancel]) (by omega)
  · rw [hbins, binsFrom]
    constructor
    · intro hnil
      by_contra hne
      rw [if_pos (by omega)] at hnil
      exact List.cons_ne_nil _ _ hnil
    · rintro rfl
      exact if_neg (by omega)

/-- Three bins of four values, the last of them cut. -/
theorem bins_cover_cut :
    Covers (bins 0 10 3) 0 10 ∧ (bins 0 10 3).length ≤ 3 ∧ binWidth 0 10 3 = 4 := by
  obtain ⟨-, hlength, hcovers, -⟩ :=
    bins_cover_iff (n := 3) (show (0 : Int) ≤ 10 by decide) (by decide) (by decide)
  exact ⟨hcovers.mpr (by decide), hlength, by decide⟩

/-- A range of one value gets no bin, and of five bins for five values the last is missing. -/
theorem bins_not_cover : ¬ Covers (bins 5 5 1) 5 5 ∧ ¬ Covers (bins 0 4 5) 0 4 := by
  have hone : bins 5 5 1 = [] := by simp [bins, binsFrom]
  have hwidth : (binWidth 0 4 5).toNat = 1 := by decide
  have hfive : bins 0 4 5 = [(0, 0), (1, 1), (2, 2), (3, 3)] := by simp [bins, hwidth, binsFrom]
  constructor
  · intro h
    exact h.nonempty hone
  · intro h
    have hends := h.ends
    simp [hfive] at hends

end Qua
