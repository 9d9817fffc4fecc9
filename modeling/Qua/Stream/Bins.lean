import Qua.Binary64.Rounding

/-!
# Histogram bins

Bins of equal width that cover a range of integers. The width is the range divided by the number of
bins, a quotient of binary64 numbers, rounded up.
-/

namespace Qua

/-- The width of `n` bins that cover the values from `first` to `last`. -/
def binWidth (first last : Int) (n : Nat) : Int :=
  let count := Binary64.ofInt (last - first + 1)
  let (m, d) := count.ratio
  max 1 (Binary64.ofRatio count.isNegative m (d * n)).ceil

/-- Bins of a positive width from `low` on, as long as they start before `last`. -/
def binsFrom (width : Nat) (low last : Int) : List (Int × Int) :=
  if low < last ∧ 0 < width then
    (low, min (low + width - 1) last) :: binsFrom width (low + width) last
  else []
termination_by (last - low).toNat
decreasing_by omega

/-- The bins as pairs of their least and greatest values. -/
def bins (first last : Int) (n : Nat) : List (Int × Int) :=
  if n = 0 then [] else binsFrom (binWidth first last n).toNat first last

end Qua
