import Qua.Binary64.Rounding

/-!
# Shortest decimals

The decimal with the fewest digits among those that round to a given number, and of these the
nearest to it. Two choices are left to the text format that asks: which of two equally near decimals
is taken, and whether the decimal halfway to the number below, which rounds to an even significand
above it, may stand for the number. Whatever is chosen, the decimal reads back as the number.
-/

namespace Qua

/-- A decimal `digits * 10 ^ exponent`. -/
structure Decimal where
  digits : Nat
  exponent : Int
  deriving DecidableEq, Repr

/-- Which of two equally near decimals is taken. -/
inductive Tie
  | even
  | up
  deriving DecidableEq, Repr

/-- The same decimal without trailing zeros in its digits. -/
def Decimal.trim (d : Decimal) : Decimal :=
  go (Binary64.decimalLength d.digits) d
where
  go : Nat → Decimal → Decimal
    | 0, d => d
    | n + 1, d => if d.digits % 10 = 0 then go n ⟨d.digits / 10, d.exponent + 1⟩ else d

namespace Binary64

/-- Quotients `n / d` that round to one number, in quarters of the unit in its last place. -/
structure Interval where
  low : Nat
  value : Nat
  high : Nat
  /-- What the three are to be divided by. -/
  denominator : Nat
  /-- The lower end counts. -/
  lowClosed : Bool
  /-- The upper end counts. -/
  highClosed : Bool
  deriving Repr

/-- The quotients that may stand for a finite positive number. Below a power of two the neighbour is
half as far away. Both ends round to an even significand; the lower one counts only up to the exponent
`lowerEnd`, if there is such a limit. -/
def interval (lowerEnd : Option Int) (x : Binary64) : Interval :=
  let m := x.significand
  let (one, d) := scaled 1 (x.exponent - 2)
  let below := if m = hiddenBit ∧ 1 < x.biasedExponent then 1 else 2
  { low := (4 * m - below) * one
    value := 4 * m * one
    high := (4 * m + 2) * one
    denominator := d
    lowClosed := m % 2 = 0 && lowerEnd.all (x.exponent ≤ ·)
    highClosed := m % 2 = 0 }

/-- The decimal exponent of the leading digit of `n / d`, for positive `n` and `d`. -/
def floorLog10 (n d : Nat) : Int :=
  if d ≤ n then (decimalLength (n / d) : Int) - 1
  else
    let places := decimalLength (d / n) - 1
    if d ≤ n * Nat.pow 10 places then -(places : Int) else -(places + 1 : Int)

namespace Interval

/-- Whether the decimal lies in the interval. -/
def contains (i : Interval) (d : Decimal) : Bool :=
  let power := Nat.pow 10 d.exponent.natAbs
  let (n, unit) := if d.exponent < 0 then (d.digits, power) else (d.digits * power, 1)
  let n := n * i.denominator
  let low := i.low * unit
  let high := i.high * unit
  (if i.lowClosed then low ≤ n else low < n) && (if i.highClosed then n ≤ high else n < high)

/-- The decimal with exponent `e` that is nearest to the value, if one lies in the interval. -/
def nearest? (i : Interval) (tie : Tie) (e : Int) : Option Decimal :=
  let power := Nat.pow 10 e.natAbs
  let (n, d) := if e < 0 then (i.value * power, i.denominator) else (i.value, i.denominator * power)
  let below : Decimal := ⟨n / d, e⟩
  let above : Decimal := ⟨n / d + 1, e⟩
  let r := n % d
  let preferBelow := 2 * r < d || (2 * r == d && tie == .even && below.digits % 2 == 0)
  match i.contains below, i.contains above with
  | true, true => some (if preferBelow then below else above)
  | true, false => some below
  | false, true => some above
  | false, false => none

/-- Tries grids of ever more digits, from the exponent `e` downwards. -/
def search (i : Interval) (tie : Tie) : Nat → Int → Decimal
  | 0, e => ⟨i.value / i.denominator, e⟩
  | n + 1, e =>
    match i.nearest? tie e with
    | some d => d
    | none => i.search tie n (e - 1)

end Interval

/-- The shortest decimal of the magnitude of a finite number. Seventeen digits always suffice. -/
def shortest (tie : Tie) (lowerEnd : Option Int) (x : Binary64) : Decimal :=
  if x.isZero then ⟨0, 0⟩
  else
    let i := x.interval lowerEnd
    (i.search tie 17 (floorLog10 i.value i.denominator)).trim

end Binary64
end Qua
