import Qua.Binary64

/-!
# Rounding to the nearest binary64 number

A quotient of naturals is rounded to the nearest number, a tie going to the even significand and
whatever lies beyond the largest number going to infinity. Integers and decimal literals are read
through it.
-/

namespace Qua.Binary64

/-- The quotient to the nearest integer, a tie going to the even one. -/
def roundQuotient (n d : Nat) : Nat :=
  let q := n / d
  let r := n % d
  if 2 * r < d then q
  else if d < 2 * r then q + 1
  else q + q % 2

/-- The largest `e` with `2 ^ e ≤ n / d`, for positive `n` and `d`. -/
def floorLog2 (n d : Nat) : Int :=
  let e : Int := (Nat.log2 n : Int) - Nat.log2 d
  let unit := Nat.pow 2 e.natAbs
  let reached := if e < 0 then decide (d ≤ n * unit) else decide (d * unit ≤ n)
  if reached then e else e - 1

/-- The number nearest to `n / d`, for a positive `d`. -/
def ofRatio (negative : Bool) (n d : Nat) : Binary64 :=
  if n = 0 then ofMagnitude negative 0
  else
    let e := max (floorLog2 n d - 52) (-1074)
    let unit := Nat.pow 2 e.natAbs
    let m := if e < 0 then roundQuotient (n * unit) d else roundQuotient n (d * unit)
    let magnitude := (e + 1074).toNat * hiddenBit + m
    ofMagnitude negative (min magnitude infiniteMagnitude)

/-- A finite magnitude as a quotient. -/
def ratio (x : Binary64) : Nat × Nat := scaled x.significand x.exponent

/-- The rounded product of finite numbers. -/
def mul (x y : Binary64) : Binary64 :=
  let (m, c) := x.ratio
  let (n, d) := y.ratio
  ofRatio (x.isNegative != y.isNegative) (m * n) (c * d)

/-- The rounded quotient of finite numbers, the second of which is not zero. -/
def div (x y : Binary64) : Binary64 :=
  let (m, c) := x.ratio
  let (n, d) := y.ratio
  ofRatio (x.isNegative != y.isNegative) (m * d) (c * n)

def ofInt (n : Int) : Binary64 := ofRatio (decide (n < 0)) n.natAbs 1

/-- How many decimal digits a natural has; zero has one. -/
def decimalLength (n : Nat) : Nat := (Nat.toDigits 10 n).length

/-- The number nearest to `m * 10 ^ e`. Powers of ten that are certain to leave the range are not
computed. -/
def ofDecimal (negative : Bool) (m : Nat) (e : Int) : Binary64 :=
  if m = 0 then ofMagnitude negative 0
  else
    let top := e + decimalLength m
    if 400 < top then infinity negative
    else if top < -400 then ofMagnitude negative 0
    else if e < 0 then ofRatio negative m (Nat.pow 10 e.natAbs)
    else ofRatio negative (m * Nat.pow 10 e.natAbs) 1

/-- The least integer that is not below a finite number. -/
def ceil (x : Binary64) : Int :=
  let (n, d) := x.ratio
  if x.isNegative then -((n / d : Nat) : Int) else ((n + (d - 1)) / d : Nat)

end Qua.Binary64
