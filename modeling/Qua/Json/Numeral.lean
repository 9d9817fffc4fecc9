import Qua.Binary64.Rounding
import Qua.Json
import Qua.Text.Affix

/-!
# Numerals

The text of a JSON number, taken apart, and its value. A numeral has a nearest binary64 number. The
value of a real in JSON is computed in binary64 arithmetic instead: its digits, as far as they fit in
64 bits, times a power of ten. That is the nearest number too where the digits and the power are exact,
as they are for up to fifteen digits and a power of ten up to the twenty-second.
-/

namespace Qua

namespace Binary64

/-- The greatest power of ten that is a finite number has this exponent. -/
def greatestTen : Nat := 308

/-- The number nearest to a power of ten. -/
def powerOfTen (n : Nat) : Binary64 := ofDecimal false 1 n

/-- The product with a power of ten, in binary64 arithmetic, if it is finite. A power that is too small
for a number is divided by in two steps. -/
def timesPowerOfTen? (x : Binary64) (e : Int) : Option Binary64 :=
  let n := e.natAbs
  if x.isZero then some x
  else if 0 ≤ e then
    let y := x.mul (powerOfTen n)
    if n ≤ greatestTen ∧ y.isFinite then some y else none
  else if n ≤ greatestTen then some (x.div (powerOfTen n))
  else some ((x.div (powerOfTen greatestTen)).div (powerOfTen (min (n - greatestTen) greatestTen)))

end Binary64

namespace Json

/-- A number as it is written, without its point and the mark of its exponent. -/
structure Numeral where
  negative : Bool
  whole : List Char
  /-- The digits after the point; without a point there are none. -/
  fraction : List Char
  exponent : Option Int
  deriving Repr

namespace Numeral

open Text (digitValue digitsValue)

/-- The nearest number, or an infinity. -/
def nearest (n : Numeral) : Binary64 :=
  .ofDecimal n.negative (digitsValue (n.whole ++ n.fraction))
    (n.exponent.getD 0 - n.fraction.length)

/-- Puts digits behind a number as long as the result has 64 bits: the result, and the number of
digits that are left. -/
def appendDigits (n : Nat) : List Char → Nat × Nat
  | [] => (n, 0)
  | digits@(c :: rest) =>
    let next := n * 10 + digitValue c
    if next < UInt64.size then appendDigits next rest else (n, digits.length)

/-- The value of the numeral as a real; beyond the greatest number there is none. -/
def real? (n : Numeral) : Option Binary64 :=
  let (whole, wholeLeft) := appendDigits 0 n.whole
  let (digits, fractionLeft) := appendDigits whole n.fraction
  let places := n.fraction.length - fractionLeft
  ((Binary64.ofInt digits).timesPowerOfTen? (n.exponent.getD 0 + wholeLeft - places)).map fun x =>
    if n.negative then -x else x

/-- Without a fraction and an exponent a number is an integer if it has one of 64 bits; a negative zero
is a real. -/
def integer? (n : Numeral) : Option Int :=
  if n.fraction.isEmpty && n.exponent.isNone then
    let magnitude := digitsValue n.whole
    if n.negative then
      if 0 < magnitude ∧ Int64.minValue.toInt ≤ -magnitude then some (-magnitude) else none
    else if magnitude < UInt64.size then some magnitude
    else none
  else none

def value? (n : Numeral) : Option Json :=
  match n.integer? with
  | some value => some (.integer value)
  | none => n.real?.map .real

/-- The exponent after its `e`, if the text has one. -/
def readExponent (text : List Char) : Option (Option Int × List Char) :=
  match text with
  | c :: rest =>
    if c = 'e' ∨ c = 'E' then
      let (negative, rest) := match rest with
        | '-' :: rest => (true, rest)
        | '+' :: rest => (false, rest)
        | rest => (false, rest)
      let digits := rest.takeWhile Char.isDigit
      if digits.isEmpty then none
      else
        let n : Int := digitsValue digits
        some (some (if negative then -n else n), rest.dropWhile Char.isDigit)
    else some (none, c :: rest)
  | [] => some (none, [])

/-- The fraction after its point, if the text has one. -/
def readFraction (text : List Char) : Option (List Char × List Char) :=
  match text with
  | '.' :: rest =>
    let digits := rest.takeWhile Char.isDigit
    if digits.isEmpty then none else some (digits, rest.dropWhile Char.isDigit)
  | rest => some ([], rest)

/-- The numeral that a text starts with. Only a zero starts with a zero. -/
def readFrom (text : List Char) : Option (Numeral × List Char) := do
  let (negative, text) := match text with
    | '-' :: rest => (true, rest)
    | rest => (false, rest)
  let whole := text.takeWhile Char.isDigit
  if whole.isEmpty ∨ (1 < whole.length ∧ whole.head? = some '0') then none
  else
    let (fraction, rest) ← readFraction (text.dropWhile Char.isDigit)
    let (exponent, rest) ← readExponent rest
    return (⟨negative, whole, fraction, exponent⟩, rest)

/-- The numeral that the whole text is. -/
def read? (text : String) : Option Numeral :=
  match readFrom text.toList with
  | some (n, []) => some n
  | _ => none

end Numeral
end Json
end Qua
