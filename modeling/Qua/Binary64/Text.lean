import Qua.Binary64.Shortest

/-!
# Numbers as text

One layout of a shortest decimal, with a record of the choices in which the written forms differ: a
script literal, a number in a message, a number in an inspected value, and a number in JSON.
-/

namespace Qua

/-- How a shortest decimal is laid out. -/
structure NumberStyle where
  /-- The least exponent of the leading digit that is written without an exponent. -/
  least : Int
  /-- The greatest such exponent. -/
  greatest : Int
  /-- A whole number keeps a fraction `.0`, where written without an exponent. -/
  wholeFraction : Bool
  /-- A single digit keeps a fraction `.0` before an exponent. -/
  scientificFraction : Bool
  /-- A positive exponent is written with its sign. -/
  plus : Bool
  tie : Tie
  /-- The greatest exponent of a number for which the decimal halfway to the number below is used. -/
  lowerEnd : Option Int
  deriving Repr

namespace NumberStyle

/-- Literals in a script always hold a point, which tells them from integers. The decimal halfway to
the number below is used while the last place is worth less than a thousand. -/
def script : NumberStyle := ⟨-5, 15, true, true, false, .even, some 9⟩

/-- Numbers inside a sentence never have an exponent. -/
def sentence : NumberStyle := ⟨-400, 400, false, false, false, .up, none⟩

/-- Numbers inside an inspected value. -/
def inspection : NumberStyle := ⟨-4, 15, true, false, false, .up, none⟩

/-- Numbers in JSON. -/
def json : NumberStyle := ⟨-5, 15, true, false, true, .even, none⟩

def zeros (n : Nat) : String := String.ofList (List.replicate n '0')

/-- The digits with a point after the first `point` of them. -/
def positional (style : NumberStyle) (digits : List Char) (point : Int) : String :=
  let length : Int := digits.length
  if point ≤ 0 then "0." ++ zeros point.natAbs ++ String.ofList digits
  else if point < length then
    String.ofList (digits.take point.natAbs) ++ "." ++ String.ofList (digits.drop point.natAbs)
  else
    String.ofList digits ++ zeros (point - length).natAbs ++ (if style.wholeFraction then ".0" else "")

/-- The leading digit, the others as a fraction, and the exponent of the leading digit. -/
def scientific (style : NumberStyle) (digits : List Char) (exponent : Int) : String :=
  let rest := digits.drop 1
  let fraction :=
    if rest.isEmpty then if style.scientificFraction then ".0" else ""
    else "." ++ String.ofList rest
  let sign := if style.plus && 0 < exponent then "+" else ""
  String.ofList (digits.take 1) ++ fraction ++ "e" ++ sign ++ toString exponent

/-- The text of a finite magnitude. -/
def magnitude (style : NumberStyle) (x : Binary64) : String :=
  let decimal := x.shortest style.tie style.lowerEnd
  let digits := Nat.toDigits 10 decimal.digits
  let point := decimal.exponent + digits.length
  if x.isZero || (style.least ≤ point - 1 && point - 1 ≤ style.greatest) then
    style.positional digits point
  else style.scientific digits (point - 1)

/-- The text of any number. -/
def write (style : NumberStyle) (x : Binary64) : String :=
  if x.isNaN then "NaN"
  else
    (if x.isNegative then "-" else "") ++ (if x.isFinite then style.magnitude x else "inf")

end NumberStyle
end Qua
