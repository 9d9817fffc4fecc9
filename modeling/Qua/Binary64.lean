/-!
# Binary64 numbers

A number is its sixty-four bits. Everything that is computed on numbers here is exact arithmetic on
the decoded significand and exponent, so that two programs are compared, hashed and stored by a rule
that can be stated.
-/

namespace Qua

/-- A binary64 number, as its sixty-four bits. -/
structure Binary64 where
  bits : UInt64
  deriving DecidableEq, Repr

namespace Binary64

/-- The word in which only the sign is set. -/
def signBit : Nat := 0x8000000000000000

/-- The leading one of a normal number, which is not stored: one more than the greatest fraction. -/
def hiddenBit : Nat := 0x10000000000000

/-- The bits without the sign. -/
def magnitude (x : Binary64) : Nat := x.bits.toNat % signBit

def isNegative (x : Binary64) : Bool := signBit ≤ x.bits.toNat

/-- The magnitude of the two infinities; larger magnitudes are not numbers. -/
def infiniteMagnitude : Nat := 2047 * hiddenBit

def isFinite (x : Binary64) : Bool := x.magnitude < infiniteMagnitude

def isNaN (x : Binary64) : Bool := infiniteMagnitude < x.magnitude

/-- Zero of either sign. -/
def isZero (x : Binary64) : Bool := x.magnitude = 0

def ofMagnitude (negative : Bool) (magnitude : Nat) : Binary64 :=
  ⟨UInt64.ofNat (if negative then signBit + magnitude else magnitude)⟩

def zero : Binary64 := ofMagnitude false 0

def infinity (negative : Bool) : Binary64 := ofMagnitude negative infiniteMagnitude

/-- The quiet NaN without a payload. -/
def nan : Binary64 := ofMagnitude false (infiniteMagnitude + hiddenBit / 2)

/-- Flips the sign, also of a zero, an infinity or a NaN. -/
def neg (x : Binary64) : Binary64 := ⟨x.bits ^^^ 0x8000000000000000⟩

instance : Neg Binary64 := ⟨neg⟩

/-- Numeric equality, in which moreover every NaN equals every other: the two zeros are equal. -/
def same (x y : Binary64) : Bool :=
  x.bits == y.bits || (x.isZero && y.isZero) || (x.isNaN && y.isNaN)

/-- The representative of the numbers that are the `same`: one zero and one NaN. -/
def representative (x : Binary64) : Binary64 :=
  if x.isZero then zero else if x.isNaN then nan else x

/-- Bits of the fraction, without the leading one of a normal number. -/
def fraction (x : Binary64) : Nat := x.magnitude % hiddenBit

def biasedExponent (x : Binary64) : Nat := x.magnitude / hiddenBit

/-- The integer `m` of a finite magnitude `m * 2 ^ exponent`. -/
def significand (x : Binary64) : Nat :=
  if x.biasedExponent = 0 then x.fraction else hiddenBit + x.fraction

/-- The exponent that goes with `significand`; the least one is that of the subnormal numbers. -/
def exponent (x : Binary64) : Int := (max x.biasedExponent 1 : Nat) - 1075

/-- `n` over `d` as the quotient of two naturals, for a magnitude `m * 2 ^ e`. -/
def scaled (m : Nat) (e : Int) : Nat × Nat :=
  if e < 0 then (m, Nat.pow 2 e.natAbs) else (m * Nat.pow 2 e.natAbs, 1)

end Binary64
end Qua
