/-!
# Bytes

Little-endian words of a fixed width, and bytes written as hexadecimal digits.
-/

namespace Qua

/-- The bytes of a word of the given width, the least one first. -/
def wordBytes : Nat → Nat → List UInt8
  | 0, _ => []
  | width + 1, n => UInt8.ofNat n :: wordBytes width (n / 256)

/-- The UTF-8 form of a string. -/
def utf8Bytes (s : String) : List UInt8 := s.toUTF8.data.toList

/-- Two digits for each byte. -/
def hexText (bytes : List UInt8) : String :=
  String.ofList (bytes.flatMap fun b => [Nat.digitChar (b.toNat / 16), Nat.digitChar (b.toNat % 16)])

/-- The value of a hexadecimal digit. -/
def hexValue? (c : Char) : Option Nat :=
  if c.isDigit then some (c.toNat - '0'.toNat)
  else if 'a' ≤ c ∧ c ≤ 'f' then some (c.toNat - 'a'.toNat + 10)
  else if 'A' ≤ c ∧ c ≤ 'F' then some (c.toNat - 'A'.toNat + 10)
  else none

def bytesOfDigits? : List Char → Option (List UInt8)
  | [] => some []
  | [_] => none
  | high :: low :: rest => do
    let high ← hexValue? high
    let low ← hexValue? low
    let bytes ← bytesOfDigits? rest
    return UInt8.ofNat (high * 16 + low) :: bytes

/-- The bytes that are written with two digits each. -/
def bytesOfHex? (text : String) : Option (List UInt8) := bytesOfDigits? text.toList

end Qua
