/-!
# Affixes and digits

Strings without a prefix, a suffix or the digits at their end, and the number that a sequence of decimal
digits stands for. No digit at all stands for zero.
-/

namespace Qua.Text

/-- The string without the prefix `p`, if it has it. -/
def withoutPrefix? (p s : String) : Option String :=
  (p.toList.isPrefixOf? s.toList).map String.ofList

/-- The string without the suffix `p`, if it has it. -/
def withoutSuffix? (p s : String) : Option String :=
  (p.toList.isSuffixOf? s.toList).map String.ofList

def startsWith (p s : String) : Bool := p.toList.isPrefixOf s.toList

/-- The string without the decimal digits at its end. -/
def withoutTrailingDigits (s : String) : String :=
  String.ofList (s.toList.reverse.dropWhile Char.isDigit).reverse

def digitValue (c : Char) : Nat := c.toNat - '0'.toNat

def digitsValue (digits : List Char) : Nat := digits.foldl (fun n c => n * 10 + digitValue c) 0

end Qua.Text
