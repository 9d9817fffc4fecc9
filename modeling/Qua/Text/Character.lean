import Qua.Text.Alphanumeric
import Qua.Text.GraphemeExtend
import Qua.Text.Unprintable

/-!
# Classes of characters

What may stand in a name, and what is shown as it is in an inspected string. A property of characters is
kept as the list of the ranges of code points that have it.
-/

namespace Qua.Text

/-- Whether some range of code points, both ends included, holds the character. -/
def inRanges (ranges : List (Nat × Nat)) (c : Char) : Bool :=
  ranges.any fun (low, high) => low ≤ c.toNat && c.toNat ≤ high

def isAlphabetic (c : Char) : Bool :=
  c.isAlpha || (128 ≤ c.toNat && inRanges alphabeticRanges c)

def isAlphanumeric (c : Char) : Bool :=
  isAlphabetic c || c.isDigit || (128 ≤ c.toNat && inRanges numericRanges c)

/-- A character that can start a name. -/
def isNameStart (c : Char) : Bool := isAlphabetic c || c == '_'

/-- A character that can continue a name. -/
def isNamePart (c : Char) : Bool := isAlphanumeric c || c == '_'

/-- A character that stands for itself in an inspected string. -/
def isPlain (c : Char) : Bool :=
  if c.toNat < 128 then 32 ≤ c.toNat && c.toNat < 127
  else
    !inRanges graphemeExtendRanges c && !inRanges unprintableRanges c
      && !inRanges defaultIgnorableRanges c

end Qua.Text
