import Qua.Bytes
import Qua.Json.Numeral

/-!
# Reading JSON

A reader of one value that takes characters and gives back what it leaves. The fuel bounds the calls;
every call but the one after an opening bracket has read a character, so twice the length of the text
is enough.
-/

namespace Qua.Json

abbrev Chars := List Char

def skipBlanks : Chars → Chars
  | c :: rest => if c = ' ' ∨ c = '\t' ∨ c = '\n' ∨ c = '\r' then skipBlanks rest else c :: rest
  | [] => []

/-- Four hexadecimal digits. -/
def readUnit : Chars → Option (Nat × Chars)
  | a :: b :: c :: d :: rest => do
    let a ← hexValue? a
    let b ← hexValue? b
    let c ← hexValue? c
    let d ← hexValue? d
    return (((a * 16 + b) * 16 + c) * 16 + d, rest)
  | _ => none

/-- What follows `\u`: one unit, or a pair of surrogates. -/
def readEscapedUnits (text : Chars) : Option (Char × Chars) := do
  let (unit, rest) ← readUnit text
  if 0xd800 ≤ unit ∧ unit < 0xdc00 then
    match rest with
    | '\\' :: 'u' :: rest =>
      let (low, rest) ← readUnit rest
      if 0xdc00 ≤ low ∧ low < 0xe000 then
        some (Char.ofNat (0x10000 + (unit - 0xd800) * 0x400 + (low - 0xdc00)), rest)
      else none
    | _ => none
  else if 0xdc00 ≤ unit ∧ unit < 0xe000 then none
  else some (Char.ofNat unit, rest)

/-- What follows a backslash. -/
def readEscape : Chars → Option (Char × Chars)
  | '"' :: rest => some ('"', rest)
  | '\\' :: rest => some ('\\', rest)
  | '/' :: rest => some ('/', rest)
  | 'b' :: rest => some ('\x08', rest)
  | 'f' :: rest => some ('\x0c', rest)
  | 'n' :: rest => some ('\n', rest)
  | 'r' :: rest => some ('\r', rest)
  | 't' :: rest => some ('\t', rest)
  | 'u' :: rest => readEscapedUnits rest
  | _ => none

/-- The rest of a string after its opening quote. -/
def readString : Nat → Chars → Chars → Option (String × Chars)
  | 0, _, _ => none
  | fuel + 1, read, text =>
    match text with
    | '"' :: rest => some (String.ofList read.reverse, rest)
    | '\\' :: rest =>
      match readEscape rest with
      | some (c, rest) => readString fuel (c :: read) rest
      | none => none
    | c :: rest => if c.toNat < 32 then none else readString fuel (c :: read) rest
    | [] => none

mutual

/-- One value, blanks before it being skipped. -/
def readValue : Nat → Chars → Option (Json × Chars)
  | 0, _ => none
  | fuel + 1, text =>
    match skipBlanks text with
    | 'n' :: 'u' :: 'l' :: 'l' :: rest => some (.null, rest)
    | 't' :: 'r' :: 'u' :: 'e' :: rest => some (.bool true, rest)
    | 'f' :: 'a' :: 'l' :: 's' :: 'e' :: rest => some (.bool false, rest)
    | '"' :: rest => (readString (rest.length + 1) [] rest).map fun (s, rest) => (.string s, rest)
    | '[' :: rest =>
      match skipBlanks rest with
      | ']' :: rest => some (.array [], rest)
      | rest => (readItems fuel rest).map fun (items, rest) => (.array items, rest)
    | '\x7b' :: rest =>
      match skipBlanks rest with
      | '\x7d' :: rest => some (.object [], rest)
      | rest => (readMembers fuel [] rest).map fun (members, rest) => (.object members, rest)
    | rest => do
      let (n, rest) ← Numeral.readFrom rest
      let value ← n.value?
      return (value, rest)

/-- The items of an array up to its closing bracket. -/
def readItems : Nat → Chars → Option (List Json × Chars)
  | 0, _ => none
  | fuel + 1, text => do
    let (item, rest) ← readValue fuel text
    match skipBlanks rest with
    | ']' :: rest => return ([item], rest)
    | ',' :: rest =>
      let (items, rest) ← readItems fuel rest
      return (item :: items, rest)
    | _ => none

/-- The members of an object up to its closing brace; a repeated name replaces the value. -/
def readMembers : Nat → List (String × Json) → Chars → Option (List (String × Json) × Chars)
  | 0, _, _ => none
  | fuel + 1, members, text => do
    match skipBlanks text with
    | '"' :: rest =>
      let (name, rest) ← readString (rest.length + 1) [] rest
      match skipBlanks rest with
      | ':' :: rest =>
        let (value, rest) ← readValue fuel rest
        let members := insert name value members
        match skipBlanks rest with
        | '\x7d' :: rest => return (members, rest)
        | ',' :: rest => readMembers fuel members rest
        | _ => none
      | _ => none
    | _ => none

end

/-- The value that the whole text holds. -/
def read? (text : String) : Option Json :=
  let chars := text.toList
  match readValue (2 * chars.length + 1) chars with
  | some (value, rest) => if (skipBlanks rest).isEmpty then some value else none
  | none => none

end Qua.Json
