import Qua.Binary64.Text
import Qua.Json

/-!
# JSON text

The compact form, without blanks.
-/

namespace Qua.Json

/-- What is written for one character of a string. -/
def escape (c : Char) : List Char :=
  if c = '"' ∨ c = '\\' then ['\\', c]
  else if c = '\x08' then ['\\', 'b']
  else if c = '\x0c' then ['\\', 'f']
  else if c = '\n' then ['\\', 'n']
  else if c = '\r' then ['\\', 'r']
  else if c = '\t' then ['\\', 't']
  else if c.toNat < 32 then
    ['\\', 'u', '0', '0'] ++ (if c.toNat < 16 then ['0'] else []) ++ Nat.toDigits 16 c.toNat
  else [c]

def printString (s : String) : String :=
  String.ofList ('"' :: s.toList.flatMap escape ++ ['"'])

/-- A real; what is not finite has no number and is null. -/
def printReal (x : Binary64) : String :=
  if x.isFinite then NumberStyle.json.write x else "null"

mutual

def print : Json → String
  | .null => "null"
  | .bool true => "true"
  | .bool false => "false"
  | .integer n => toString n
  | .real x => printReal x
  | .string s => printString s
  | .array items => "[" ++ printItems items ++ "]"
  | .object members => "\x7b" ++ printMembers members ++ "\x7d"

def printItems : List Json → String
  | [] => ""
  | [item] => item.print
  | item :: rest => item.print ++ "," ++ printItems rest

def printMembers : List (String × Json) → String
  | [] => ""
  | [(name, value)] => printString name ++ ":" ++ value.print
  | (name, value) :: rest => printString name ++ ":" ++ value.print ++ "," ++ printMembers rest

end

end Qua.Json
