import Qua.Json.Printer
import Qua.Text.Quoted

/-!
# Configurations

A configuration is a JSON value, and is written as the literal of a dictionary, one key on each line.
Lists are written as sums of runs, a run of equal items as a product. Main definition:
`Configuration.literal`.
-/

namespace Qua.Configuration

/-- Why a configuration has no literal. -/
inductive Error
  | tooDeep
  deriving DecidableEq, Repr

/-- How deep the values of a configuration can be nested. -/
def greatestLevel : Nat := 100

def Error.message : Error → String
  | .tooDeep => "configuration is nested deeper than " ++ toString greatestLevel ++ " levels"

def checkLevel (level : Nat) : Except Error Unit :=
  if greatestLevel < level then .error .tooDeep else .ok ()

/-- Single quotes, unless only those would have to be escaped. -/
def stringLiteral (s : String) : String :=
  if s.contains '\'' && !s.contains '"' then Text.quoteWith '"' s else Text.quoteWith '\'' s

def scalarLiteral : Json → String
  | .null => "None"
  | .bool true => "True"
  | .bool false => "False"
  | .string s => stringLiteral s
  | other => other.print

mutual

/-- A value on one line. -/
def inline (level : Nat) : Json → Except Error String
  | .array items => do
    checkLevel level
    let items ← inlineItems (level + 1) items
    return "[" ++ String.intercalate ", " items ++ "]"
  | .object members => do
    checkLevel level
    let members ← inlineMembers (level + 1) members
    return "\x7b" ++ String.intercalate ", " members ++ "\x7d"
  | other => do
    checkLevel level
    return scalarLiteral other

def inlineItems (level : Nat) : List Json → Except Error (List String)
  | [] => return []
  | item :: rest => do
    let item ← inline level item
    let items ← inlineItems level rest
    return item :: items

def inlineMembers (level : Nat) : List (String × Json) → Except Error (List String)
  | [] => return []
  | (key, value) :: rest => do
    let value ← inline level value
    let members ← inlineMembers level rest
    return (Text.quoteWith '\'' key ++ ": " ++ value) :: members

end

/-- Neighbouring items of a list, which are equal or differ each from the next. -/
structure Run where
  items : List Json
  uniform : Bool

namespace Run

def literal (level : Nat) (run : Run) : Except Error String :=
  match run.uniform, run.items with
  | true, first :: _ => do
    let first ← inline level first
    return "[" ++ first ++ "] * " ++ toString run.items.length
  | _, items => do
    let items ← inlineItems level items
    return "[" ++ String.intercalate ", " items ++ "]"

/-- The runs of a list, the first of which begins with `current` and has `previous` last in it. -/
def split (current : Run) (previous : Json) : List Json → List Run
  | [] => [current]
  | item :: rest =>
    let repeats := previous.same item
    let starts := rest.head?.any item.same || current.uniform
    if !repeats && starts then current :: split ⟨[item], false⟩ item rest
    else split ⟨current.items ++ [item], repeats⟩ item rest

def ofList : List Json → List Run
  | [] => []
  | first :: rest => split ⟨[first], false⟩ first rest

end Run

def indentation (level : Nat) : String := String.join (List.replicate level "    ")

/-- Objects in a list, each on a line. -/
def objectLines (level : Nat) (items : List Json) : Except Error String := do
  let items ← inlineItems (level + 1) items
  return "[\n" ++ String.join (items.map fun item => indentation (level + 1) ++ item ++ ",\n")
    ++ indentation level ++ "]"

/-- A list, of which nothing but its length decides the form if it has one item or none. -/
def listLiteral (level : Nat) (items : List Json) : Except Error String :=
  match items with
  | first :: second :: rest => do
    if first.isObject then objectLines level items
    else if (second :: rest).all fun item => item.same first then
      Run.literal level ⟨items, true⟩
    else
      let runs ← (Run.ofList items).mapM (Run.literal level)
      return String.intercalate " + " runs
  | _ => inline level (.array items)

mutual

/-- The value of a key, with what separates it from the next key. -/
def member (level : Nat) : Json → Except Error String
  | .object members => do
    checkLevel (level + 1)
    if members.isEmpty then return "\x7b\x7d,\n"
    else
      let lines ← memberLines (level + 1) members
      return "\x7b\n" ++ lines ++ indentation level ++ "\x7d,\n"
  | .string s => return Text.quote s ++ ",\n"
  | .array items => do
    let list ← listLiteral level items
    return list ++ ",\n"
  | other => do
    let value ← inline level other
    return value ++ ",\n"

def memberLines (level : Nat) : List (String × Json) → Except Error String
  | [] => return ""
  | (key, value) :: rest => do
    let value ← member level value
    let lines ← memberLines level rest
    return indentation level ++ Text.quote key ++ ": " ++ value ++ lines

end

/-- The literal of a configuration. -/
def literal : Json → Except Error String
  | .object members =>
    if members.isEmpty then return "\x7b\x7d"
    else do
      let lines ← memberLines 1 members
      return "\x7b\n" ++ lines ++ "\x7d"
  | other => inline 1 other

end Qua.Configuration
