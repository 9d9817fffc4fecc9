import Qua.Json

/-!
# The content of JSON values

Each function gives what a value of one kind holds, and nothing for a value of another kind.
-/

namespace Qua.Json

def string? : Json → Option String
  | .string s => some s
  | _ => none

def bool? : Json → Option Bool
  | .bool b => some b
  | _ => none

def integer? : Json → Option Int
  | .integer n => some n
  | _ => none

/-- An integer of 32 bits. -/
def int32? (json : Json) : Option Int32 :=
  json.integer?.bind fun n =>
    if Int32.minValue.toInt ≤ n ∧ n ≤ Int32.maxValue.toInt then some (Int32.ofInt n) else none

/-- An integer of 64 bits. -/
def int64? (json : Json) : Option Int64 :=
  json.integer?.bind fun n =>
    if Int64.minValue.toInt ≤ n ∧ n ≤ Int64.maxValue.toInt then some (Int64.ofInt n) else none

/-- A natural number below a bound. -/
def below? (bound : Nat) (json : Json) : Option Nat :=
  json.integer?.bind fun n => if 0 ≤ n ∧ n < bound then some n.toNat else none

def items? : Json → Option (List Json)
  | .array items => some items
  | _ => none

/-- The value of a member of an object. -/
def member? (name : String) : Json → Option Json
  | .object members => lookup name members
  | _ => none

/-- A choice and its content: the name and the value of the only member of an object. -/
def choice? : Json → Option (String × Json)
  | .object [member] => some member
  | _ => none

/-- Reads the items of an array. -/
def all? (read : Json → Option α) (json : Json) : Option (List α) := do
  let items ← json.items?
  items.mapM read

def strings? (json : Json) : Option (List String) := json.all? string?

/-- Reads the value of a member. -/
def field? (read : Json → Option α) (name : String) (json : Json) : Option α :=
  (json.member? name).bind read

/-- Reads the value of a member that can be missing or null. -/
def optional? (read : Json → Option α) (name : String) (json : Json) : Option (Option α) :=
  match json.member? name with
  | none => some none
  | some .null => some none
  | some value => (read value).map some

/-- The choice that is written as the value. -/
def oneOf? (choices : List α) (write : α → Json) (json : Json) : Option α :=
  choices.find? fun choice => (write choice).same json

mutual

/-- How deep arrays and objects are nested. -/
def depth : Json → Nat
  | .array items => depthOfItems items + 1
  | .object members => depthOfMembers members + 1
  | _ => 0

def depthOfItems : List Json → Nat
  | [] => 0
  | item :: rest => max item.depth (depthOfItems rest)

def depthOfMembers : List (String × Json) → Nat
  | [] => 0
  | (_, value) :: rest => max value.depth (depthOfMembers rest)

end

end Qua.Json
