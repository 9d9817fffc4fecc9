import Qua.Replay.Value

/-!
# Arguments

A call takes its arguments one by one: each by its position if it was given there, else by its
keyword. What is left in the end was not expected.
-/

namespace Qua.Replay

/-- The arguments of a call, those that have been taken being none. -/
structure Arguments where
  /-- What messages call the function. -/
  function : String
  positional : List (Option Value)
  keywords : List (String × Option Value)

def Arguments.of (function : String) (positional : List Value) (keywords : List (String × Value)) :
    Arguments :=
  ⟨function, positional.map some, keywords.map fun (name, value) => (name, some value)⟩

def Arguments.isEmpty (a : Arguments) : Bool := a.positional.isEmpty && a.keywords.isEmpty

/-- Takes arguments. -/
abbrev Taking (α : Type) := StateT Arguments (Except ReplayFault) α

namespace Taking

/-- Takes the argument at a position, if it is there. -/
def takeAt (position : Nat) : Taking (Option Value) := do
  let a ← get
  match a.positional[position]? with
  | some (some value) =>
    set { a with positional := a.positional.set position none }
    return some value
  | _ => return none

/-- The keywords without the value of the first one of that name, and the value. -/
def splitKeyword (name : String) :
    List (String × Option Value) → Option Value × List (String × Option Value)
  | [] => (none, [])
  | (keyword, value) :: rest =>
    if keyword = name then (value, (keyword, none) :: rest)
    else
      let (found, rest) := splitKeyword name rest
      (found, (keyword, value) :: rest)

/-- Takes the first argument with a keyword, if there is one. -/
def takeKeyword (name : String) : Taking (Option Value) := do
  let a ← get
  let (value, keywords) := splitKeyword name a.keywords
  set { a with keywords := keywords }
  return value

/-- Takes an argument by position or keyword. -/
def take? (position : Nat) (name : String) : Taking (Option Value) := do
  match ← takeAt position with
  | some value => return some value
  | none => takeKeyword name

/-- What messages call the function. -/
def function : Taking String := return (← get).function

/-- An argument that has to be given. -/
def required (position : Nat) (name : String) : Taking Value := do
  match ← take? position name with
  | some value => return value
  | none => throw (.missingArgument (← function) name)

/-- An argument that may be missing or `None`. -/
def optional (position : Nat) (name : String) : Taking (Option Value) :=
  return (← take? position name).filter fun value => !value.isNone

/-- An argument that is given by its keyword, or missing or `None`. -/
def keyword (name : String) : Taking (Option Value) :=
  return (← takeKeyword name).filter fun value => !value.isNone

/-- Reads a value that is given. -/
def optionalAs (read : Value → Faulty α) (value : Option Value) : Taking (Option α) :=
  value.mapM fun value => liftM (read value)

def flag (position : Nat) (name : String) : Taking Bool :=
  return (← optionalAs Value.toBool (← optional position name)).getD false

/-- All positional arguments from a position on that have not been taken. -/
def rest (start : Nat) : Taking (List Value) := do
  let a ← get
  let tail := a.positional.drop start
  set { a with positional := a.positional.take start ++ tail.map fun _ => none }
  return tail.filterMap id

def texts (start : Nat) : Taking (List String) := do
  let values ← rest start
  values.mapM fun value => liftM value.toText

def text (position : Nat) (name : String) : Taking String := do
  let value ← required position name
  value.toText

def expression (position : Nat) (name : String) : Taking Expression := do
  let value ← required position name
  value.toExpression

def int (position : Nat) (name : String) : Taking Int64 := do
  let value ← required position name
  value.toInt

/-- An optional name of one of some choices. -/
def choice (ofName? : String → Option α) (position : Nat) (name : String) : Taking (Option α) := do
  match ← optional position name with
  | none => return none
  | some value =>
    let text ← value.toText
    match ofName? text with
    | some choice => return some choice
    | none => throw (.invalidArgument (← function) name text)

/-- The first argument that has not been taken: its position or keyword. -/
def unexpected? (a : Arguments) : Option String :=
  match a.positional.findIdx? Option.isSome with
  | some position => some (toString position)
  | none => (a.keywords.find? fun (_, value) => value.isSome).map Prod.fst

/-- Fails if an argument is left. -/
def finish (a : Arguments) : Faulty Unit :=
  match unexpected? a with
  | some argument => .error (.unexpectedArgument a.function argument)
  | none => .ok ()

end Taking
end Qua.Replay
