import Qua.Replay.Method

/-!
# Evaluating terms

A name is first looked for among the names that the script has assigned to; only a name that it has
not assigned to is a type, a register, a function or a module.
-/

namespace Qua.Replay

structure State where
  draft : Draft := {}
  environment : List (String × Value) := []
  inProgram : Bool := false
  /-- How many program blocks there have been. -/
  programs : Nat := 0

end Replay

/-- Replays a part of a script. -/
abbrev Replay (α : Type) := StateT Replay.State (Except ReplayError) α

namespace Replay

open Script (Term)

def fault (f : ReplayFault) : Replay α := throw { fault := f }

def liftFaulty (result : Faulty α) : Replay α :=
  match result with
  | .ok value => return value
  | .error f => fault f

/-- Makes a step of the build. -/
def build (step : Build α) : Replay α := fun state =>
  match step state.draft with
  | .ok (result, draft) => .ok (result, { state with draft := draft })
  | .error e => .error { fault := .build e }

/-- Makes the step that a call gives, and then looks whether all of its arguments were taken. -/
def perform (call : Taking (Build α)) (arguments : Arguments) : Replay α := do
  let (step, left) ← liftFaulty (call.run arguments)
  let result ← build step
  liftFaulty (Taking.finish left)
  return result

/-- Whether the script has assigned to the name. -/
def isBound (name : String) : Replay Bool := return ((← get).environment.lookup name).isSome

def lookup (name : String) : Replay Value := do
  match (← get).environment.lookup name with
  | some value => return value
  | none =>
    match ScalarType.ofName? name with
    | some scalarType => return .type scalarType
    | none =>
      match Register.ofName? name with
      | some register => return .expression (.var (.io register))
      | none => fault (.unknownName name)

/-- What messages call a term. -/
def contextName : Term → String
  | .name name => name
  | .call function _ _ => contextName function ++ "()"
  | .attribute value name => contextName value ++ "." ++ name
  | _ => "expression"

/-- An item of a list, or a cell of an array. -/
def indexed (value index : Value) : Faulty Value := do
  match value with
  | .list items | .tuple items =>
    let position ← index.toInt
    if position.toInt < 0 then .error (.unsupportedOperator "[-n]")
    else
      match items[position.toInt.toNat]? with
      | some item => return item
      | none => .error (.invalidArgument "[]" "index" (toString position.toInt))
  | array =>
    let array ← array.toExpression
    let index ← index.toExpression
    .expression <$> Faulty.ofExpression (array.index index)

/-- An integer of a script, which has to be one of 64 bits with a sign. -/
def integer (n : UInt64) : Faulty Value :=
  if n.toNat ≤ Int64.maxValue.toInt then .ok (.int n.toInt64)
  else .error (.expression (.integerOutOfRange n.toNat))

/-- A function that is called by its name; the arguments have been evaluated. -/
def callBuiltin (name : String) (arguments : Arguments) : Replay Value := do
  if (← get).inProgram then perform (builtin name) arguments
  else fault (.outsideProgram (name ++ "()"))

mutual

def evaluate : Term → Replay Value
  | .name name => lookup name
  | .int n => liftFaulty (integer n)
  | .float x => return .float x
  | .string s => return .string s
  | .bool b => return .bool b
  | .none => return .none
  | .tuple items => do
    let items ← evaluateAll items
    return .tuple items
  | .list items => do
    let items ← evaluateAll items
    return .list items
  | .dict entries => do
    evaluateEntries entries
    return .dict
  | .call (.name name) arguments keywords => do
    if ← isBound name then fault (.unknownFunction name)
    else
      let arguments ← evaluateAll arguments
      let keywords ← evaluateKeywords keywords
      callBuiltin name (.of name arguments keywords)
  | .call (.attribute (.name module) name) arguments keywords => do
    let inProgram := (← get).inProgram
    if !(← isBound module) && isModule module then
      let arguments ← evaluateAll arguments
      let keywords ← evaluateKeywords keywords
      perform (moduleFunction inProgram module name)
        (.of (module ++ "." ++ name) arguments keywords)
    else
      let receiver ← lookup module
      let arguments ← evaluateAll arguments
      let keywords ← evaluateKeywords keywords
      perform (method inProgram receiver name) (.of name arguments keywords)
  | .call (.attribute value name) arguments keywords => do
    let inProgram := (← get).inProgram
    let receiver ← evaluate value
    let arguments ← evaluateAll arguments
    let keywords ← evaluateKeywords keywords
    perform (method inProgram receiver name) (.of name arguments keywords)
  | .call function _ _ => fault (.unknownFunction (contextName function))
  | .attribute value name => fault (.unknownName (contextName value ++ "." ++ name))
  | .index value index => do
    let value ← evaluate value
    let index ← evaluate index
    liftFaulty (indexed value index)
  | .binary operator left right => do
    let left ← evaluate left
    let right ← evaluate right
    liftFaulty (binary operator left right)
  | .unary operator operand => do
    let operand ← evaluate operand
    liftFaulty (unary operator operand)

def evaluateAll : List Term → Replay (List Value)
  | [] => return []
  | term :: rest => do
    let value ← evaluate term
    let values ← evaluateAll rest
    return value :: values

def evaluateKeywords : List (String × Term) → Replay (List (String × Value))
  | [] => return []
  | (name, term) :: rest => do
    let value ← evaluate term
    let values ← evaluateKeywords rest
    return (name, value) :: values

def evaluateEntries : List (Term × Term) → Replay Unit
  | [] => return ()
  | (key, value) :: rest => do
    let _ ← evaluate key
    let _ ← evaluate value
    evaluateEntries rest

end

end Replay
end Qua
