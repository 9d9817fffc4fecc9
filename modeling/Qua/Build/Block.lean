import Qua.Build.Statement

/-!
# Building blocks

Steps that open a scope give the number by which it is closed.
-/

namespace Qua

/-- What a loop over arrays runs through: an array, or literals of which one is made. -/
inductive ForEachValues
  | array (array : Expression)
  | literals (values : List Literal)

namespace Build

def openIf (condition : Expression) (isUnsafe : Bool) : Build Nat :=
  openBlock (.conditional condition isUnsafe [] [] none) .body

def openElif (condition : Expression) : Build Nat := do
  let path ← bodyPath
  let index ← edit path (Edit.lastConditional .elifWithoutIf)
  edit path (Edit.atIndex index (Edit.refuseOtherwise .elifAfterElse))
  let branch ← edit path (Edit.atIndex index (Edit.addElif condition))
  openScope (.body (path ++ [(index, .elif branch)]))

def openElse : Build Nat := do
  let path ← bodyPath
  let index ← edit path (Edit.lastConditional .elseWithoutIf)
  edit path (Edit.atIndex index (Edit.addOtherwise .duplicateElse))
  openScope (.body (path ++ [(index, .otherwise)]))

def openSwitch (value : Expression) (isUnsafe : Bool) : Build Nat := do
  let path ← bodyPath
  openScope (.switch path value isUnsafe none)

/-- Sets the index of the conditional that the innermost switch has become. -/
def setSwitchIndex (index : Nat) : Build Unit :=
  modify fun draft =>
    match draft.scopes with
    | ⟨id, .switch path value isUnsafe _⟩ :: outer =>
      { draft with scopes := ⟨id, .switch path value isUnsafe (some index)⟩ :: outer }
    | _ => draft

/-- The first case makes the conditional, and the others are its `elif` branches. -/
def openCase (value : Expression) : Build Nat := do
  match ← innermost with
  | some (.switch path switched isUnsafe none) =>
    let condition := Expression.binary .eq switched value
    let location := (← get).location
    let index ← edit path (Edit.push (.conditional condition isUnsafe [] [] none location))
    setSwitchIndex index
    openScope (.body (path ++ [(index, .body)]))
  | some (.switch path switched _ (some index)) =>
    let condition := Expression.binary .eq switched value
    let branch ← edit path (Edit.atIndex index (Edit.addElif condition))
    openScope (.body (path ++ [(index, .elif branch)]))
  | _ => throw (.expectedScope "switch scope")

def openDefault : Build Nat := do
  match ← innermost with
  | some (.switch path _ _ (some index)) =>
    edit path (Edit.atIndex index (Edit.addOtherwise .duplicateDefault))
    openScope (.body (path ++ [(index, .otherwise)]))
  | some (.switch _ _ _ none) => throw .defaultBeforeCase
  | _ => throw (.expectedScope "switch scope")

/-- A loop with one assignment before it and one after each round. -/
def openFor (variableTarget init condition update : Expression) : Build Nat := do
  let target ← assignTarget variableTarget
  openBlock
    (fun l => .loop [.action (.assign target init) l] (some condition)
      [.action (.assign target update) l] [] l)
    .body

def openWhile (condition : Expression) : Build Nat :=
  openBlock (.loop [] (some condition) [] []) .body

def openInfiniteLoop : Build Nat := openWhile (.bool true)

/-- A loop whose parts are opened one by one. -/
def openLoop : Build Nat := do
  let path ← bodyPath
  let location := (← get).location
  let index ← edit path (Edit.push (.loop [] none [] [] location))
  openScope (.loop path index)

/-- The loop whose parts can be opened. -/
def innermostLoop : Build (Path × Nat) := do
  match ← innermost with
  | some (.loop path index) => return (path, index)
  | _ => throw (.expectedScope "for scope")

/-- Opens a part of a loop: its initialisation, update or body. -/
def openLoopPart (selector : Selector) : Build Nat := do
  let (path, index) ← innermostLoop
  openScope (.body (path ++ [(index, selector)]))

def setLoopCondition (condition : Expression) : Build Unit := do
  let (path, index) ← innermostLoop
  edit path (Edit.atIndex index (Edit.setCondition condition))

/-- The name of the array that a loop runs through. -/
def forEachArray : ForEachValues → Build String
  | .array array =>
    match array.arrayName? with
    | some name => return name
    | none => throw .forEachValue
  | .literals values => do
    let array ← declareLiterals values
    match array.arrayName? with
    | some name => return name
    | none => throw .forEachValue

/-- The names of the variables of a loop, the first of which has an index. -/
def forEachVariables (index : Nat) : List Expression → Build (List String)
  | [] => return []
  | e :: rest =>
    match e.variableName? with
    | none => throw (.forEachVariable index)
    | some name => do
      let names ← forEachVariables (index + 1) rest
      return name :: names

def openForEach (targets : List Expression) (values : List ForEachValues) : Build Nat := do
  let names ← forEachVariables 0 targets
  if values.isEmpty then throw .emptyForEachValues
  let arrays ← values.mapM forEachArray
  if names.length ≠ arrays.length then throw .forEachArity
  openBlock (.forEach (names.zipWith Iterator.mk arrays) []) .body

def openStrictTiming : Build Nat := openBlock (.strictTiming []) .body

def openResults : Build Nat := do
  match ← innermost with
  | some .program => openScope .results
  | _ => throw (.expectedScope "program scope")

end Build
end Qua
