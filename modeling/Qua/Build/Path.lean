import Qua.Build.Error
import Qua.Statement

/-!
# Paths to blocks

A block inside a program is reached from the body by a path of statement indices, each with the block
of that statement to enter. An edit changes a block and gives a result; carried along a path it
changes the block that the path leads to and nothing else.
-/

namespace Qua

/-- Which block of a statement. -/
inductive Selector
  | body
  | elif (index : Nat)
  | otherwise
  | init
  | update
  deriving DecidableEq, Repr

/-- The steps from the body of the program inwards. -/
abbrev Path := List (Nat × Selector)

/-- A change of a part of the program, with a result. -/
abbrev Edit (σ α : Type) := StateT σ (Except BuildError) α

namespace Edit

/-- An edit of the item at an index. -/
def atIndex (index : Nat) (edit : Edit σ α) : Edit (List σ) α := fun items =>
  match items[index]? with
  | none => .error .unexpectedStack
  | some item =>
    match edit item with
    | .error e => .error e
    | .ok (result, item) => .ok (result, items.set index item)

/-- An edit of a part, put back into the whole. -/
def within (part : σ) (whole : σ → τ) (edit : Edit σ α) : Except BuildError (α × τ) :=
  match edit part with
  | .error e => .error e
  | .ok (result, part) => .ok (result, whole part)

def inBranch (edit : Edit (List σ) α) : Edit (Branch σ) α := fun branch =>
  within branch.body (fun body => { branch with body }) edit

/-- An edit of one block of a statement. -/
def inBlock (selector : Selector) (edit : Edit (List Statement) α) : Edit Statement α := fun s =>
  match s, selector with
  | .conditional c u body elifs otherwise l, .body =>
    within body (Statement.conditional c u · elifs otherwise l) edit
  | .conditional c u body elifs otherwise l, .elif index =>
    within elifs (Statement.conditional c u body · otherwise l) (atIndex index (inBranch edit))
  | .conditional c u body elifs (some otherwise) l, .otherwise =>
    within otherwise (fun block => Statement.conditional c u body elifs (some block) l) edit
  | .loop init c update body l, .body => within body (Statement.loop init c update · l) edit
  | .loop init c update body l, .init => within init (Statement.loop · c update body l) edit
  | .loop init c update body l, .update => within update (Statement.loop init c · body l) edit
  | .forEach iterators body l, .body => within body (Statement.forEach iterators · l) edit
  | .strictTiming body l, .body => within body (Statement.strictTiming · l) edit
  | _, _ => .error .unexpectedStack

/-- An edit of the block that a path leads to. -/
def atPath : Path → Edit (List Statement) α → Edit (List Statement) α
  | [], edit => edit
  | (index, selector) :: path, edit => atIndex index (inBlock selector (atPath path edit))

/-- Appends a statement and gives its index. -/
def push (s : Statement) : Edit (List Statement) Nat := fun block =>
  .ok (block.length, block ++ [s])

/-- The index of the last statement, which has to be a conditional. -/
def lastConditional (missing : BuildError) : Edit (List Statement) Nat := fun block =>
  match block.getLast? with
  | some (.conditional ..) => .ok (block.length - 1, block)
  | _ => .error missing

/-- Adds an empty `elif` branch and gives its index. The location is that of the conditional. -/
def addElif (condition : Expression) : Edit Statement Nat
  | .conditional c u body elifs otherwise l =>
    .ok (elifs.length, .conditional c u body (elifs ++ [⟨condition, [], l⟩]) otherwise l)
  | _ => .error .unexpectedStack

/-- Adds an empty `else` block. -/
def addOtherwise (duplicate : BuildError) : Edit Statement Unit
  | .conditional c u body elifs otherwise l =>
    match otherwise with
    | none => .ok ((), .conditional c u body elifs (some []) l)
    | some _ => .error duplicate
  | _ => .error .unexpectedStack

/-- Fails if the conditional has an `else` block. -/
def refuseOtherwise (e : BuildError) : Edit Statement Unit
  | s@(.conditional _ _ _ _ otherwise _) => if otherwise.isSome then .error e else .ok ((), s)
  | _ => .error .unexpectedStack

/-- Sets the condition of a loop. -/
def setCondition (condition : Expression) : Edit Statement Unit
  | .loop init _ update body l => .ok ((), .loop init (some condition) update body l)
  | _ => .error .unexpectedStack

end Edit
end Qua
