import Qua.Action.Render
import Qua.Statement

/-!
# The line of a statement

Actions are written on one line; of a block this is the line that opens it.
-/

namespace Qua

/-- The forms in which a loop can be written. -/
inductive LoopShape
  | infinite
  | while (condition : Expression)
  /-- One assignment before the loop and one after each round, to the same target. -/
  | counted (target init condition update : Expression)
  /-- Everything else: the parts of the loop are blocks of their own. -/
  | general

def loopShape (init : List Statement) (condition : Option Expression) (update : List Statement) :
    LoopShape :=
  match condition with
  | none => .general
  | some condition =>
    match init, update with
    | [], [] => if condition == .bool true then .infinite else .while condition
    | [.action (.assign target first) _], [.action (.assign target' next) _] =>
      if target == target' then .counted target first condition next else .general
    | _, _ => .general

namespace LoopShape

def isGeneral : LoopShape → Bool
  | .general => true
  | _ => false

def name : LoopShape → String
  | .infinite => "Infinite"
  | .while _ => "While"
  | .counted .. => "Counted"
  | .general => "General"

def header : LoopShape → Except RenderError String
  | .infinite => .ok "with infinite_loop_():"
  | .while condition => do
    let condition ← condition.render
    return "with while_(" ++ condition ++ "):"
  | .counted target init condition update => do
    let parts ← renderJoined "," [target, init, condition, update]
    return "with for_(" ++ parts ++ "):"
  | .general => .ok "with for_():"

end LoopShape

/-- The line that opens a conditional. -/
def ifHeader (condition : Expression) (isUnsafe : Bool) : Except RenderError String := do
  let condition ← condition.render
  return "with if_(" ++ condition ++ (if isUnsafe then ", unsafe=True" else "") ++ "):"

def elifHeader (condition : Expression) : Except RenderError String := do
  let condition ← condition.render
  return "with elif_(" ++ condition ++ "):"

def forEachHeader (iterators : List Iterator) : String :=
  "with for_each_((" ++ String.intercalate "," (iterators.map Iterator.variableName) ++ "),("
    ++ String.intercalate "," (iterators.map Iterator.array) ++ ")):"

/-- The line of a statement, without the statements in it. -/
def Statement.header : Statement → Except RenderError String
  | .action a _ => a.render
  | .conditional condition isUnsafe _ _ _ _ => ifHeader condition isUnsafe
  | .loop init condition update _ _ => (loopShape init condition update).header
  | .forEach iterators _ _ => .ok (forEachHeader iterators)
  | .strictTiming _ _ => .ok "with strict_timing_():"

end Qua
