import Qua.Action

/-!
# Statements

The body of a program is a tree: actions, and blocks with conditions, loops and timing around them.
Every statement keeps the location in the script that it comes from.
-/

namespace Qua

/-- An `elif` branch. -/
structure Branch (σ : Type) where
  condition : Expression
  body : List σ
  location : String

/-- An array over which a loop runs, and the variable that takes its cells. -/
structure Iterator where
  variableName : String
  array : String
  deriving DecidableEq, Repr

inductive Statement
  | action (action : Action) (location : String)
  | conditional (condition : Expression) (isUnsafe : Bool) (body : List Statement)
      (elifs : List (Branch Statement)) (otherwise : Option (List Statement)) (location : String)
  /-- A loop without a condition is one whose parts are given as blocks. -/
  | loop (init : List Statement) (condition : Option Expression) (update body : List Statement)
      (location : String)
  | forEach (iterators : List Iterator) (body : List Statement) (location : String)
  | strictTiming (body : List Statement) (location : String)

namespace Statement

instance : Inhabited Statement := ⟨.action .pause ""⟩

/-- The name of the kind of statement in stored programs. -/
def kind : Statement → String
  | .action a _ => a.kind
  | .conditional .. => "If"
  | .loop .. => "For"
  | .forEach .. => "ForEach"
  | .strictTiming .. => "StrictTiming"

def location : Statement → String
  | .action _ l => l
  | .conditional _ _ _ _ _ l => l
  | .loop _ _ _ _ l => l
  | .forEach _ _ l => l
  | .strictTiming _ l => l

/-- Whether the statement holds statements. -/
def isBlock : Statement → Bool
  | .action .. => false
  | _ => true

/-- The streams that the statement itself writes to. -/
def streamNames : Statement → List String
  | .action a _ => a.streamNames
  | _ => []

mutual

/-- Equality of statements, in which literals are compared by `Literal.same`. -/
def same : Statement → Statement → Bool
  | .action a l, .action b m => a == b && l == m
  | .conditional c u b e o l, .conditional d v b' e' o' m =>
    c == d && u == v && sameBlock b b' && sameBranches e e' && sameOtherwise o o' && l == m
  | .loop i c u b l, .loop j d v b' m =>
    sameBlock i j && c == d && sameBlock u v && sameBlock b b' && l == m
  | .forEach i b l, .forEach j b' m => i == j && sameBlock b b' && l == m
  | .strictTiming b l, .strictTiming b' m => sameBlock b b' && l == m
  | _, _ => false

def sameBlock : List Statement → List Statement → Bool
  | [], [] => true
  | s :: ss, t :: ts => same s t && sameBlock ss ts
  | _, _ => false

def sameBranches : List (Branch Statement) → List (Branch Statement) → Bool
  | [], [] => true
  | ⟨c, b, l⟩ :: rest, ⟨d, b', m⟩ :: rest' =>
    c == d && sameBlock b b' && l == m && sameBranches rest rest'
  | _, _ => false

def sameOtherwise : Option (List Statement) → Option (List Statement) → Bool
  | none, none => true
  | some b, some b' => sameBlock b b'
  | _, _ => false

end

instance : BEq Statement := ⟨same⟩

end Statement
end Qua
