import Qua.Statement

/-!
# Walking through statements

All traversals go depth first, a statement before the statements in it, and through the blocks of a
statement in one order: of a conditional the body, the `elif` branches and the `else`; of a loop the
initialisation, the update and the body.
-/

namespace Qua.Statement

mutual

/-- The statement and all statements in it. -/
def walk : Statement → List Statement
  | s@(.action ..) => [s]
  | s@(.conditional _ _ body elifs otherwise _) =>
    s :: (walkBlock body ++ walkBranches elifs ++ walkOtherwise otherwise)
  | s@(.loop init _ update body _) => s :: (walkBlock init ++ walkBlock update ++ walkBlock body)
  | s@(.forEach _ body _) => s :: walkBlock body
  | s@(.strictTiming body _) => s :: walkBlock body

def walkBlock : List Statement → List Statement
  | [] => []
  | s :: rest => s.walk ++ walkBlock rest

def walkBranches : List (Branch Statement) → List Statement
  | [] => []
  | ⟨_, body, _⟩ :: rest => walkBlock body ++ walkBranches rest

def walkOtherwise : Option (List Statement) → List Statement
  | none => []
  | some body => walkBlock body

end

mutual

/-- Changes every action and every location. -/
def map (f : Action → Action) (g : String → String) : Statement → Statement
  | .action a l => .action (f a) (g l)
  | .conditional c u body elifs otherwise l =>
    .conditional c u (mapBlock f g body) (mapBranches f g elifs) (mapOtherwise f g otherwise) (g l)
  | .loop init c update body l =>
    .loop (mapBlock f g init) c (mapBlock f g update) (mapBlock f g body) (g l)
  | .forEach iterators body l => .forEach iterators (mapBlock f g body) (g l)
  | .strictTiming body l => .strictTiming (mapBlock f g body) (g l)

def mapBlock (f : Action → Action) (g : String → String) : List Statement → List Statement
  | [] => []
  | s :: rest => s.map f g :: mapBlock f g rest

def mapBranches (f : Action → Action) (g : String → String) :
    List (Branch Statement) → List (Branch Statement)
  | [] => []
  | ⟨c, body, l⟩ :: rest => ⟨c, mapBlock f g body, g l⟩ :: mapBranches f g rest

def mapOtherwise (f : Action → Action) (g : String → String) :
    Option (List Statement) → Option (List Statement)
  | none => none
  | some body => some (mapBlock f g body)

end

/-- The streams that the statements of a block write to, in the order of the walk. -/
def blockStreamNames (block : List Statement) : List String :=
  (walkBlock block).flatMap streamNames

/-- Renames the streams that the statements of a block write to. -/
def mapBlockStreams (f : String → String) (block : List Statement) : List Statement :=
  mapBlock (Action.mapStreams f) id block

end Qua.Statement
