import Qua.Build.Session
import Qua.Proofs.Run

/-!
# Blocks in their surroundings

A block of a program is what fills a hole in the body. Its path is that of the hole, an edit along
the path is an edit of the filling, and the surroundings stay as they are (`Context.atPath_plug`). The
steps of a build are stated here for a draft whose innermost scope is such a block.
-/

namespace Qua

-- ---------------------------------------------------------------------------
-- Holes and contexts
-- ---------------------------------------------------------------------------

/-- A statement without one of its blocks. -/
inductive Hole
  | conditional (condition : Expression) (isUnsafe : Bool) (elifs : List (Branch Statement))
      (otherwise : Option (List Statement)) (location : String)
  | branch (condition : Expression) (isUnsafe : Bool) (body : List Statement)
      (before : List (Branch Statement)) (taken : Expression) (takenLocation : String)
      (after : List (Branch Statement)) (otherwise : Option (List Statement)) (location : String)
  | alternative (condition : Expression) (isUnsafe : Bool) (body : List Statement)
      (elifs : List (Branch Statement)) (location : String)
  | init (condition : Option Expression) (update body : List Statement) (location : String)
  | update (init : List Statement) (condition : Option Expression) (body : List Statement)
      (location : String)
  | loop (init : List Statement) (condition : Option Expression) (update : List Statement)
      (location : String)
  | forEach (iterators : List Iterator) (location : String)
  | strictTiming (location : String)

namespace Hole

def selector : Hole → Selector
  | .conditional .. => .body
  | .branch _ _ _ before _ _ _ _ _ => .elif before.length
  | .alternative .. => .otherwise
  | .init .. => .init
  | .update .. => .update
  | .loop .. => .body
  | .forEach .. => .body
  | .strictTiming _ => .body

/-- The statement with the block in its place. -/
def fill : Hole → List Statement → Statement
  | .conditional c u elifs otherwise l, block => .conditional c u block elifs otherwise l
  | .branch c u body before taken m after otherwise l, block =>
    .conditional c u body (before ++ ⟨taken, block, m⟩ :: after) otherwise l
  | .alternative c u body elifs l, block => .conditional c u body elifs (some block) l
  | .init c next body l, block => .loop block c next body l
  | .update first c body l, block => .loop first c block body l
  | .loop first c next l, block => .loop first c next block l
  | .forEach iterators l, block => .forEach iterators block l
  | .strictTiming l, block => .strictTiming block l

end Hole

namespace Edit

theorem atIndex_middle (edit : Edit σ α) (before : List σ) (item : σ) (after : List σ) :
    atIndex before.length edit (before ++ item :: after) =
      within item (fun item => before ++ item :: after) edit := by
  simp only [atIndex, within, List.getElem?_append_right (Nat.le_refl _), Nat.sub_self,
    List.getElem?_cons_zero]
  cases edit item with
  | error e => rfl
  | ok result => simp [List.set_append_right _ _ (Nat.le_refl _)]

theorem atIndex_last (edit : Edit σ α) (before : List σ) (item : σ) :
    atIndex before.length edit (before ++ [item]) =
      within item (fun item => before ++ [item]) edit :=
  atIndex_middle edit before item []

theorem inBlock_fill (edit : Edit (List Statement) α) (hole : Hole) (block : List Statement) :
    inBlock hole.selector edit (hole.fill block) = within block hole.fill edit := by
  cases hole with
  | branch c u body before taken m after otherwise l =>
    simp only [Hole.selector, Hole.fill, inBlock]
    rw [within, atIndex_middle, within, inBranch, within]
    cases h : edit block <;> simp [within, h, Hole.fill]
  | _ => rfl

end Edit

/-- A statement with a hole, between the other statements of its block. -/
structure Level where
  before : List Statement
  hole : Hole
  after : List Statement

/-- The surroundings of a block, from the body of the program inwards. -/
abbrev Context := List Level

namespace Context

def plug : Context → List Statement → List Statement
  | [], block => block
  | level :: inner, block => level.before ++ level.hole.fill (plug inner block) :: level.after

def path (context : Context) : Path :=
  context.map fun level => (level.before.length, level.hole.selector)

/-- The context of a block of the last statement of a block. -/
def enter (context : Context) (before : List Statement) (hole : Hole) : Context :=
  context ++ [⟨before, hole, []⟩]

theorem plug_enter (context : Context) (before block : List Statement) (hole : Hole) :
    (context.enter before hole).plug block = context.plug (before ++ [hole.fill block]) := by
  induction context with
  | nil => rfl
  | cons level inner ih =>
    simp only [enter, List.cons_append, plug] at ih ⊢
    rw [ih]

theorem path_enter (context : Context) (before : List Statement) (hole : Hole) :
    (context.enter before hole).path = context.path ++ [(before.length, hole.selector)] := by
  simp [enter, path]

/-- An edit along the path changes the block in the hole and nothing around it. -/
theorem atPath_plug (edit : Edit (List Statement) α) (context : Context) (block : List Statement) :
    Edit.atPath context.path edit (context.plug block) = Edit.within block context.plug edit := by
  induction context with
  | nil =>
    simp only [path, List.map_nil, Edit.atPath, plug, Edit.within]
    cases edit block with
    | error e => rfl
    | ok result => rfl
  | cons level inner ih =>
    simp only [path, List.map_cons, Edit.atPath, plug] at ih ⊢
    rw [Edit.atIndex_middle, Edit.within, Edit.inBlock_fill, Edit.within]
    rw [ih]
    simp only [Edit.within]
    cases edit block with
    | error e => rfl
    | ok result => rfl

end Context

-- ---------------------------------------------------------------------------
-- Sites
-- ---------------------------------------------------------------------------

/-- Where something is being built: the body, the open scopes and the location. -/
structure Site where
  body : List Statement
  scopes : List Frame
  nextScope : Nat
  location : String

namespace Draft

def site (d : Draft) : Site := ⟨d.program.body, d.scopes, d.nextScope, d.location⟩

/-- The same declarations, streams and saves at another site. -/
def moved (d : Draft) (s : Site) : Draft :=
  { d with
    program := { d.program with body := s.body }
    scopes := s.scopes
    nextScope := s.nextScope
    location := s.location }

@[simp] theorem site_moved (d : Draft) (s : Site) : (d.moved s).site = s := rfl
@[simp] theorem moved_moved (d : Draft) (s t : Site) : (d.moved s).moved t = d.moved t := rfl
@[simp] theorem moved_site (d : Draft) : d.moved d.site = d := rfl
@[simp] theorem scopes_moved (d : Draft) (s : Site) : (d.moved s).scopes = s.scopes := rfl
@[simp] theorem body_moved (d : Draft) (s : Site) : (d.moved s).program.body = s.body := rfl
@[simp] theorem location_moved (d : Draft) (s : Site) : (d.moved s).location = s.location := rfl

end Draft

/-- The path of the block that a scope appends to. -/
def Scope.blockPath? : Scope → Option Path
  | .program => some []
  | .body path => some path
  | _ => none

namespace Site

/-- Statements are appended to the block in the hole of `context`, which holds `block`. -/
structure At (context : Context) (block : List Statement) (s : Site) : Prop where
  path : s.scopes.head?.bind (·.scope.blockPath?) = some context.path
  body : s.body = context.plug block

/-- The site with one more scope. -/
def opened (s : Site) (scope : Scope) : Site :=
  { s with scopes := ⟨s.nextScope, scope⟩ :: s.scopes, nextScope := s.nextScope + 1 }

end Site

-- ---------------------------------------------------------------------------
-- Steps at a site
-- ---------------------------------------------------------------------------

namespace Build

theorem innermost_run (d : Draft) : innermost d = .ok (d.scopes.head?.map Frame.scope, d) := rfl

theorem bodyPath_run {d : Draft} (h : d.scopes.head?.bind (·.scope.blockPath?) = some path) :
    bodyPath d = .ok (path, d) := by
  simp only [bodyPath, bind_run, innermost_run]
  cases hs : d.scopes.head? with
  | none => simp [hs] at h
  | some frame =>
    simp only [hs, Option.bind_some] at h
    cases hf : frame.scope <;> simp_all [Scope.blockPath?]

theorem openScope_run (scope : Scope) (d : Draft) (s : Site) :
    openScope scope (d.moved s) = .ok (s.nextScope, d.moved (s.opened scope)) := rfl

/-- An edit of the block in the hole. -/
theorem edit_plug (change : Edit (List Statement) α) (d : Draft) {s : Site}
    (h : s.body = Context.plug C block) :
    edit C.path change (d.moved s) = match change block with
      | .ok (result, block) => .ok (result, d.moved { s with body := C.plug block })
      | .error e => .error e := by
  simp only [edit, bind_run, get_run, Draft.body_moved, h, Context.atPath_plug, Edit.within]
  cases change block with
  | error e => rfl
  | ok result => rfl

theorem append_run (statement : String → Statement) (d : Draft) {s : Site} (h : s.At C block) :
    append statement (d.moved s) =
      .ok ((), d.moved { s with body := C.plug (block ++ [statement s.location]) }) := by
  have hp : bodyPath (d.moved s) = .ok (C.path, d.moved s) := bodyPath_run h.path
  simp only [append, bind_run, hp, get_run]
  rw [edit_plug _ d h.body]
  rfl

theorem openBlock_run (statement : String → Statement) (d : Draft) {s : Site} (h : s.At C block)
    (hole : Hole) (hs : statement s.location = hole.fill []) :
    openBlock statement hole.selector (d.moved s) =
      .ok (s.nextScope, d.moved (Site.opened { s with body := (C.enter block hole).plug [] }
        (.body (C.enter block hole).path))) := by
  have hp : bodyPath (d.moved s) = .ok (C.path, d.moved s) := bodyPath_run h.path
  simp only [openBlock, bind_run, hp, get_run, Draft.location_moved]
  rw [edit_plug _ d h.body]
  simp only [Edit.push, hs, Context.plug_enter, Context.path_enter, openScope_run]

/-- A scope that has been opened is closed by its number. -/
theorem closeScope_run (d : Draft) {s : Site} {number : Nat}
    (h : s.scopes = ⟨number, scope⟩ :: outer) (hs : scope.isProgram = false) :
    closeScope number (d.moved s) = .ok ((), d.moved { s with scopes := outer }) := by
  simp only [closeScope, bind_run, get_run, Draft.scopes_moved, h]
  simp only [hs, decide_true, Bool.not_false, Bool.and_self, if_true]
  rfl

end Build
end Qua
