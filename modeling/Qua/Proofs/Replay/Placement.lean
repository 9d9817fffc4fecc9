import Qua.Proofs.Replay.Arrangement
import Qua.Proofs.Renaming

/-!
# Places in a listing

The line at which each statement of a program stands in its listing. It depends on the streams that
have been declared before, since these take lines of their own. A loop that is written with one header
gets its assignments back from that header.
-/

namespace Qua

/-- The lines of a listing that are still to come, and the streams declared so far. -/
structure Place where
  declared : List String
  lines : List Nat

/-- Goes through the lines of a listing. -/
abbrev Placing (α : Type) := StateM Place α

namespace Placing

theorem bind_run (m : Placing α) (f : α → Placing β) (p : Place) : (m >>= f) p = f (m p).1 (m p).2 := rfl

@[simp] theorem pure_run (a : α) (p : Place) : (pure a : Placing α) p = (a, p) := rfl

end Placing

/-- The location of the statements that are built at a line. -/
def lineLocation (line : Nat) : String := "script:" ++ toString line

/-- Takes a line. -/
def nextLine : Placing String := fun p => (lineLocation (p.lines.headD 0), { p with lines := p.lines.tail })

/-- The streams declared so far. -/
def declaredNames : Placing (List String) := fun p => (p.declared, p)

/-- Takes the line that declares a stream. -/
def declarationLine (name : String) : Placing Unit := fun p => ((), ⟨name :: p.declared, p.lines.tail⟩)

def declarationLines : List String → Placing Unit
  | [] => return ()
  | name :: rest => do
    declarationLine name
    declarationLines rest

/-- Takes the line of the condition of a loop whose parts are blocks. -/
def conditionLine : Option Expression → Placing Unit
  | none => return ()
  | some _ => do
    let _ ← nextLine

/-- A block without statements takes a line nevertheless. -/
def orPassLine (isEmpty : Bool) (block : Placing (List Statement)) : Placing (List Statement) := do
  if isEmpty then
    let _ ← nextLine
    return []
  else block

/-- Takes a line and the lines of the block under it. -/
def underLine (isEmpty : Bool) (block : Placing (List Statement)) : Placing (String × List Statement) := do
  let l ← nextLine
  let block ← orPassLine isEmpty block
  return (l, block)

namespace Statement

section

variable (shorthand? : String → Option String) (σ : String → String)

mutual

/-- The statement with its streams renamed, at the lines that it takes. -/
def placed : Statement → Placing Statement
  | .action a _ => do
    declarationLines (undeclared shorthand? (← declaredNames) a.streamNames)
    let l ← nextLine
    return .action (a.mapStreams σ) l
  | .conditional c u body elifs otherwise _ => do
    let (l, body) ← underLine body.isEmpty (placedBlock body)
    let elifs ← placedBranches l elifs
    let otherwise ← placedOtherwise otherwise
    return .conditional c u body elifs otherwise l
  | .loop init c update body _ => do
    match loopShape init c update with
    | .general =>
      let l ← nextLine
      let (_, init) ← underLine init.isEmpty (placedBlock init)
      conditionLine c
      let (_, update) ← underLine update.isEmpty (placedBlock update)
      let (_, body) ← underLine body.isEmpty (placedBlock body)
      return .loop init c update body l
    | .counted target first _ next =>
      let (l, body) ← underLine body.isEmpty (placedBlock body)
      return .loop [.action (.assign target first) l] c [.action (.assign target next) l] body l
    | _ =>
      let (l, body) ← underLine body.isEmpty (placedBlock body)
      return .loop [] c [] body l
  | .forEach iterators body _ => do
    let (l, body) ← underLine body.isEmpty (placedBlock body)
    return .forEach iterators body l
  | .strictTiming body _ => do
    let (l, body) ← underLine body.isEmpty (placedBlock body)
    return .strictTiming body l

def placedBlock : List Statement → Placing (List Statement)
  | [] => return []
  | s :: rest => do
    let first ← placed s
    let others ← placedBlock rest
    return first :: others

/-- Branches have the location of their conditional. -/
def placedBranches (l : String) : List (Branch Statement) → Placing (List (Branch Statement))
  | [] => return []
  | ⟨c, body, _⟩ :: rest => do
    let (_, body) ← underLine body.isEmpty (placedBlock body)
    let others ← placedBranches l rest
    return ⟨c, body, l⟩ :: others

def placedOtherwise : Option (List Statement) → Placing (Option (List Statement))
  | none => return none
  | some body => do
    let (_, body) ← underLine body.isEmpty (placedBlock body)
    return some body

end

end

-- ---------------------------------------------------------------------------
-- Only locations change
-- ---------------------------------------------------------------------------

theorem eq_of_same_bool {e : Expression} (h : (e == .bool true) = true) : e = .bool true := by
  have h := Expression.beq_iff.mp h
  cases e with
  | literal value =>
    cases value <;> simp_all [Expression.represented, Literal.represented, Expression.bool]
  | _ => simp [Expression.represented, Expression.bool] at h

/-- What the shape of a loop says about its parts. -/
def ShapeFits (init : List Statement) (c : Option Expression) (update : List Statement) : LoopShape → Prop
  | .infinite => init = [] ∧ update = [] ∧ c = some (.bool true)
  | .while condition => init = [] ∧ update = [] ∧ c = some condition
  | .counted target first condition next => c = some condition ∧ ∃ target' l l',
      init = [.action (.assign target first) l] ∧ update = [.action (.assign target' next) l'] ∧
        target.represented = target'.represented
  | .general => True

theorem loopShape_fits (init : List Statement) (c : Option Expression) (update : List Statement) :
    ShapeFits init c update (loopShape init c update) := by
  unfold loopShape
  cases c with
  | none => trivial
  | some condition =>
    simp only
    split
    next =>
      by_cases hc : (condition == .bool true) = true
      · rw [if_pos hc]
        exact ⟨rfl, rfl, by rw [eq_of_same_bool hc]⟩
      · rw [if_neg hc]
        exact ⟨rfl, rfl, rfl⟩
    next target first l target' next l' =>
      by_cases ht : (target == target') = true
      · rw [if_pos ht]
        exact ⟨rfl, target', l, l', rfl, rfl, Expression.beq_iff.mp ht⟩
      · rw [if_neg ht]
        trivial
    next => trivial

/-- What is compared of a block: its streams renamed, without locations. -/
def shapeUnder (σ : String → String) (block : List Statement) : List Statement :=
  mapBlock (Action.mapStreams σ) (fun _ => "") (representedBlock block)

theorem orPassLine_shape {block : List Statement} {placing : Placing (List Statement)} (p : Place)
    (h : ∀ p, shapeUnder id (placing p).1 = shapeUnder σ block) :
    shapeUnder id (orPassLine block.isEmpty placing p).1 = shapeUnder σ block := by
  cases block with
  | nil => rfl
  | cons s rest => exact h p

theorem underLine_shape {block : List Statement} {placing : Placing (List Statement)} (p : Place)
    (h : ∀ p, shapeUnder id (placing p).1 = shapeUnder σ block) :
    shapeUnder id (underLine block.isEmpty placing p).1.2 = shapeUnder σ block :=
  orPassLine_shape (nextLine p).2 h

section

variable {shorthand? : String → Option String} {σ : String → String}

mutual

/-- A statement keeps its shape wherever it stands. -/
theorem placed_shape : (s : Statement) → (p : Place) →
    (placed shorthand? σ s p).1.represented.map (Action.mapStreams id) (fun _ => "") =
      s.represented.map (Action.mapStreams σ) fun _ => ""
  | .action a l, p => by
    rw [placed]
    simp only [Placing.bind_run, Placing.pure_run, represented, map, Action.mapExpressions_mapStreams,
      Action.mapStreams_id]
  | .conditional c u body elifs otherwise l, p => by
    rw [placed]
    simp only [Placing.bind_run, Placing.pure_run, represented, map]
    have hbody := underLine_shape p (placedBlock_shape body)
    rw [shapeUnder, shapeUnder] at hbody
    rw [hbody, placedBranches_shape, placedOtherwise_shape]
  | .forEach iterators body l, p => by
    have hbody := underLine_shape p (placedBlock_shape body)
    rw [placed]
    simp only [Placing.bind_run, Placing.pure_run, represented, map]
    rw [shapeUnder, shapeUnder] at hbody
    rw [hbody]
  | .strictTiming body l, p => by
    have hbody := underLine_shape p (placedBlock_shape body)
    rw [placed]
    simp only [Placing.bind_run, Placing.pure_run, represented, map]
    rw [shapeUnder, shapeUnder] at hbody
    rw [hbody]
  | .loop init c update body l, p => by
    have hfits := loopShape_fits init c update
    have hblock : ∀ (b : List Statement) (p : Place),
        (∀ p, shapeUnder id (placedBlock shorthand? σ b p).1 = shapeUnder σ b) →
        mapBlock (Action.mapStreams id) (fun _ => "") (representedBlock
          (underLine b.isEmpty (placedBlock shorthand? σ b) p).1.2) =
          mapBlock (Action.mapStreams σ) (fun _ => "") (representedBlock b) :=
      fun b p hb => underLine_shape p hb
    rw [placed]
    cases hs : loopShape init c update with
    | general =>
      simp only [Placing.bind_run, Placing.pure_run, represented, map]
      rw [hblock init _ (placedBlock_shape init), hblock update _ (placedBlock_shape update),
        hblock body _ (placedBlock_shape body)]
    | infinite =>
      rw [hs] at hfits
      obtain ⟨rfl, rfl, -⟩ := hfits
      simp only [Placing.bind_run, Placing.pure_run, represented, map]
      rw [hblock body _ (placedBlock_shape body)]
      rfl
    | «while» condition =>
      rw [hs] at hfits
      obtain ⟨rfl, rfl, -⟩ := hfits
      simp only [Placing.bind_run, Placing.pure_run, represented, map]
      rw [hblock body _ (placedBlock_shape body)]
      rfl
    | counted target first condition next =>
      rw [hs] at hfits
      obtain ⟨-, target', m, m', rfl, rfl, ht⟩ := hfits
      simp only [Placing.bind_run, Placing.pure_run, represented, map, representedBlock, mapBlock,
        Action.mapExpressions, Action.mapStreams, ht]
      rw [hblock body _ (placedBlock_shape body)]

theorem placedBlock_shape : (b : List Statement) → (p : Place) →
    shapeUnder id (placedBlock shorthand? σ b p).1 = shapeUnder σ b
  | [], p => rfl
  | s :: rest, p => by
    rw [placedBlock]
    simp only [Placing.bind_run, Placing.pure_run, shapeUnder, representedBlock, mapBlock]
    have hrest := placedBlock_shape rest (placed shorthand? σ s p).2
    rw [shapeUnder, shapeUnder] at hrest
    rw [placed_shape s, hrest]

theorem placedBranches_shape : (b : List (Branch Statement)) → (l : String) → (p : Place) →
    mapBranches (Action.mapStreams id) (fun _ => "")
        (representedBranches (placedBranches shorthand? σ l b p).1) =
      mapBranches (Action.mapStreams σ) (fun _ => "") (representedBranches b)
  | [], l, p => rfl
  | ⟨c, body, m⟩ :: rest, l, p => by
    rw [placedBranches]
    simp only [Placing.bind_run, Placing.pure_run, representedBranches, mapBranches]
    have hbody := underLine_shape p (placedBlock_shape body)
    rw [shapeUnder, shapeUnder] at hbody
    rw [hbody, placedBranches_shape rest]

theorem placedOtherwise_shape : (b : Option (List Statement)) → (p : Place) →
    mapOtherwise (Action.mapStreams id) (fun _ => "")
        (representedOtherwise (placedOtherwise shorthand? σ b p).1) =
      mapOtherwise (Action.mapStreams σ) (fun _ => "") (representedOtherwise b)
  | none, p => rfl
  | some body, p => by
    rw [placedOtherwise]
    simp only [Placing.bind_run, Placing.pure_run, representedOtherwise, mapOtherwise]
    have hbody := underLine_shape p (placedBlock_shape body)
    rw [shapeUnder, shapeUnder] at hbody
    rw [hbody]

end

end

end Statement
end Qua
