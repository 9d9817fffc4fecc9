import Qua.Program

/-!
# Sameness as equality of representatives

Programs are compared by a rule that takes the two zeros for one number and all NaNs for one. Here
every level of a program gets a representative, in which each literal is replaced by the one that
stands for all that are the same, and two programs compare as equal exactly if their representatives
are equal (`Program.beq_iff`). Reflexivity, symmetry and transitivity are those of equality.
-/

namespace Qua

-- ---------------------------------------------------------------------------
-- Numbers, literals and expressions
-- ---------------------------------------------------------------------------

namespace Binary64

theorem isZero_zero : zero.isZero = true := by decide
theorem isZero_nan : nan.isZero = false := by decide
theorem isNaN_nan : nan.isNaN = true := by decide

theorem isNaN_of_isZero {x : Binary64} (h : x.isZero = true) : x.isNaN = false := by
  simp only [isZero, decide_eq_true_eq] at h
  simp [isNaN, h]

theorem not_isNaN_of_isFinite {x : Binary64} (h : x.isFinite = true) : x.isNaN = false := by
  simp only [isFinite, isNaN, decide_eq_true_eq, decide_eq_false_iff_not] at h ⊢
  omega

theorem same_iff (x y : Binary64) : x.same y = true ↔ x.representative = y.representative := by
  have hbits : (x.bits == y.bits) = true ↔ x = y := by
    cases x; cases y; simp
  simp only [same, Bool.or_eq_true, Bool.and_eq_true, hbits, representative]
  by_cases hx : x.isZero <;> by_cases hy : y.isZero <;> by_cases nx : x.isNaN <;>
    by_cases ny : y.isNaN <;> simp only [hx, hy, nx, ny, if_true]
  all_goals
    have hz := isZero_zero
    have hn := isZero_nan
    have hm := isNaN_nan
    grind [isNaN_of_isZero]

end Binary64

def Literal.represented : Literal → Literal
  | .fixed x => .fixed x.representative
  | other => other

theorem Literal.same_iff (a b : Literal) : a.same b = true ↔ a.represented = b.represented := by
  cases a <;> cases b <;> simp [same, represented, Binary64.same_iff]

namespace Expression

mutual
def represented : Expression → Expression
  | .cell a i => .cell a i.represented
  | .literal value => .literal value.represented
  | .binary o l r => .binary o l.represented r.represented
  | .call l f as => .call l f (representedAll as)
  | .var v => .var v
  | .array a => .array a
  | .length a => .length a
def representedAll : List Expression → List Expression
  | [] => []
  | e :: rest => e.represented :: representedAll rest
end

theorem representedAll_eq_map (es : List Expression) :
    representedAll es = es.map represented := by
  induction es with
  | nil => rfl
  | cons e rest ih => simp [representedAll, ih]

mutual
theorem same_iff : (a b : Expression) → (same a b = true ↔ a.represented = b.represented)
  | .var _, b => by cases b <;> simp [same, represented]
  | .array _, b => by cases b <;> simp [same, represented]
  | .cell _ i, b => by
    cases b with
    | cell _ j => simp [same, represented, same_iff i j]
    | _ => simp [same, represented]
  | .literal _, b => by cases b <;> simp [same, represented, Literal.same_iff]
  | .binary _ l r, b => by
    cases b with
    | binary _ m s => simp [same, represented, same_iff l m, same_iff r s, and_assoc]
    | _ => simp [same, represented]
  | .call _ _ as, b => by
    cases b with
    | call _ _ bs => simp [same, represented, sameAll_iff as bs, and_assoc]
    | _ => simp [same, represented]
  | .length _, b => by cases b <;> simp [same, represented]
theorem sameAll_iff : (as bs : List Expression) →
    (sameAll as bs = true ↔ representedAll as = representedAll bs)
  | [], [] => by simp [sameAll, representedAll]
  | [], _ :: _ => by simp [sameAll, representedAll]
  | _ :: _, [] => by simp [sameAll, representedAll]
  | a :: as, b :: bs => by simp [sameAll, representedAll, same_iff a b, sameAll_iff as bs]
end

theorem beq_iff {a b : Expression} : (a == b) = true ↔ a.represented = b.represented :=
  same_iff a b

end Expression

/-- Comparing lists item by item is comparing the lists of representatives. -/
theorem list_beq_iff [BEq α] {f : α → β} (h : ∀ a b : α, (a == b) = true ↔ f a = f b) :
    (as bs : List α) → ((as == bs) = true ↔ as.map f = bs.map f)
  | [], [] => by simp
  | [], _ :: _ => by simp
  | _ :: _, [] => by simp
  | a :: as, b :: bs => by simp [h a b, list_beq_iff h as bs]

theorem option_beq_iff [BEq α] {f : α → β} (h : ∀ a b : α, (a == b) = true ↔ f a = f b)
    (a b : Option α) : (a == b) = true ↔ a.map f = b.map f := by
  cases a <;> cases b <;> simp [h]

-- ---------------------------------------------------------------------------
-- Actions
-- ---------------------------------------------------------------------------

section
variable (f : Expression → Expression)

def Matrix.mapExpressions (m : Matrix) : Matrix := ⟨f m.c00, f m.c01, f m.c10, f m.c11⟩

def Pulse.mapExpressions : Pulse → Pulse
  | .named name => .named name
  | .ramp rate => .ramp (f rate)

def Amp.mapExpressions : Amp → Amp
  | .scalar value => .scalar (f value)
  | .matrix values => .matrix (values.mapExpressions f)

def Chirp.mapExpressions (c : Chirp) : Chirp := { c with rate := f c.rate }

def ProcessTarget.mapExpressions : ProcessTarget → ProcessTarget
  | .full target => .full (f target)
  | other => other

def MeasureProcess.mapExpressions : MeasureProcess → MeasureProcess
  | .analog p => .analog { p with target := p.target.mapExpressions f }
  | other => other

def Play.mapExpressions (p : Play) : Play :=
  { p with
    pulse := p.pulse.mapExpressions f
    amp := p.amp.map (Amp.mapExpressions f)
    duration := p.duration.map f
    condition := p.condition.map f
    chirp := p.chirp.map (Chirp.mapExpressions f)
    truncate := p.truncate.map f }

def Measure.mapExpressions (m : Measure) : Measure :=
  { m with
    amp := m.amp.map (Amp.mapExpressions f)
    processes := m.processes.map (MeasureProcess.mapExpressions f) }

/-- Changes every expression that an action holds. -/
def Action.mapExpressions : Action → Action
  | .play p => .play (p.mapExpressions f)
  | .measure m => .measure (m.mapExpressions f)
  | .wait duration elements => .wait (f duration) elements
  | .assign target value => .assign (f target) (f value)
  | .save source stream => .save (f source) stream
  | .updateFrequency element value units keepPhase =>
    .updateFrequency element (f value) units keepPhase
  | .updateCorrection element correction => .updateCorrection element (correction.mapExpressions f)
  | .setDcOffset element input offset => .setDcOffset element input (f offset)
  | .advanceInputStream stream => .advanceInputStream (f stream)
  | .zRotation angle element => .zRotation (f angle) element
  | .fastFrameRotation cosine sine element => .fastFrameRotation (f cosine) (f sine) element
  | other => other

end

section
open Expression (represented)

theorem Matrix.beq_iff (a b : Matrix) :
    (a == b) = true ↔ a.mapExpressions represented = b.mapExpressions represented := by
  change instBEqMatrix.beq a b = true ↔ _
  cases a; cases b
  simp [instBEqMatrix.beq, mapExpressions, Expression.beq_iff]

theorem Pulse.beq_iff (a b : Pulse) :
    (a == b) = true ↔ a.mapExpressions represented = b.mapExpressions represented := by
  change instBEqPulse.beq a b = true ↔ _
  cases a <;> cases b <;> simp [instBEqPulse.beq, mapExpressions, Expression.beq_iff]

theorem Amp.beq_iff (a b : Amp) :
    (a == b) = true ↔ a.mapExpressions represented = b.mapExpressions represented := by
  change instBEqAmp.beq a b = true ↔ _
  cases a <;> cases b <;>
    simp [instBEqAmp.beq, mapExpressions, Expression.beq_iff, Matrix.beq_iff]

theorem Chirp.beq_iff (a b : Chirp) :
    (a == b) = true ↔ a.mapExpressions represented = b.mapExpressions represented := by
  change instBEqChirp.beq a b = true ↔ _
  cases a; cases b
  simp [instBEqChirp.beq, mapExpressions, Expression.beq_iff]

theorem ProcessTarget.beq_iff (a b : ProcessTarget) :
    (a == b) = true ↔ a.mapExpressions represented = b.mapExpressions represented := by
  change instBEqProcessTarget.beq a b = true ↔ _
  cases a <;> cases b <;> simp [instBEqProcessTarget.beq, mapExpressions, Expression.beq_iff]

theorem TimeTagging.beq_iff (a b : TimeTagging) : (a == b) = true ↔ a = b := by
  change instBEqTimeTagging.beq a b = true ↔ _
  cases a; cases b
  simp [instBEqTimeTagging.beq]

theorem Counting.beq_iff (a b : Counting) : (a == b) = true ↔ a = b := by
  change instBEqCounting.beq a b = true ↔ _
  cases a; cases b
  simp [instBEqCounting.beq]

theorem AnalogProcess.beq_iff (a b : AnalogProcess) :
    (a == b) = true ↔ a.kind = b.kind ∧ a.weights = b.weights ∧
      a.target.mapExpressions represented = b.target.mapExpressions represented := by
  change instBEqAnalogProcess.beq a b = true ↔ _
  cases a; cases b
  simp [instBEqAnalogProcess.beq, ProcessTarget.beq_iff]

theorem MeasureProcess.beq_iff (a b : MeasureProcess) :
    (a == b) = true ↔ a.mapExpressions represented = b.mapExpressions represented := by
  change instBEqMeasureProcess.beq a b = true ↔ _
  cases a <;> cases b <;>
    simp [instBEqMeasureProcess.beq, mapExpressions, AnalogProcess.beq_iff, TimeTagging.beq_iff,
      Counting.beq_iff]

theorem Play.beq_iff (a b : Play) :
    (a == b) = true ↔ a.mapExpressions represented = b.mapExpressions represented := by
  change instBEqPlay.beq a b = true ↔ _
  cases a; cases b
  simp only [instBEqPlay.beq, mapExpressions, Bool.and_eq_true, Pulse.beq_iff,
    option_beq_iff Amp.beq_iff, option_beq_iff Expression.same_iff, option_beq_iff Chirp.beq_iff,
    beq_iff_eq, Play.mk.injEq]

theorem Measure.beq_iff (a b : Measure) :
    (a == b) = true ↔ a.mapExpressions represented = b.mapExpressions represented := by
  change instBEqMeasure.beq a b = true ↔ _
  cases a; cases b
  simp only [instBEqMeasure.beq, mapExpressions, Bool.and_eq_true, option_beq_iff Amp.beq_iff,
    list_beq_iff MeasureProcess.beq_iff, beq_iff_eq, Measure.mk.injEq]

theorem Action.beq_iff (a b : Action) :
    (a == b) = true ↔ a.mapExpressions represented = b.mapExpressions represented := by
  change instBEqAction.beq a b = true ↔ _
  cases a <;> cases b <;>
    simp [instBEqAction.beq, mapExpressions, Action.ctorIdx, Play.beq_iff, Measure.beq_iff, Expression.beq_iff,
      Matrix.beq_iff]

end

-- ---------------------------------------------------------------------------
-- Statements and programs
-- ---------------------------------------------------------------------------

namespace Statement
open Expression (represented)

mutual
def represented : Statement → Statement
  | .action a l => .action (a.mapExpressions Expression.represented) l
  | .conditional c u body elifs otherwise l =>
    .conditional c.represented u (representedBlock body) (representedBranches elifs)
      (representedOtherwise otherwise) l
  | .loop init c update body l =>
    .loop (representedBlock init) (c.map Expression.represented) (representedBlock update)
      (representedBlock body) l
  | .forEach iterators body l => .forEach iterators (representedBlock body) l
  | .strictTiming body l => .strictTiming (representedBlock body) l
def representedBlock : List Statement → List Statement
  | [] => []
  | s :: rest => s.represented :: representedBlock rest
def representedBranches : List (Branch Statement) → List (Branch Statement)
  | [] => []
  | ⟨c, body, l⟩ :: rest => ⟨c.represented, representedBlock body, l⟩ :: representedBranches rest
def representedOtherwise : Option (List Statement) → Option (List Statement)
  | none => none
  | some body => some (representedBlock body)
end

mutual
theorem same_iff : (s t : Statement) → (same s t = true ↔ s.represented = t.represented)
  | .action _ _, t => by cases t <;> simp [same, represented, Action.beq_iff]
  | .conditional _ _ body elifs otherwise _, t => by
    cases t with
    | conditional _ _ body' elifs' otherwise' _ =>
      simp [same, represented, Expression.beq_iff, sameBlock_iff body body',
        sameBranches_iff elifs elifs', sameOtherwise_iff otherwise otherwise', and_assoc]
    | _ => simp [same, represented]
  | .loop init _ update body _, t => by
    cases t with
    | loop init' _ update' body' _ =>
      simp [same, represented, option_beq_iff Expression.same_iff, sameBlock_iff init init',
        sameBlock_iff update update', sameBlock_iff body body', and_assoc]
    | _ => simp [same, represented]
  | .forEach _ body _, t => by
    cases t with
    | forEach _ body' _ => simp [same, represented, sameBlock_iff body body', and_assoc]
    | _ => simp [same, represented]
  | .strictTiming body _, t => by
    cases t with
    | strictTiming body' _ => simp [same, represented, sameBlock_iff body body']
    | _ => simp [same, represented]
theorem sameBlock_iff : (b c : List Statement) →
    (sameBlock b c = true ↔ representedBlock b = representedBlock c)
  | [], [] => by simp [sameBlock, representedBlock]
  | [], _ :: _ => by simp [sameBlock, representedBlock]
  | _ :: _, [] => by simp [sameBlock, representedBlock]
  | s :: b, t :: c => by simp [sameBlock, representedBlock, same_iff s t, sameBlock_iff b c]
theorem sameBranches_iff : (b c : List (Branch Statement)) →
    (sameBranches b c = true ↔ representedBranches b = representedBranches c)
  | [], [] => by simp [sameBranches, representedBranches]
  | [], _ :: _ => by simp [sameBranches, representedBranches]
  | _ :: _, [] => by simp [sameBranches, representedBranches]
  | ⟨_, body, _⟩ :: b, ⟨_, body', _⟩ :: c => by
    simp [sameBranches, representedBranches, Expression.beq_iff, sameBlock_iff body body',
      sameBranches_iff b c, and_assoc]
theorem sameOtherwise_iff : (b c : Option (List Statement)) →
    (sameOtherwise b c = true ↔ representedOtherwise b = representedOtherwise c)
  | none, none => by simp [sameOtherwise, representedOtherwise]
  | none, some _ => by simp [sameOtherwise, representedOtherwise]
  | some _, none => by simp [sameOtherwise, representedOtherwise]
  | some b, some c => by simp [sameOtherwise, representedOtherwise, sameBlock_iff b c]
end

theorem representedBlock_eq_map (block : List Statement) :
    representedBlock block = block.map represented := by
  induction block with
  | nil => rfl
  | cons s rest ih => simp [representedBlock, ih]

end Statement

def Declaration.represented (d : Declaration) : Declaration :=
  { d with value := d.value.map Literal.represented }

theorem Declaration.beq_iff (a b : Declaration) :
    (a == b) = true ↔ a.represented = b.represented := by
  change instBEqDeclaration.beq a b = true ↔ _
  cases a; cases b
  simp [instBEqDeclaration.beq, represented, list_beq_iff Literal.same_iff]

def Program.represented (p : Program) : Program :=
  { p with
    declarations := p.declarations.map Declaration.represented
    body := Statement.representedBlock p.body }

/-- Two programs compare as equal exactly if their representatives are equal. -/
theorem Program.beq_iff (p q : Program) : (p == q) = true ↔ p.represented = q.represented := by
  change instBEqProgram.beq p q = true ↔ _
  cases p; cases q
  simp [instBEqProgram.beq, represented, list_beq_iff Declaration.beq_iff,
    list_beq_iff Statement.same_iff, Statement.representedBlock_eq_map]

end Qua
