import Qua.Proofs.RoundTrip.Texts

/-!
# Copies of statements

What is built from the lines of a statement is a copy of it, with the streams renamed. If the streams are
taken for the same tags under their new names, the copy has the lines of the statement but for these names,
its actions are made again with the same streams, and at the same lines it is built once more. Main
statements: `Statement.Copy.listing`, `Statement.Copy.actions` and `Statement.Copy.placing`.
-/

namespace Qua

open Replay
open Statement (walkBlock walkBranches walkOtherwise actionsOf actionsOf_append placed placedBlock
  placedBranches placedOtherwise ShapeFits loopShape_fits)
open Text (Renamed)

/-- Under their new names, the streams are different still, of the same kind, and taken for the same tags. -/
structure Relabels (shorthand? shorthand?' : String → Option String) (σ : String → String)
    (names : Set String) : Prop where
  injective : Set.InjOn σ names
  trace : ∀ n ∈ names, ResultSource.isTraceName (σ n) = ResultSource.isTraceName n
  shorthand : ∀ n ∈ names, shorthand?' (σ n) = shorthand? n

section

variable {shorthand? shorthand?' : String → Option String} {σ : String → String} {names : Set String}
  {hs : List (String × Expression)}

-- ---------------------------------------------------------------------------
-- Stages
-- ---------------------------------------------------------------------------

namespace Relabels

variable (h : Relabels shorthand? shorthand?' σ names)
include h

theorem mem_map_iff {declared : List String} (hd : ∀ n ∈ declared, n ∈ names) (hn : n ∈ names) :
    σ n ∈ declared.map σ ↔ n ∈ declared := by
  constructor
  · intro hm
    obtain ⟨m, hm, he⟩ := List.mem_map.mp hm
    exact h.injective (hd m hm) hn he ▸ hm
  · exact List.mem_map_of_mem

/-- The same streams are declared before their use. -/
theorem undeclared {declared used : List String} (hd : ∀ n ∈ declared, n ∈ names)
    (hu : ∀ n ∈ used, n ∈ names) :
    undeclared shorthand?' (declared.map σ) (used.map σ) = (undeclared shorthand? declared used).map σ := by
  induction used generalizing declared with
  | nil => rfl
  | cons n used ih =>
    obtain ⟨hn, hused⟩ := List.forall_mem_cons.mp hu
    have hcontains : (declared.map σ).contains (σ n) = declared.contains n := by
      rw [Bool.eq_iff_iff, List.contains_iff_mem, List.contains_iff_mem, h.mem_map_iff hd hn]
    rw [List.map_cons, Qua.undeclared, Qua.undeclared, h.shorthand n hn, hcontains]
    split
    · exact ih hd hused
    · rw [List.map_cons, ← List.map_cons, ih (List.forall_mem_cons.mpr ⟨hn, hd⟩) hused]

end Relabels

/-- The stage of the copy, whose streams come under their new names. -/
def Stage.renamed (σ : String → String) (x : Stage) : Stage :=
  ⟨x.streams.map fun (name, source) => (σ name, source), x.draft⟩

theorem Stage.names_renamed (x : Stage) : (x.renamed σ).names = x.names.map σ := by
  simp [names, renamed]

namespace Relabels

variable {x y : Stage} (h : Relabels shorthand? shorthand?' σ names)
include h

theorem declareAll {used : List String} (hu : ∀ n ∈ used, n ∈ names) :
    (x.renamed σ).declareAll (used.map σ) = (x.declareAll used).renamed σ := by
  induction used generalizing x with
  | nil => rfl
  | cons n used ih =>
    obtain ⟨hn, hused⟩ := List.forall_mem_cons.mp hu
    have hfirst : (x.renamed σ).declare (σ n) = (x.declare n).renamed σ := by
      rw [Stage.declare, h.trace n hn]
      rfl
    exact (congrArg (Stage.declareAll · (used.map σ)) hfirst).trans (ih hused)

theorem lookup (hx : ∀ n ∈ x.names, n ∈ names) (hn : n ∈ names) :
    (x.renamed σ).streams.lookup (σ n) = x.streams.lookup n := by
  obtain ⟨streams, draft⟩ := x
  induction streams with
  | nil => rfl
  | cons entry streams ih =>
    obtain ⟨m, source⟩ := entry
    obtain ⟨hm, hrest⟩ := List.forall_mem_cons.mp hx
    have hsame : (σ n == σ m) = (n == m) := by
      rw [Bool.eq_iff_iff, beq_iff_eq, beq_iff_eq, h.injective.eq_iff hn hm]
    change List.lookup (σ n) ((σ m, source) :: _) = List.lookup n ((m, source) :: _)
    have hlookup : (streams.map fun (name, source) => (σ name, source)).lookup (σ n) = streams.lookup n := ih hrest
    rw [List.lookup_cons, List.lookup_cons, hsame, hlookup]

theorem target (hx : ∀ n ∈ x.names, n ∈ names) (hn : n ∈ names) (hd : shorthand? n = none → n ∈ x.names) :
    (x.renamed σ).target shorthand?' (σ n) = x.target shorthand? n := by
  rw [Stage.target, Stage.target, h.shorthand n hn, h.lookup hx hn]
  cases ht : shorthand? n with
  | some tag => rfl
  | none =>
    obtain ⟨source, hl⟩ := Stage.mem_names_iff.mp (hd ht)
    rw [hl]
    rfl

end Relabels

-- ---------------------------------------------------------------------------
-- Actions
-- ---------------------------------------------------------------------------

theorem Action.remade_mapStreams (target : String → StreamTarget) (a : Action) :
    (a.mapStreams σ).remade target = a.remade (target ∘ σ) := by
  cases a <;> simp [mapStreams, remade, Play.options, Measure.options, Function.comp_def]

theorem Action.remade_congr {target target' : String → StreamTarget} (a : Action)
    (h : ∀ name ∈ a.streamNames, target name = target' name) : a.remade target = a.remade target' := by
  cases a with
  | play p => cases hp : p.timestampStream <;> simp_all [remade, streamNames]
  | measure m => cases hm : m.timestampStream <;> cases hm' : m.stream <;> simp_all [remade, streamNames]
  | save => simp_all [remade, streamNames]
  | _ => rfl

/-- The copy of an action. The one of the assignment after each round of a loop has the target of the one
before the loop, which need not be written in the same way. -/
inductive Action.Copy (σ : String → String) (names : Set String) : Action → Action → Prop
  | mapped (hn : ∀ n ∈ a.streamNames, n ∈ names) : Copy σ names a (a.mapStreams σ)
  | assign : Copy σ names (.assign target value) (.assign target' value)

section

variable {x y : Stage} (h : Relabels shorthand? shorthand?' σ names)
include h

theorem Relabels.declared {a : Action} (hx : ∀ n ∈ x.names, n ∈ names) (hn : ∀ n ∈ a.streamNames, n ∈ names) :
    (a.mapStreams σ).declared shorthand?' (x.renamed σ) = (a.declared shorthand? x).renamed σ := by
  rw [Action.declared, Action.declared, Action.streamNames_mapStreams, Stage.names_renamed, h.undeclared hx hn,
    h.declareAll fun n hm => hn n (mem_undeclared.mp hm).1]

/-- The copy of an action is made with the same streams. -/
theorem Action.Arranges.copy {a b : Action} (ha : a.Arranges shorthand? x made y) (hab : Action.Copy σ names a b)
    (hb : b.Formed) (hx : ∀ n ∈ x.names, n ∈ names) :
    (∀ n ∈ y.names, n ∈ names) ∧ ∃ made, b.Arranges shorthand?' (x.renamed σ) made (y.renamed σ) := by
  have hnames : y.names = (a.declared shorthand? x).names := congrArg (List.map Prod.fst) ha.streams
  cases hab with
  | mapped hn =>
    have hw : ∀ n ∈ (a.declared shorthand? x).names, n ∈ names := by
      intro n hm
      rw [Action.declared, Stage.names_declareAll, List.mem_append, List.mem_reverse] at hm
      exact hm.elim (fun hm => hn n (mem_undeclared.mp hm).1) (hx n)
    refine ⟨hnames ▸ hw, made, ?_, ?_⟩
    · rw [h.declared hx hn]
      exact congrArg (List.map _) ha.streams
    · have htarget : ∀ n ∈ a.streamNames, (((a.declared shorthand? x).renamed σ).target shorthand?' ∘ σ) n =
          (a.declared shorthand? x).target shorthand? n := fun n hm =>
        h.target hw (hn n hm) (Action.mem_declared hm)
      rw [h.declared hx hn, Action.remade_mapStreams, a.remade_congr htarget]
      exact ha.run
  | @assign target value target' =>
    obtain rfl := arranges_assign (l := "") (.cons ha (.nil y))
    refine ⟨hx, .assign target' value, rfl, ?_⟩
    rw [Action.remade, Build.assignAction, bind_run, assignTarget_place hb]
    rfl

/-- The copies of actions are made one after the other. -/
theorem ArrangesAll.copy {as bs : List Action} (ha : ArrangesAll shorthand? as x y)
    (hab : List.Forall₂ (Action.Copy σ names) as bs) (hb : ∀ b ∈ bs, b.Formed) (hx : ∀ n ∈ x.names, n ∈ names) :
    (∀ n ∈ y.names, n ∈ names) ∧ ArrangesAll shorthand?' bs (x.renamed σ) (y.renamed σ) := by
  induction ha generalizing bs with
  | nil x =>
    cases hab
    exact ⟨hx, .nil _⟩
  | cons hfirst _ ih =>
    cases hab with
    | cons hcopy hcopies =>
      obtain ⟨hformed, hrest⟩ := List.forall_mem_cons.mp hb
      obtain ⟨hy, made, harranges⟩ := hfirst.copy h hcopy hformed hx
      obtain ⟨hz, hall⟩ := ih hcopies hrest hy
      exact ⟨hz, .cons harranges hall⟩

end

theorem Relabels.headOver {a : Action} (h : Relabels shorthand? shorthand?' σ names)
    (hfits : ∀ n ∈ names, shorthand? n = none → StreamFits hs (σ n))
    (ho : (Statement.action a l).HeadOver hs shorthand?)
    (hn : ∀ n ∈ a.streamNames, n ∈ names) : (Statement.action (a.mapStreams σ) l').HeadOver hs shorthand?' := by
  refine ⟨Action.over_mapStreams σ ho.1, ?_⟩
  rw [Statement.streamNames, Action.streamNames_mapStreams, List.forall_mem_map]
  intro n hm hnone
  rw [h.shorthand n (hn n hm)] at hnone
  exact hfits n (hn n hm) hnone

theorem assign_headOver (ho : (Statement.action (.assign target first) l).HeadOver hs shorthand?)
    (ho' : (Statement.action (.assign target' next) l').HeadOver hs shorthand?) :
    (Statement.action (.assign target next) l'').HeadOver hs shorthand?' :=
  ⟨⟨List.forall_mem_cons.mpr ⟨ho.1.expressions target List.mem_cons_self,
      (List.forall_mem_cons.mp ho'.1.expressions).2⟩, ho'.1.integers, ho.1.formed⟩, List.forall_mem_nil _⟩

-- ---------------------------------------------------------------------------
-- Statements
-- ---------------------------------------------------------------------------

namespace Statement

mutual

/-- The copy of a statement has its streams renamed, and stands at any location. -/
inductive Copy (σ : String → String) (names : Set String) : Statement → Statement → Prop
  | action (hn : ∀ n ∈ a.streamNames, n ∈ names) : Copy σ names (.action a l) (.action (a.mapStreams σ) l')
  | conditional (hb : CopyBlock σ names body body') (he : CopyBranches σ names elifs elifs')
    (ho : CopyOtherwise σ names otherwise otherwise') :
    Copy σ names (.conditional c u body elifs otherwise l) (.conditional c u body' elifs' otherwise' l')
  | loop (hi : CopyBlock σ names init init') (hu : CopyBlock σ names update update')
    (hb : CopyBlock σ names body body') :
    Copy σ names (.loop init c update body l) (.loop init' c update' body' l')
  /-- A loop with a header gets both its assignments from that. -/
  | counted (ht : (target == target') = true) (hb : CopyBlock σ names body body') :
    Copy σ names (.loop [.action (.assign target first) l₁] (some c) [.action (.assign target' next) l₂] body l)
      (.loop [.action (.assign target first) l₁'] (some c) [.action (.assign target next) l₂'] body' l')
  | forEach (hb : CopyBlock σ names body body') :
    Copy σ names (.forEach iterators body l) (.forEach iterators body' l')
  | strictTiming (hb : CopyBlock σ names body body') :
    Copy σ names (.strictTiming body l) (.strictTiming body' l')

inductive CopyBlock (σ : String → String) (names : Set String) : List Statement → List Statement → Prop
  | nil : CopyBlock σ names [] []
  | cons (hs : Copy σ names s t) (hr : CopyBlock σ names rest rest') :
    CopyBlock σ names (s :: rest) (t :: rest')

inductive CopyBranches (σ : String → String) (names : Set String) :
    List (Branch Statement) → List (Branch Statement) → Prop
  | nil : CopyBranches σ names [] []
  | cons (hb : CopyBlock σ names body body') (hr : CopyBranches σ names rest rest') :
    CopyBranches σ names (⟨c, body, l⟩ :: rest) (⟨c, body', l'⟩ :: rest')

inductive CopyOtherwise (σ : String → String) (names : Set String) :
    Option (List Statement) → Option (List Statement) → Prop
  | none : CopyOtherwise σ names none none
  | some (hb : CopyBlock σ names body body') : CopyOtherwise σ names (some body) (some body')

end

theorem CopyBlock.isEmpty {block block' : List Statement} (h : CopyBlock σ names block block') :
    block'.isEmpty = block.isEmpty := by
  cases h <;> rfl

theorem CopyBranches.conditions {elifs elifs' : List (Branch Statement)} (h : CopyBranches σ names elifs elifs') :
    elifs'.map Branch.condition = elifs.map Branch.condition := by
  cases h with
  | nil => rfl
  | cons hb hr => rw [List.map_cons, List.map_cons, hr.conditions]

/-- The copy of a loop is written in the same form. -/
theorem CopyBlock.loopShape {init init' update update' : List Statement} (hi : CopyBlock σ names init init')
    (hu : CopyBlock σ names update update') (c : Option Expression) :
    loopShape init' c update' = loopShape init c update := by
  cases c with
  | none => rfl
  | some c =>
    cases hi with
    | nil => cases hu <;> rfl
    | cons hs hr =>
      cases hs with
      | @action a =>
        cases hr with
        | nil =>
          cases a with
          | assign target value =>
            cases hu with
            | nil => rfl
            | cons hs' hr' =>
              cases hs' with
              | @action a' => cases hr' <;> cases a' <;> rfl
              | _ => rfl
          | _ => rfl
        | cons => cases a <;> rfl
      | _ => cases hr <;> rfl

/-- Two assignments to one target are written in the header of their loop. -/
theorem loopShape_counted {target target' first c next : Expression} {l l' : String}
    (ht : (target == target') = true) : loopShape [.action (.assign target first) l] (some c)
      [.action (.assign target' next) l'] = .counted target first c next := if_pos ht

-- ---------------------------------------------------------------------------
-- What is built is a copy
-- ---------------------------------------------------------------------------

theorem CopyBlock.underLine {block : List Statement} {placing : Placing (List Statement)} (p : Place)
    (h : ∀ p, CopyBlock σ names block (placing p).1) :
    CopyBlock σ names block (underLine block.isEmpty placing p).1.2 := by
  cases block with
  | nil => exact .nil
  | cons s rest => exact h _

mutual

theorem copy_placed : (s : Statement) → (∀ t ∈ s.walk, ∀ n ∈ t.streamNames, n ∈ names) → ∀ p,
    Copy σ names s (placed shorthand? σ s p).1
  | .action a l, hn, p => by
    rw [placed]
    exact .action (List.forall_mem_singleton.mp hn)
  | .conditional c u body elifs otherwise l, hn, p => by
    rw [Statement.walk, List.forall_mem_cons, List.forall_mem_append, List.forall_mem_append] at hn
    rw [placed]
    exact .conditional (.underLine p (copyBlock_placed body hn.2.1.1)) (copyBranches_placed elifs hn.2.1.2 _ _)
      (copyOtherwise_placed otherwise hn.2.2 _)
  | .loop init c update body l, hn, p => by
    rw [Statement.walk, List.forall_mem_cons, List.forall_mem_append, List.forall_mem_append] at hn
    have hbody (p : Place) := CopyBlock.underLine p (copyBlock_placed body hn.2.2)
    have hfits := loopShape_fits init c update
    rw [placed]
    cases hshape : loopShape init c update with
    | general =>
      exact .loop (.underLine _ (copyBlock_placed init hn.2.1.1)) (.underLine _ (copyBlock_placed update hn.2.1.2))
        (hbody _)
    | infinite =>
      rw [hshape] at hfits
      obtain ⟨rfl, rfl, -⟩ := hfits
      exact .loop .nil .nil (hbody p)
    | «while» condition =>
      rw [hshape] at hfits
      obtain ⟨rfl, rfl, -⟩ := hfits
      exact .loop .nil .nil (hbody p)
    | counted target first condition next =>
      rw [hshape] at hfits
      obtain ⟨rfl, target', l₁, l₂, rfl, rfl, ht⟩ := hfits
      exact .counted (Expression.beq_iff.mpr ht) (hbody p)
  | .forEach iterators body l, hn, p => by
    rw [Statement.walk, List.forall_mem_cons] at hn
    rw [placed]
    exact .forEach (.underLine p (copyBlock_placed body hn.2))
  | .strictTiming body l, hn, p => by
    rw [Statement.walk, List.forall_mem_cons] at hn
    rw [placed]
    exact .strictTiming (.underLine p (copyBlock_placed body hn.2))

theorem copyBlock_placed : (b : List Statement) → (∀ t ∈ walkBlock b, ∀ n ∈ t.streamNames, n ∈ names) → ∀ p,
    CopyBlock σ names b (placedBlock shorthand? σ b p).1
  | [], _, p => .nil
  | s :: rest, hn, p => by
    rw [walkBlock, List.forall_mem_append] at hn
    rw [placedBlock]
    exact .cons (copy_placed s hn.1 p) (copyBlock_placed rest hn.2 _)

theorem copyBranches_placed : (b : List (Branch Statement)) →
    (∀ t ∈ walkBranches b, ∀ n ∈ t.streamNames, n ∈ names) → ∀ l p,
    CopyBranches σ names b (placedBranches shorthand? σ l b p).1
  | [], _, l, p => .nil
  | ⟨c, body, m⟩ :: rest, hn, l, p => by
    rw [walkBranches, List.forall_mem_append] at hn
    rw [placedBranches]
    exact .cons (.underLine p (copyBlock_placed body hn.1)) (copyBranches_placed rest hn.2 l _)

theorem copyOtherwise_placed : (b : Option (List Statement)) →
    (∀ t ∈ walkOtherwise b, ∀ n ∈ t.streamNames, n ∈ names) → ∀ p,
    CopyOtherwise σ names b (placedOtherwise shorthand? σ b p).1
  | none, _, _ => .none
  | some body, hn, p => .some (.underLine p (copyBlock_placed body hn))

end

-- ---------------------------------------------------------------------------
-- The actions of a copy
-- ---------------------------------------------------------------------------

mutual

/-- The actions of the copy are the copies of the actions, in the same order. -/
theorem Copy.actions {s t : Statement} : Copy σ names s t →
    List.Forall₂ (Action.Copy σ names) (actionsOf s.walk) (actionsOf t.walk)
  | .action hn => .cons (.mapped hn) .nil
  | .conditional hb he ho => by
    change List.Forall₂ _ (actionsOf (_ ++ _ ++ _)) (actionsOf (_ ++ _ ++ _))
    simp only [actionsOf_append]
    exact List.rel_append (List.rel_append hb.actions he.actions) ho.actions
  | .loop hi hu hb => by
    change List.Forall₂ _ (actionsOf (_ ++ _ ++ _)) (actionsOf (_ ++ _ ++ _))
    simp only [actionsOf_append]
    exact List.rel_append (List.rel_append hi.actions hu.actions) hb.actions
  | .counted _ hb => .cons .assign (.cons .assign hb.actions)
  | .forEach hb | .strictTiming hb => hb.actions

theorem CopyBlock.actions {b b' : List Statement} : CopyBlock σ names b b' →
    List.Forall₂ (Action.Copy σ names) (actionsOf (walkBlock b)) (actionsOf (walkBlock b'))
  | .nil => .nil
  | .cons hs hr => by
    rw [walkBlock, walkBlock, actionsOf_append, actionsOf_append]
    exact List.rel_append hs.actions hr.actions

theorem CopyBranches.actions {b b' : List (Branch Statement)} :
    CopyBranches σ names b b' →
    List.Forall₂ (Action.Copy σ names) (actionsOf (walkBranches b)) (actionsOf (walkBranches b'))
  | .nil => .nil
  | .cons hb hr => by
    rw [walkBranches, walkBranches, actionsOf_append, actionsOf_append]
    exact List.rel_append hb.actions hr.actions

theorem CopyOtherwise.actions {b b' : Option (List Statement)} :
    CopyOtherwise σ names b b' →
    List.Forall₂ (Action.Copy σ names) (actionsOf (walkOtherwise b)) (actionsOf (walkOtherwise b'))
  | .none => .nil
  | .some hb => hb.actions

end

-- ---------------------------------------------------------------------------
-- The copy can be written
-- ---------------------------------------------------------------------------

mutual

/-- What can be written of a statement can be written of its copy. -/
theorem Copy.heads (h : Relabels shorthand? shorthand?' σ names)
    (hfits : ∀ n ∈ names, shorthand? n = none → StreamFits hs (σ n)) {s t : Statement} :
    Copy σ names s t → (∀ u ∈ s.walk, u.HeadOver hs shorthand?) →
    ∀ u ∈ t.walk, u.HeadOver hs shorthand?'
  | .action hn, ho => List.forall_mem_singleton.mpr (h.headOver hfits (ho _ List.mem_cons_self) hn)
  | .conditional hb he ho', ho => by
    rw [Statement.walk, List.forall_mem_cons, List.forall_mem_append, List.forall_mem_append] at ho ⊢
    obtain ⟨⟨⟨hc, hcs⟩, -⟩, ⟨ho₁, ho₂⟩, ho₃⟩ := ho
    rw [← List.forall_mem_map, ← he.conditions, List.forall_mem_map] at hcs
    exact ⟨⟨⟨hc, hcs⟩, List.forall_mem_nil _⟩, ⟨hb.heads h hfits ho₁, he.heads h hfits ho₂⟩, ho'.heads h hfits ho₃⟩
  | .loop hi hu hb, ho => by
    rw [Statement.walk, List.forall_mem_cons, List.forall_mem_append, List.forall_mem_append] at ho ⊢
    exact ⟨⟨ho.1.1, List.forall_mem_nil _⟩, ⟨hi.heads h hfits ho.2.1.1, hu.heads h hfits ho.2.1.2⟩,
      hb.heads h hfits ho.2.2⟩
  | .counted ht hb, ho => by
    rw [Statement.walk, List.forall_mem_cons, List.forall_mem_append, List.forall_mem_append] at ho ⊢
    have hfirst := ho.2.1.1 _ List.mem_cons_self
    have hnext := ho.2.1.2 _ List.mem_cons_self
    exact ⟨⟨ho.1.1, List.forall_mem_nil _⟩, ⟨List.forall_mem_singleton.mpr (assign_headOver hfirst hfirst),
      List.forall_mem_singleton.mpr (assign_headOver hfirst hnext)⟩, hb.heads h hfits ho.2.2⟩
  | .forEach hb, ho | .strictTiming hb, ho => by
    rw [Statement.walk, List.forall_mem_cons] at ho ⊢
    exact ⟨⟨ho.1.1, List.forall_mem_nil _⟩, hb.heads h hfits ho.2⟩

theorem CopyBlock.heads (h : Relabels shorthand? shorthand?' σ names)
    (hfits : ∀ n ∈ names, shorthand? n = none → StreamFits hs (σ n)) {b b' : List Statement} : CopyBlock σ names b b' →
    (∀ u ∈ walkBlock b, u.HeadOver hs shorthand?) → ∀ u ∈ walkBlock b', u.HeadOver hs shorthand?'
  | .nil, _ => List.forall_mem_nil _
  | .cons hs hr, ho => by
    rw [walkBlock, List.forall_mem_append] at ho ⊢
    exact ⟨hs.heads h hfits ho.1, hr.heads h hfits ho.2⟩

theorem CopyBranches.heads (h : Relabels shorthand? shorthand?' σ names)
    (hfits : ∀ n ∈ names, shorthand? n = none → StreamFits hs (σ n)) {b b' : List (Branch Statement)} :
    CopyBranches σ names b b' →
    (∀ u ∈ walkBranches b, u.HeadOver hs shorthand?) → ∀ u ∈ walkBranches b', u.HeadOver hs shorthand?'
  | .nil, _ => List.forall_mem_nil _
  | .cons hb hr, ho => by
    rw [walkBranches, List.forall_mem_append] at ho ⊢
    exact ⟨hb.heads h hfits ho.1, hr.heads h hfits ho.2⟩

theorem CopyOtherwise.heads (h : Relabels shorthand? shorthand?' σ names)
    (hfits : ∀ n ∈ names, shorthand? n = none → StreamFits hs (σ n)) {b b' : Option (List Statement)} :
    CopyOtherwise σ names b b' →
    (∀ u ∈ walkOtherwise b, u.HeadOver hs shorthand?) → ∀ u ∈ walkOtherwise b', u.HeadOver hs shorthand?'
  | .none, _ => List.forall_mem_nil _
  | .some hb, ho => hb.heads h hfits ho

end

end Statement

-- ---------------------------------------------------------------------------
-- The lines of a copy
-- ---------------------------------------------------------------------------

/-- Wherever the first part can be written, the second can be, with the same streams declared before and
after it. -/
def Listing.Echoes (σ : String → String) (names : Set String) (R : α → α → Prop) (part part' : Listing α) : Prop :=
  ∀ ⦃declared a declared'⦄, (∀ n ∈ declared, n ∈ names) → part declared = .ok (a, declared') →
    (∀ n ∈ declared', n ∈ names) ∧ ∃ a', part' (declared.map σ) = .ok (a', declared'.map σ) ∧ R a a'

namespace Listing.Echoes

theorem pure {R : α → α → Prop} (h : R a a') : Echoes σ names R (pure a) (pure a') := by
  intro declared b declared' hd hrun
  obtain ⟨rfl, rfl⟩ := pure_eq_ok.mp hrun
  exact ⟨hd, a', rfl, h⟩

theorem bind {R : α → α → Prop} {Q : β → β → Prop} {part part' : Listing α} {f f' : α → Listing β}
    (h : Echoes σ names R part part') (hf : ∀ a a', R a a' → Echoes σ names Q (f a) (f' a')) :
    Echoes σ names Q (part >>= f) (part' >>= f') := by
  intro declared b declared' hd hrun
  obtain ⟨a, between, ha, hb⟩ := bind_eq_ok.mp hrun
  obtain ⟨hbetween, a', ha', hr⟩ := h hd ha
  obtain ⟨hlast, b', hb', hq⟩ := hf a a' hr hbetween hb
  exact ⟨hlast, b', bind_eq_ok.mpr ⟨a', _, ha', hb'⟩, hq⟩

/-- What is the same in both needs no names. -/
theorem lift_bind {Q : β → β → Prop} {m : Except RenderError α} {f f' : α → Listing β}
    (hf : ∀ a, Echoes σ names Q (f a) (f' a)) :
    Echoes σ names Q (liftM m >>= f) (liftM m >>= f') := by
  intro declared b declared' hd hrun
  obtain ⟨a, between, ha, hb⟩ := bind_eq_ok.mp hrun
  obtain ⟨rfl, rfl⟩ := lift_eq_ok.mp ha
  obtain ⟨hlast, b', hb', hq⟩ := hf a hd hb
  exact ⟨hlast, b', bind_eq_ok.mpr ⟨a, _, lift_eq_ok.mpr ⟨rfl, rfl⟩, hb'⟩, hq⟩

theorem mapM {R : β → β → Prop} {f : α → Listing β} {f' : α' → Listing β} {g : α → α'} {as : List α}
    (h : ∀ a ∈ as, Echoes σ names R (f a) (f' (g a))) :
    Echoes σ names (List.Forall₂ R) (as.mapM f) ((as.map g).mapM f') := by
  induction as with
  | nil => exact .pure .nil
  | cons a as ih =>
    obtain ⟨hfirst, hrest⟩ := List.forall_mem_cons.mp h
    rw [List.map_cons, List.mapM_cons, List.mapM_cons]
    exact hfirst.bind fun b b' hb => (ih hrest).bind fun bs bs' hbs => .pure (.cons hb hbs)

end Listing.Echoes

open Listing (Echoes)
open Statement (CopyBlock)

theorem renamed_orPass {lines lines' : List Line} (depth : Nat)
    (h : List.Forall₂ (Line.Renamed σ names) lines lines') :
    List.Forall₂ (Line.Renamed σ names) (Listing.orPass depth lines) (Listing.orPass depth lines') := by
  cases h with
  | nil => exact .cons (.refl _) .nil
  | cons h hs => exact .cons h hs

/-- A line that opens a block, and the lines in the block. -/
theorem renamed_under {lines lines' : List Line} (header : Line) (depth : Nat)
    (h : List.Forall₂ (Line.Renamed σ names) lines lines') :
    List.Forall₂ (Line.Renamed σ names) (header :: Listing.orPass depth lines)
      (header :: Listing.orPass depth lines') :=
  .cons (.refl _) (renamed_orPass depth h)

theorem Listing.renamed_streamDeclaration (h : Relabels shorthand? shorthand?' σ names) (hn : n ∈ names) :
    Renamed σ names (streamDeclaration n) (streamDeclaration (σ n)) := by
  rw [streamDeclaration, streamDeclaration, h.trace n hn]
  exact ((Renamed.name hn).after _).after _

theorem Listing.echoes_declareStreams (h : Relabels shorthand? shorthand?' σ names) {used : List String}
    (hu : ∀ n ∈ used, n ∈ names) (depth : Nat) :
    Echoes σ names (List.Forall₂ (Line.Renamed σ names)) (declareStreams shorthand? depth used)
      (declareStreams shorthand?' depth (used.map σ)) := by
  intro declared lines declared' hd hrun
  rw [declareStreams_run] at hrun
  obtain ⟨rfl, rfl⟩ := Prod.mk.inj (Except.ok.inj hrun)
  have hnew : ∀ n ∈ undeclared shorthand? declared used, n ∈ names := fun n hm => hu n (mem_undeclared.mp hm).1
  refine ⟨List.forall_mem_append.mpr ⟨fun n hm => hnew n (List.mem_reverse.mp hm), hd⟩, _,
    by rw [declareStreams_run, h.undeclared hd hu, List.map_append, List.map_reverse], ?_⟩
  rw [List.map_map, List.forall₂_map_left_iff, List.forall₂_map_right_iff, List.forall₂_same]
  exact fun n hm => ⟨rfl, renamed_streamDeclaration h (hnew n hm)⟩

theorem Listing.echoes_action (h : Relabels shorthand? shorthand?' σ names) {a : Action}
    (hn : ∀ n ∈ a.streamNames, n ∈ names) (depth : Nat) :
    Echoes σ names (List.Forall₂ (Line.Renamed σ names)) (action shorthand? depth a)
      (action shorthand?' depth (a.mapStreams σ)) := by
  rw [action, action, Action.streamNames_mapStreams, Action.mapStreams_mapStreams]
  refine (echoes_declareStreams h hn depth).bind fun lines lines' hlines => ?_
  intro declared written declared' hd hrun
  obtain ⟨text, between, ht, hlast⟩ := bind_eq_ok.mp hrun
  obtain ⟨hrender, rfl⟩ := lift_eq_ok.mp ht
  obtain ⟨rfl, rfl⟩ := pure_eq_ok.mp hlast
  have hwritten : ∀ n ∈ a.streamNames,
      Renamed σ names (writtenStream shorthand? n) ((writtenStream shorthand?' ∘ σ) n) := by
    intro n hm
    rw [Function.comp_apply, writtenStream, writtenStream, h.shorthand n (hn n hm)]
    cases shorthand? n with
    | some tag => exact .text _
    | none => exact .name (hn n hm)
  obtain ⟨text', hrender', htext⟩ := Action.render_renamed hwritten hrender
  exact ⟨hd, lines' ++ [⟨depth, text'⟩], by rw [bind_run, hrender']; rfl,
    List.rel_append hlines (.cons ⟨rfl, htext⟩ .nil)⟩

theorem Listing.echoes_loop {init init' update update' body body' : List Statement} {c : Option Expression}
    (hshape : loopShape init' c update' = loopShape init c update)
    (hi : ∀ depth, Echoes σ names (List.Forall₂ (Line.Renamed σ names)) (block shorthand? depth init)
      (block shorthand?' depth init'))
    (hu : ∀ depth, Echoes σ names (List.Forall₂ (Line.Renamed σ names)) (block shorthand? depth update)
      (block shorthand?' depth update'))
    (hb : ∀ depth, Echoes σ names (List.Forall₂ (Line.Renamed σ names)) (block shorthand? depth body)
      (block shorthand?' depth body')) (depth : Nat) :
    Echoes σ names (List.Forall₂ (Line.Renamed σ names)) (statement shorthand? depth (.loop init c update body l))
      (statement shorthand?' depth (.loop init' c update' body' l')) := by
  rw [statement, statement, hshape]
  refine .lift_bind fun header => ?_
  split
  · refine (hi _).bind fun first first' hfirst => ?_
    have hrest (condition : List Line) : Echoes σ names (List.Forall₂ (Line.Renamed σ names)) (do
        let update ← block shorthand? (depth + 2) update
        let body ← block shorthand? (depth + 2) body
        return ⟨depth, header⟩
          :: ⟨depth + 1, "with for_init_():"⟩ :: orPass (depth + 2) first
          ++ condition
          ++ ⟨depth + 1, "with for_update_():"⟩ :: orPass (depth + 2) update
          ++ ⟨depth + 1, "with for_body_():"⟩ :: orPass (depth + 2) body) (do
        let update ← block shorthand?' (depth + 2) update'
        let body ← block shorthand?' (depth + 2) body'
        return ⟨depth, header⟩
          :: ⟨depth + 1, "with for_init_():"⟩ :: orPass (depth + 2) first'
          ++ condition
          ++ ⟨depth + 1, "with for_update_():"⟩ :: orPass (depth + 2) update
          ++ ⟨depth + 1, "with for_body_():"⟩ :: orPass (depth + 2) body) := by
      refine (hu _).bind fun next next' hnext => (hb _).bind fun inner inner' hinner => .pure ?_
      have hsame : List.Forall₂ (Line.Renamed σ names) condition condition := List.forall₂_same.mpr fun _ _ => .refl _
      exact List.rel_append (List.rel_append (List.rel_append
        (.cons (.refl _) (renamed_under _ _ hfirst)) hsame) (renamed_under _ _ hnext)) (renamed_under _ _ hinner)
    cases c with
    | none => exact hrest []
    | some c => exact .lift_bind fun text => hrest _
  · exact (hb _).bind fun inner inner' hinner => .pure (renamed_under _ _ hinner)

namespace Statement

mutual

/-- The lines of the copy are those of the statement but for the names of streams. -/
theorem Copy.listing (h : Relabels shorthand? shorthand?' σ names) {s t : Statement} : Copy σ names s t → ∀ depth,
    Echoes σ names (List.Forall₂ (Line.Renamed σ names)) (Listing.statement shorthand? depth s)
      (Listing.statement shorthand?' depth t)
  | .action hn, depth => by
    rw [Listing.statement, Listing.statement]
    exact Listing.echoes_action h hn depth
  | .conditional hb he ho, depth => by
    rw [Listing.statement, Listing.statement]
    refine .lift_bind fun header => (hb.listing h _).bind fun inner inner' hinner => ?_
    refine (he.listing h _).bind fun others others' hothers => (ho.listing h _).bind fun last last' hlast => ?_
    exact .pure (List.rel_append (List.rel_append (renamed_under _ _ hinner) hothers) hlast)
  | .loop hi hu hb, depth => Listing.echoes_loop (hi.loopShape hu _) (hi.listing h) (hu.listing h) (hb.listing h) depth
  | .counted ht hb, depth => by
    rw [Listing.statement, Listing.statement, loopShape_counted ht, loopShape_counted (Expression.beq_iff.mpr rfl)]
    exact .lift_bind fun header => (hb.listing h _).bind fun inner inner' hinner => .pure (renamed_under _ _ hinner)
  | .forEach hb, depth | .strictTiming hb, depth => by
    rw [Listing.statement, Listing.statement]
    exact (hb.listing h _).bind fun inner inner' hinner => .pure (renamed_under _ _ hinner)

theorem CopyBlock.listing (h : Relabels shorthand? shorthand?' σ names) {b b' : List Statement} :
    CopyBlock σ names b b' → ∀ depth, Echoes σ names (List.Forall₂ (Line.Renamed σ names))
      (Listing.block shorthand? depth b) (Listing.block shorthand?' depth b')
  | .nil, depth => .pure .nil
  | .cons hs hr, depth => by
    rw [Listing.block, Listing.block]
    exact (hs.listing h _).bind fun first first' hfirst => (hr.listing h _).bind fun lines lines' hlines =>
      .pure (List.rel_append hfirst hlines)

theorem CopyBranches.listing (h : Relabels shorthand? shorthand?' σ names) {b b' : List (Branch Statement)} :
    CopyBranches σ names b b' → ∀ depth, Echoes σ names (List.Forall₂ (Line.Renamed σ names))
      (Listing.branches shorthand? depth b) (Listing.branches shorthand?' depth b')
  | .nil, depth => .pure .nil
  | .cons hb hr, depth => by
    rw [Listing.branches, Listing.branches]
    exact .lift_bind fun header => (hb.listing h _).bind fun inner inner' hinner =>
      (hr.listing h _).bind fun lines lines' hlines => .pure (List.rel_append (renamed_under _ _ hinner) hlines)

theorem CopyOtherwise.listing (h : Relabels shorthand? shorthand?' σ names) {b b' : Option (List Statement)} :
    CopyOtherwise σ names b b' → ∀ depth, Echoes σ names (List.Forall₂ (Line.Renamed σ names))
      (Listing.alternative shorthand? depth b) (Listing.alternative shorthand?' depth b')
  | .none, depth => .pure .nil
  | .some hb, depth => by
    rw [Listing.alternative, Listing.alternative]
    exact (hb.listing h _).bind fun inner inner' hinner => .pure (renamed_under _ _ hinner)

end

end Statement

/-- The saves of the copy are those of the results with their streams renamed. -/
structure ResultsCopy (σ : String → String) (names : Set String) (own : List String)
    (results results' : ResultAnalysis) : Prop where
  manual : results'.manual = results.manual.map (SaveEntry.mapSources σ)
  overOwn : ∀ entry ∈ results.manual, entry.Over own
  sources : ∀ entry ∈ results.manual, ∀ n ∈ entry.pipeline.sourceNames, n ∈ names

theorem ResultsCopy.sourceNames {own : List String} {results results' : ResultAnalysis}
    (h : ResultsCopy σ names own results results') :
    (results'.manual.flatMap fun entry => entry.pipeline.sourceNames) =
      (results.manual.flatMap fun entry => entry.pipeline.sourceNames).map σ := by
  rw [h.manual, List.flatMap_map, List.map_flatMap]
  exact List.flatMap_congr fun entry _ => entry.pipeline.sourceNames_mapSources σ

theorem ResultsCopy.echoes_entry {own : List String} {results results' : ResultAnalysis}
    (h : ResultsCopy σ names own results results') (he : entry ∈ results.manual) (depth : Nat) :
    Echoes σ names (Line.Renamed σ names) (do
        let text ← entry.render
        return ⟨depth, text⟩) (do
        let text ← (entry.mapSources σ).render
        return ⟨depth, text⟩) := by
  intro declared line declared' hd hrun
  obtain ⟨text, between, ht, hlast⟩ := bind_eq_ok.mp hrun
  obtain ⟨hrender, rfl⟩ := lift_eq_ok.mp ht
  obtain ⟨rfl, rfl⟩ := pure_eq_ok.mp hlast
  obtain ⟨text', hrender', htext⟩ := SaveEntry.render_renamed (h.overOwn entry he) (h.sources entry he) hrender
  exact ⟨hd, ⟨depth, text'⟩, by rw [bind_run, hrender']; rfl, rfl, htext⟩

/-- The lines of the saves of the copy are those of the saves but for the names of streams. -/
theorem ResultsCopy.listing (h : Relabels shorthand? shorthand?' σ names) {own : List String}
    {results results' : ResultAnalysis} (hc : ResultsCopy σ names own results results') (depth : Nat) :
    Echoes σ names (List.Forall₂ (Line.Renamed σ names)) (Listing.results shorthand? depth results.entries)
      (Listing.results shorthand?' depth results'.entries) := by
  have hsources : ∀ n ∈ results.manual.flatMap fun entry => entry.pipeline.sourceNames, n ∈ names := by
    intro n hm
    obtain ⟨entry, he, hm⟩ := List.mem_flatMap.mp hm
    exact hc.sources entry he n hm
  change Echoes σ names _ (if results.manual.isEmpty then _ else _) (if results'.manual.isEmpty then _ else _)
  rw [show results'.manual.isEmpty = results.manual.isEmpty by rw [hc.manual, List.isEmpty_map]]
  split
  · exact .pure .nil
  · refine .bind (R := List.Forall₂ (Line.Renamed σ names)) ?_ fun lines lines' hlines => ?_
    · have hdeclare := Listing.echoes_declareStreams h hsources depth
      rw [← hc.sourceNames] at hdeclare
      exact hdeclare
    · refine .bind (R := List.Forall₂ (Line.Renamed σ names)) ?_ fun saves saves' hsaves =>
        .pure (List.rel_append hlines (.cons (.refl _) hsaves))
      change Echoes σ names _ (results.manual.mapM _) (results'.manual.mapM _)
      rw [hc.manual]
      exact .mapM fun entry he => hc.echoes_entry he (depth + 1)

-- ---------------------------------------------------------------------------
-- A copy is built once more
-- ---------------------------------------------------------------------------

/-- The place in the copy, with the same lines still to come. -/
def Place.renamed (σ : String → String) (p : Place) : Place := ⟨p.declared.map σ, p.lines⟩

/-- From the same place on, the two build the same and come to the same place. -/
def Placing.Echoes (σ : String → String) (names : Set String) (placing placing' : Placing α) : Prop :=
  ∀ ⦃p⦄, (∀ n ∈ p.declared, n ∈ names) → (∀ n ∈ (placing p).2.declared, n ∈ names) ∧
    placing' (p.renamed σ) = ((placing p).1, (placing p).2.renamed σ)

namespace Placing.Echoes

theorem pure (a : α) : Echoes σ names (pure a) (pure a) := fun _ hp => ⟨hp, rfl⟩

theorem bind {placing placing' : Placing α} {f f' : α → Placing β} (h : Echoes σ names placing placing')
    (hf : ∀ a, Echoes σ names (f a) (f' a)) : Echoes σ names (placing >>= f) (placing' >>= f') := by
  intro p hp
  obtain ⟨hbetween, hrun⟩ := h hp
  obtain ⟨hlast, hrun'⟩ := hf (placing p).1 hbetween
  exact ⟨hlast, by rw [bind_run, bind_run, hrun, hrun']⟩

theorem nextLine : Echoes σ names nextLine nextLine := fun _ hp => ⟨hp, rfl⟩

theorem declarationLines {used : List String} (hu : ∀ n ∈ used, n ∈ names) :
    Echoes σ names (declarationLines used) (declarationLines (used.map σ)) := by
  induction used with
  | nil => exact .pure ()
  | cons n used ih =>
    obtain ⟨hn, hused⟩ := List.forall_mem_cons.mp hu
    exact .bind (fun p hp => ⟨List.forall_mem_cons.mpr ⟨hn, hp⟩, rfl⟩) fun _ => ih hused

theorem conditionLine (c : Option Expression) : Echoes σ names (conditionLine c) (conditionLine c) := by
  cases c with
  | none => exact .pure ()
  | some c => exact nextLine.bind fun _ => .pure ()

theorem underLine {block block' : List Statement} {placing placing' : Placing (List Statement)}
    (hb : CopyBlock σ names block block') (h : Echoes σ names placing placing') :
    Echoes σ names (underLine block.isEmpty placing) (underLine block'.isEmpty placing') := by
  rw [hb.isEmpty]
  refine nextLine.bind fun l => .bind ?_ fun _ => .pure _
  cases block with
  | nil => exact nextLine.bind fun _ => .pure []
  | cons s rest => exact h

end Placing.Echoes

section

variable {σ' : String → String}

theorem Placing.echoes_action (h : Relabels shorthand? shorthand?' σ names) (hσ : ∀ n ∈ names, σ' (σ n) = σ n)
    {a : Action} (hn : ∀ n ∈ a.streamNames, n ∈ names) :
    Placing.Echoes σ names (placed shorthand? σ (.action a l))
      (placed shorthand?' σ' (.action (a.mapStreams σ) l')) := by
  have hsame : (a.mapStreams σ).mapStreams σ' = a.mapStreams σ :=
    (a.mapStreams_mapStreams σ σ').trans (a.mapStreams_congr fun n hm => hσ n (hn n hm))
  rw [placed, placed, Action.streamNames_mapStreams, hsame]
  intro p hp
  have hnew : ∀ n ∈ undeclared shorthand? p.declared a.streamNames, n ∈ names :=
    fun n hm => hn n (mem_undeclared.mp hm).1
  have hlines := (Placing.Echoes.declarationLines (σ := σ) hnew).bind fun _ =>
    Placing.Echoes.nextLine.bind fun l => .pure (Statement.action (a.mapStreams σ) l)
  rw [← h.undeclared hp hn] at hlines
  exact hlines hp

theorem Placing.echoes_loop {init init' update update' body body' : List Statement} {c : Option Expression}
    (hi : CopyBlock σ names init init') (hu : CopyBlock σ names update update') (hb : CopyBlock σ names body body')
    (hi' : Placing.Echoes σ names (placedBlock shorthand? σ init) (placedBlock shorthand?' σ' init'))
    (hu' : Placing.Echoes σ names (placedBlock shorthand? σ update) (placedBlock shorthand?' σ' update'))
    (hb' : Placing.Echoes σ names (placedBlock shorthand? σ body) (placedBlock shorthand?' σ' body')) :
    Placing.Echoes σ names (placed shorthand? σ (.loop init c update body l))
      (placed shorthand?' σ' (.loop init' c update' body' l')) := by
  rw [placed, placed, hi.loopShape hu]
  cases loopShape init c update with
  | general =>
    exact .bind .nextLine fun l => .bind (.underLine hi hi') fun _ => .bind (.conditionLine c) fun _ =>
      .bind (.underLine hu hu') fun _ => .bind (.underLine hb hb') fun _ => .pure _
  | _ => exact .bind (.underLine hb hb') fun _ => .pure _

namespace Statement

mutual

/-- From the same place on, the copy is built again as the statement is. -/
theorem Copy.placing (h : Relabels shorthand? shorthand?' σ names) (hσ : ∀ n ∈ names, σ' (σ n) = σ n)
    {s t : Statement} : Copy σ names s t →
    Placing.Echoes σ names (placed shorthand? σ s) (placed shorthand?' σ' t)
  | .action hn => Placing.echoes_action h hσ hn
  | .conditional hb he ho => by
    rw [placed, placed]
    exact .bind (.underLine hb (hb.placing h hσ)) fun under => .bind (he.placing h hσ under.1) fun _ =>
      .bind (ho.placing h hσ) fun _ => .pure _
  | .loop hi hu hb => Placing.echoes_loop hi hu hb (hi.placing h hσ) (hu.placing h hσ) (hb.placing h hσ)
  | .counted ht hb => by
    rw [placed, placed, loopShape_counted ht, loopShape_counted (Expression.beq_iff.mpr rfl)]
    exact .bind (.underLine hb (hb.placing h hσ)) fun _ => .pure _
  | .forEach hb | .strictTiming hb => by
    rw [placed, placed]
    exact .bind (.underLine hb (hb.placing h hσ)) fun _ => .pure _

theorem CopyBlock.placing (h : Relabels shorthand? shorthand?' σ names) (hσ : ∀ n ∈ names, σ' (σ n) = σ n)
    {b b' : List Statement} : CopyBlock σ names b b' →
    Placing.Echoes σ names (placedBlock shorthand? σ b) (placedBlock shorthand?' σ' b')
  | .nil => .pure []
  | .cons hs hr => by
    rw [placedBlock, placedBlock]
    exact .bind (hs.placing h hσ) fun _ => .bind (hr.placing h hσ) fun _ => .pure _

theorem CopyBranches.placing (h : Relabels shorthand? shorthand?' σ names) (hσ : ∀ n ∈ names, σ' (σ n) = σ n)
    {b b' : List (Branch Statement)} : CopyBranches σ names b b' → ∀ l,
    Placing.Echoes σ names (placedBranches shorthand? σ l b) (placedBranches shorthand?' σ' l b')
  | .nil, l => .pure []
  | .cons hb hr, l => by
    rw [placedBranches, placedBranches]
    exact .bind (.underLine hb (hb.placing h hσ)) fun _ => .bind (hr.placing h hσ l) fun _ => .pure _

theorem CopyOtherwise.placing (h : Relabels shorthand? shorthand?' σ names) (hσ : ∀ n ∈ names, σ' (σ n) = σ n)
    {b b' : Option (List Statement)} :
    CopyOtherwise σ names b b' →
    Placing.Echoes σ names (placedOtherwise shorthand? σ b) (placedOtherwise shorthand?' σ' b')
  | .none => .pure none
  | .some hb => by
    rw [placedOtherwise, placedOtherwise]
    exact .bind (.underLine hb (hb.placing h hσ)) fun _ => .pure _

end

end Statement

end

end

end Qua
