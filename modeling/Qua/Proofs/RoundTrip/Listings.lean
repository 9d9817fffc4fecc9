import Qua.Proofs.Replay.Blocks
import Qua.Proofs.Replay.Declarations
import Qua.Proofs.Replay.Results

/-!
# Whole listings

The listing of a program is its declarations, its body and its saves, one after the other. Replayed, it
declares and builds the same again, with its streams renamed and at the lines of the listing. Main
statement: `Program.Listed.replays`.
-/

namespace Qua

open Script (Outline ReadsAll linesOf linesOf_append programLines lineNumbersOf lineNumbersOf_append
  numberAfter numbersFrom numbersFrom_append length_numbersFrom)
open Replay
open Statement (walkBlock actionsOf placedBlock)

/-- The lines lead from one state to others that have the property, which may depend on the numbers that
the lines have. -/
def Replay.Leads (lines : List Outline) (s : State) (P : List Nat → State → Prop) : Prop :=
  (∃ stmts, ReadsAll lines stmts) ∧ ∀ stmts, ReadsAll lines stmts →
    ∃ s', statements stmts s = .ok ((), s') ∧ P (lineNumbersOf stmts) s'

namespace Replay.Leads

variable {s : State} {P Q : List Nat → State → Prop}

theorem append (h : Leads lines s P)
    (h' : ∀ numbers s', P numbers s' → Leads lines' s' fun numbers' => Q (numbers ++ numbers')) :
    Leads (lines ++ lines') s Q := by
  obtain ⟨⟨before, hb⟩, hall⟩ := h
  constructor
  · obtain ⟨s', -, hs'⟩ := hall before hb
    obtain ⟨⟨after, ha⟩, -⟩ := h' _ s' hs'
    exact ⟨before ++ after, hb.append ha⟩
  · intro stmts hreads
    obtain ⟨before, after, rfl, hb, ha⟩ := hreads.of_append
    obtain ⟨s', hrun, hs'⟩ := hall before hb
    obtain ⟨s'', hrun', hs''⟩ := (h' _ s' hs').2 after ha
    exact ⟨s'', by rw [statements_append hrun, hrun'], lineNumbersOf_append before after ▸ hs''⟩

end Replay.Leads

/-- Lines that replay lead to the next stage, with what has been placed at their numbers. -/
theorem Replay.Replays.leads {hs : List (String × Expression)} {x y : Stage} {scopes : List Frame}
    {placing : Placing α} {built : α → List Statement} {body : List Statement}
    (h : Replays hs lines x y scopes body placing built)
    {s : State} (hst : Standing hs x body scopes s) :
    Leads lines s fun numbers s' => Standing hs y (built (placing ⟨x.names, numbers⟩).1) scopes s' := by
  obtain ⟨hreads, hall⟩ := h hst
  refine ⟨hreads, fun stmts hr => ?_⟩
  obtain ⟨a, s', hp, hrun, hst'⟩ := hall stmts hr
  refine ⟨s', hrun, ?_⟩
  have hplaced := hp []
  rw [List.append_nil] at hplaced
  change Standing hs y (built (placing ⟨x.names, lineNumbersOf stmts⟩).1) scopes s'
  rw [hplaced]
  exact hst'

/-- The lines of a block, or the one line that a block without any has. -/
theorem Replay.Leads.orPass {s : State} {hs : List (String × Expression)} {z : Stage}
    {scopes : List Frame} {built : List Nat → List Statement}
    (h : Leads os s fun numbers s' => Standing hs z (built numbers) scopes s') :
    ∃ os', os' ≠ [] ∧ linesOf 1 os' = Listing.orPass 1 (linesOf 1 os) ∧ Leads os' s fun numbers s' =>
      numbers = numbersFrom 4 (linesOf 1 os') → Standing hs z (built (numbersFrom 4 (linesOf 1 os))) scopes s' := by
  cases os with
  | nil =>
    obtain ⟨s', hrun, hst⟩ := h.2 [] .nil
    obtain rfl : s = s' := by
      rw [statements] at hrun
      exact (Prod.mk.inj (Except.ok.inj hrun)).2
    obtain ⟨hreads, hall⟩ := Replays.pass built [] z scopes hst
    refine ⟨[.pass], by simp, rfl, hreads, fun stmts hr => ?_⟩
    obtain ⟨numbers, s', hp, hrun, hst⟩ := hall stmts hr
    obtain rfl : [] = numbers := (Prod.mk.inj (hp [])).1
    exact ⟨s', hrun, fun _ => hst⟩
  | cons o os =>
    have hne : linesOf 1 (o :: os) ≠ [] := fun he => List.cons_ne_nil o os (linesOf_eq_nil.mp he)
    refine ⟨o :: os, by simp, by rw [Listing.orPass, if_neg (by simpa using hne)], h.1, fun stmts hr => ?_⟩
    obtain ⟨s', hrun, hst⟩ := h.2 stmts hr
    exact ⟨s', hrun, fun hnumbers => hnumbers ▸ hst⟩

-- ---------------------------------------------------------------------------
-- Listings
-- ---------------------------------------------------------------------------

/-- The text is the listing of the program, in which its body has the lines with the numbers. -/
inductive Program.Listed (p : Program) : String → List Nat → Prop
  | of {declared : List String} {body results : List Line} {names names' : List String}
    (hd : p.declarations.mapM Declaration.render = .ok declared)
    (hb : Listing.block p.shorthand? 1 p.body [] = .ok (body, names))
    (hr : Listing.results p.shorthand? 1 p.results.entries names = .ok (results, names')) :
    p.Listed (Line.renderAll (⟨0, "from qm.qua import *"⟩ :: ⟨0, ""⟩ :: ⟨0, "with program() as prog:"⟩ ::
        Listing.orPass 1 (declared.map (fun text => ⟨1, text⟩) ++ body ++ results)))
      (numbersFrom ((declared.map fun text => (⟨1, text⟩ : Line)).foldl numberAfter 4) (body ++ results))

theorem Program.listed_of_text {p : Program} {text : String} (ht : p.text = .ok text) :
    ∃ numbers, p.Listed text numbers := by
  obtain ⟨declared, body, names, results, names', hd, hb, hr, rfl⟩ := text_eq_ok ht
  exact ⟨_, .of hd hb hr⟩

/-- The new names of the streams, once all have been declared that the actions and the saves need. -/
def Program.newName (p : Program) (y : Stage) : String → String :=
  (y.beforeSaves p.shorthand? p.results.manual).newName p.shorthand?

/-- What a listing builds whose body has the lines with the numbers, if its actions lead to the stage. -/
def Program.rebuilt (p : Program) (y : Stage) (numbers : List Nat) : Program :=
  { ((y.beforeSaves p.shorthand? p.results.manual).saved
      (p.results.manual.map (SaveEntry.mapSources (p.newName y)))).draft.program with
    body := (placedBlock p.shorthand? (p.newName y) p.body ⟨[], numbers⟩).1 }

section

variable {p : Program} {role : String → TagRole} {tags own : List String} {y : Stage}

/-- The lines of a listing make its declarations again, then its body with the streams renamed, and then
its saves. -/
theorem Program.Listed.replays {text : String} (hl : p.Listed text numbers)
    (hnumbered : Numbered p.declarations) (hwritable : ∀ d ∈ p.declarations, d.Writable)
    (hshaped : ∀ d ∈ p.declarations, d.Shaped)
    (hheads : ∀ s ∈ walkBlock p.body, s.HeadOver (handlesOf p.declarations) p.shorthand?)
    (harranges : ArrangesAll p.shorthand? (actionsOf (walkBlock p.body)) (.declared p.declarations) y)
    (hy : y.InOrder role tags)
    (hown : ∀ name ∈ own, p.shorthand? name = none ∧ StreamFits (handlesOf p.declarations) name)
    (hmanual : ∀ entry ∈ p.results.manual, entry.Over own)
    (hdistinct : (y.draft.registry.saves.map SaveEntry.tag ++ p.results.manual.map SaveEntry.tag).Nodup) :
    Program.ofScript text = .ok (p.rebuilt y numbers) := by
  obtain @⟨declared, body, results, names, names', hd, hb, hr⟩ := hl
  let σ := p.newName y
  have hσ : (y.beforeSaves p.shorthand? p.results.manual).Names p.shorthand? σ := Stage.names_newName
  have hextends : y.Extends (y.beforeSaves p.shorthand? p.results.manual) :=
    y.extends_declareAll (nodup_undeclared _ _) fun _ h => (mem_undeclared.mp h).2.2
  obtain ⟨osd, hlinesd, hruns⟩ := declarations_run hnumbered hwritable hshaped hd
  obtain ⟨rfl, -, osb, hlinesb, -, hblock⟩ := block_replays p.body hheads hb harranges (hσ.before hextends)
  obtain ⟨osr, hlinesr, placing, hresults⟩ := results_replay hy hr hmanual hown hσ hdistinct
  let z := (y.beforeSaves p.shorthand? p.results.manual).saved
    (p.results.manual.map (SaveEntry.mapSources σ))
  have hsaves (ss : List Statement) : Replays (handlesOf p.declarations) osr y z [⟨0, .program⟩] ss
      (placing >>= fun _ => pure ss) fun ss => ss := .map (hresults ss)
  have hrest := (@hblock [] [] [⟨0, .program⟩] rfl).bind hsaves
  -- the lines of the body come after as many as there are declarations
  let built (numbers : List Nat) : List Statement :=
    (placedBlock p.shorthand? σ p.body ⟨[], numbers.drop p.declarations.length⟩).1
  have hleads : Leads (osd ++ (osb ++ osr)) State.started fun numbers s =>
      Standing (handlesOf p.declarations) z (built numbers) [⟨0, .program⟩] s := by
    have hdeclared : Leads osd State.started fun numbers s => numbers.length = p.declarations.length ∧
        Standing (handlesOf p.declarations) (.declared p.declarations) [] [⟨0, .program⟩] s := by
      obtain ⟨hreads, hall⟩ := hruns standing_started
      refine ⟨hreads, fun stmts hs => ?_⟩
      obtain ⟨hlength, s, hrun, hst⟩ := hall stmts hs
      exact ⟨s, hrun, hlength, hst⟩
    refine hdeclared.append fun numbers s ⟨hlength, hst⟩ => ?_
    have hdrop (numbers' : List Nat) : (numbers ++ numbers').drop p.declarations.length = numbers' := by
      rw [← hlength, List.drop_left]
    simp only [built, hdrop]
    exact hrest.leads hst
  obtain ⟨os, hne, hlines, hreads, hall⟩ := hleads.orPass
  have htext : programLines os = ⟨0, "from qm.qua import *"⟩ :: ⟨0, ""⟩ ::
      ⟨0, "with program() as prog:"⟩ ::
        Listing.orPass 1 (declared.map (fun text => ⟨1, text⟩) ++ body ++ results) := by
    rw [programLines, hlines, linesOf_append, linesOf_append, hlinesd, hlinesb, hlinesr,
      List.append_assoc]
  obtain ⟨stmts, q, hq, rfl⟩ := ofScript_numbered
    (P := fun _ q => q = { z.draft.program with
      body := built (numbersFrom 4 (linesOf 1 (osd ++ (osb ++ osr)))) }) hne hreads fun stmts hr hnumbers => by
    obtain ⟨s, hrun, hst⟩ := hall stmts hr
    have hst := hst hnumbers
    obtain ⟨number, location, hdraft⟩ := hst.draft
    exact ⟨s, hrun, hst.programs, by rw [hdraft]; rfl, by rw [hdraft]; rfl⟩
  have hnumbers : (numbersFrom 4 (linesOf 1 (osd ++ (osb ++ osr)))).drop p.declarations.length =
      numbersFrom ((declared.map fun text => (⟨1, text⟩ : Line)).foldl numberAfter 4) (body ++ results) := by
    have hlength : (numbersFrom 4 (linesOf 1 osd)).length = p.declarations.length := by
      rw [hlinesd, length_numbersFrom, List.length_map, except_mapM_length hd]
    rw [linesOf_append, numbersFrom_append, ← hlength, List.drop_left, linesOf_append, hlinesd, hlinesb, hlinesr]
  rw [← htext, hq, show built _ = _ from congrArg (fun lines => (placedBlock p.shorthand? σ p.body ⟨[], lines⟩).1)
    hnumbers]
  rfl

end

end Qua
