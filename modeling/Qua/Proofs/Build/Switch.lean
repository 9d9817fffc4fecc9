import Mathlib
import Qua.Proofs.Build.Nest

/-!
# Switches are conditionals

A switch appends one conditional to its block: the cases are its branches, in the order in which they are
opened, and the default is its `else`, whenever it is opened. Main statement:
`Switch.perform_builds_conditional`.
-/

namespace Qua

open Calls Build

/-- What is built in a scope, and where from the scope is opened. -/
structure Block where
  body : List Nest
  location : String

/-- The calls in a scope of the given kind. -/
def Block.nest (entry : Entry) (block : Block) : Nest := .scope entry block.body block.location

/-- A case of a switch. -/
structure Case extends Block where
  value : Expression

/-- The calls of a switch with at least one case. -/
structure Switch where
  value : Expression
  isUnsafe : Bool
  first : Case
  before : List Case
  /-- The default, which may be opened between cases. -/
  default? : Option Block
  after : List Case
  location : String

namespace Switch

/-- The calls in the scope of the switch. -/
def parts (w : Switch) : List Nest :=
  let case (c : Case) : Nest := c.nest (.case c.value)
  case w.first ::
    (w.before.map case ++ ((w.default?.map (Block.nest .default)).toList ++ w.after.map case))

def nest (w : Switch) : Nest := .scope (.switch w.value w.isUnsafe) w.parts w.location

/-- What is compared in a case. -/
def condition (w : Switch) (case : Case) : Expression := .binary .eq w.value case.value

/-- The branch of a case. -/
def branch (w : Switch) (case : Case) : Build (Branch Statement) :=
  return ⟨w.condition case, ← built case.body, w.first.location⟩

/-- The conditional with the blocks that have been built. -/
def conditional (w : Switch) (body : List Statement) (elifs : List (Branch Statement))
    (otherwise : Option (List Statement)) : Statement :=
  .conditional (w.condition w.first) w.isUnsafe body elifs otherwise w.first.location

/-- The conditional that the switch is, built in the order of the calls. -/
def statement (w : Switch) : Build Statement := do
  let body ← built w.first.body
  let before ← w.before.mapM w.branch
  let otherwise ← w.default?.mapM fun block => built block.body
  let after ← w.after.mapM w.branch
  return w.conditional body (before ++ after) otherwise

/-- The calls of the chain of conditions: `if`, an `elif` for each further case, and `else` last. -/
def chain (w : Switch) : List Nest :=
  w.first.nest (.conditional (w.condition w.first) w.isUnsafe) ::
    ((w.before ++ w.after).map (fun c => c.nest (.elif (w.condition c))) ++
      (w.default?.map (Block.nest .otherwise)).toList)

/-- The conditional that the chain is, built in the order of the calls. -/
def chainStatement (w : Switch) : Build Statement := do
  let body ← built w.first.body
  let elifs ← (w.before ++ w.after).mapM w.branch
  let otherwise ← w.default?.mapM fun block => built block.body
  return w.conditional body elifs otherwise

end Switch

-- ---------------------------------------------------------------------------
-- Calls and what they make
-- ---------------------------------------------------------------------------

/-- The hole of the context is filled with the block, and the given scopes are open. -/
structure Draft.Stands (C : Context) (block : List Statement) (scopes : List Frame) (e : Draft) :
    Prop where
  body : e.program.body = C.plug block
  scopes : e.scopes = scopes

theorem Draft.Stands.moved_eq {C : Context} {block : List Statement} {scopes : List Frame} {e : Draft}
    (h : e.Stands C block scopes) : e = e.moved ⟨C.plug block, scopes, e.nextScope, e.location⟩ := by
  rw [← h.body, ← h.scopes]
  rfl

/-- The calls bring a draft into the state that tells of what is made with the same inventory; they fail
if that cannot be made. -/
def Tracks (P : Draft → Prop) (Q : α → Draft → Prop) (calls : Calls Unit) (made : Build α) : Prop :=
  ∀ ⦃d e : Draft⦄, P e → d.inventory = e.inventory →
    (∃ a t e', made d = .ok (a, t) ∧ calls ⟨e, none⟩ = (.ok (), ⟨e', none⟩) ∧ Q a e' ∧
      t.inventory = e'.inventory) ∨
    (∃ error, made d = .error error) ∧ calls.Fails e

namespace Tracks

variable {P : Draft → Prop} {Q : α → Draft → Prop} {R : β → Draft → Prop} {calls rest : Calls Unit}
  {made : Build α}

theorem pure {a : α} (h : ∀ e, P e → Q a e) : Tracks P Q (Pure.pure ()) (Pure.pure a) :=
  fun d e he hde => .inl ⟨a, d, e, rfl, rfl, h e he, hde⟩

theorem bind (h : Tracks P Q calls made) {f : α → Build β} (hf : ∀ a, Tracks (Q a) R rest (f a)) :
    Tracks P R (do calls; rest) (made >>= f) := by
  intro d e he hde
  obtain ⟨a, t, e₁, hmade, hcalls, hq, hi⟩ | ⟨⟨error, hmade⟩, hcalls⟩ := h he hde
  · rw [bind_run, hmade]
    obtain ⟨b, u, e₂, hf, hrest, hr, hi⟩ | ⟨hf, hrest⟩ := hf a hq hi
    · exact .inl ⟨b, u, e₂, hf, by rw [bind_ok hcalls, hrest], hr, hi⟩
    · exact .inr ⟨hf, .after hcalls hrest⟩
  · exact .inr ⟨⟨error, by rw [bind_run, hmade]⟩, hcalls.bind _⟩

theorem map (h : Tracks P Q calls made) {f : α → β} (hf : ∀ a e, Q a e → R (f a) e) :
    Tracks P R calls (do return f (← made)) := by
  intro d e he hde
  obtain ⟨a, t, e₁, hmade, hcalls, hq, hi⟩ | ⟨⟨error, hmade⟩, hcalls⟩ := h he hde
  · exact .inl ⟨f a, t, e₁, by rw [bind_run, hmade]; rfl, hcalls, hf a e₁ hq, hi⟩
  · exact .inr ⟨⟨error, by rw [bind_run, hmade]⟩, hcalls⟩

/-- What is built in the block of a statement ends up in that statement. -/
theorem scope {C : Context} {before block : List Statement} {scopes scopes' : List Frame} {hole : Hole}
    {enter : Build Nat} (body : List Nest)
    (h : ∀ e : Draft, e.Stands C before scopes → ∃ l, enter e = .ok (e.nextScope, e.moved (Site.opened
      ⟨(C.enter block hole).plug [], scopes', e.nextScope, l⟩ (.body (C.enter block hole).path)))) :
    Tracks (Draft.Stands C before scopes) (fun b => Draft.Stands C (block ++ [hole.fill b]) scopes')
      (inScope enter (performNests body)) (built body) := by
  intro d e he hde
  obtain ⟨l, hrun⟩ := h e he
  obtain ⟨b, t, e', hb, hcalls, hbody, hscopes, hi⟩ | hn :=
    built_inScope (d := d) body hrun rfl rfl rfl hde
  · exact .inl ⟨b, t, e', hb, hcalls, ⟨by rw [hbody, Context.plug_enter], hscopes⟩, hi⟩
  · exact .inr hn

end Tracks

theorem performNests_append (first rest : List Nest) :
    performNests (first ++ rest) = (do performNests first; performNests rest) := by
  induction first with
  | nil => simp [performNests]
  | cons nest first ih => simp [performNests, ih]

-- ---------------------------------------------------------------------------
-- Steps of a switch
-- ---------------------------------------------------------------------------

section

variable {C : Context} {block : List Statement} {outer : List Frame} {k : Nat} (d : Draft)
  (value v : Expression) (isUnsafe : Bool) {s : Site}

theorem openSwitch_run (h : s.At C block) :
    openSwitch value isUnsafe (d.moved s) =
      .ok (s.nextScope, d.moved (s.opened (.switch C.path value isUnsafe none))) := by
  have hp : bodyPath (d.moved s) = .ok (C.path, d.moved s) := bodyPath_run h.path
  simp only [openSwitch, bind_run, hp]
  rfl

/-- The first case appends the conditional, and the switch takes note of where it is. -/
theorem openCase_first (hb : s.body = C.plug block)
    (hs : s.scopes = ⟨k, .switch C.path value isUnsafe none⟩ :: outer) :
    let hole : Hole := .conditional (.binary .eq value v) isUnsafe [] none s.location
    openCase v (d.moved s) = .ok (s.nextScope, d.moved (Site.opened
      ⟨(C.enter block hole).plug [], ⟨k, .switch C.path value isUnsafe (some block.length)⟩ :: outer,
        s.nextScope, s.location⟩ (.body (C.enter block hole).path))) := by
  have hi : (d.moved s).site.innermost? = some (.switch C.path value isUnsafe none) := by
    simp [Site.innermost?, hs]
  rw [openCase, innermost_bind, hi]
  simp only [bind_run, get_run, Draft.location_moved]
  rw [edit_plug _ d hb]
  simp only [Edit.push, setSwitchIndex, modify_run, Draft.scopes_moved, hs, Context.plug_enter,
    Context.path_enter, Hole.fill, Hole.selector]
  rfl

section

variable (c : Expression) (u : Bool) (body : List Statement) (elifs : List (Branch Statement))
  (l : String)

/-- Further cases find the conditional, and become `elif` branches of it. -/
theorem openCase_next (otherwise : Option (List Statement))
    (hb : s.body = C.plug (block ++ [.conditional c u body elifs otherwise l]))
    (hs : s.scopes = ⟨k, .switch C.path value isUnsafe (some block.length)⟩ :: outer) :
    let hole : Hole := .branch c u body elifs (.binary .eq value v) l [] otherwise l
    openCase v (d.moved s) = .ok (s.nextScope, d.moved (Site.opened
      { s with body := (C.enter block hole).plug [] } (.body (C.enter block hole).path))) := by
  have hi : (d.moved s).site.innermost? = some (.switch C.path value isUnsafe (some block.length)) := by
    simp [Site.innermost?, hs]
  rw [openCase, innermost_bind, hi]
  simp only [bind_run]
  rw [edit_plug _ d hb, Edit.atIndex_last]
  simp only [Edit.addElif, Edit.within, openScope_run, Context.plug_enter, Context.path_enter,
    Hole.fill, Hole.selector]

theorem openDefault_run (hb : s.body = C.plug (block ++ [.conditional c u body elifs none l]))
    (hs : s.scopes = ⟨k, .switch C.path value isUnsafe (some block.length)⟩ :: outer) :
    let hole : Hole := .alternative c u body elifs l
    openDefault (d.moved s) = .ok (s.nextScope, d.moved (Site.opened
      { s with body := (C.enter block hole).plug [] } (.body (C.enter block hole).path))) := by
  have hi : (d.moved s).site.innermost? = some (.switch C.path value isUnsafe (some block.length)) := by
    simp [Site.innermost?, hs]
  rw [openDefault, innermost_bind, hi]
  simp only [bind_run]
  rw [edit_plug _ d hb, Edit.atIndex_last]
  simp only [Edit.addOtherwise, Edit.within, openScope_run, Context.plug_enter, Context.path_enter,
    Hole.fill, Hole.selector]

end
end

-- ---------------------------------------------------------------------------
-- Scopes of a switch and of a chain
-- ---------------------------------------------------------------------------

section

variable {C : Context} {block : List Statement} {outer scopes : List Frame} {k : Nat}
  {value : Expression} {isUnsafe : Bool} {c : Expression} {u : Bool} {body : List Statement}
  {elifs : List (Branch Statement)} {otherwise : Option (List Statement)} {l : String}

/-- The calls of a block, from the step that opens it. -/
theorem Block.tracks {entry : Entry} {before : List Statement} {scopes' : List Frame} (b : Block)
    (hole : Hole) (h : ∀ e : Draft,
      entry.step (e.moved ⟨C.plug before, scopes, e.nextScope, b.location⟩) =
        .ok (e.nextScope, e.moved (Site.opened
          ⟨(C.enter block hole).plug [], scopes', e.nextScope, b.location⟩
          (.body (C.enter block hole).path)))) :
    Tracks (Draft.Stands C before scopes) (fun ss => Draft.Stands C (block ++ [hole.fill ss]) scopes')
      (b.nest entry).perform (built b.body) := by
  refine Tracks.scope b.body fun e he => ⟨b.location, ?_⟩
  rw [he.moved_eq, located_run]
  exact h e

theorem tracks_first (case : Case) :
    Tracks (Draft.Stands C block (⟨k, .switch C.path value isUnsafe none⟩ :: outer))
      (fun ss => Draft.Stands C
        (block ++ [.conditional (.binary .eq value case.value) isUnsafe ss [] none case.location])
        (⟨k, .switch C.path value isUnsafe (some block.length)⟩ :: outer))
      (case.nest (.case case.value)).perform (built case.body) :=
  case.tracks (.conditional _ _ [] none _) fun e => openCase_first e _ _ _ rfl rfl

theorem tracks_next (case : Case) :
    Tracks (Draft.Stands C (block ++ [.conditional c u body elifs otherwise l])
        (⟨k, .switch C.path value isUnsafe (some block.length)⟩ :: outer))
      (fun ss => Draft.Stands C
        (block ++ [.conditional c u body (elifs ++ [⟨.binary .eq value case.value, ss, l⟩]) otherwise l])
        (⟨k, .switch C.path value isUnsafe (some block.length)⟩ :: outer))
      (case.nest (.case case.value)).perform (built case.body) :=
  case.tracks (.branch c u body elifs _ l [] otherwise l)
    fun e => openCase_next e _ _ _ _ _ _ _ _ _ rfl rfl

theorem tracks_default (b : Block) :
    Tracks (Draft.Stands C (block ++ [.conditional c u body elifs none l])
        (⟨k, .switch C.path value isUnsafe (some block.length)⟩ :: outer))
      (fun ss => Draft.Stands C (block ++ [.conditional c u body elifs (some ss) l])
        (⟨k, .switch C.path value isUnsafe (some block.length)⟩ :: outer))
      (b.nest .default).perform (built b.body) :=
  b.tracks (.alternative c u body elifs l) fun e => openDefault_run e _ _ _ _ _ _ _ rfl rfl

variable (hpath : scopes.head?.bind (·.scope.blockPath?) = some C.path)
include hpath

theorem tracks_conditional (b : Block) :
    Tracks (Draft.Stands C block scopes)
      (fun ss => Draft.Stands C (block ++ [.conditional c u ss [] none b.location]) scopes)
      (b.nest (.conditional c u)).perform (built b.body) :=
  b.tracks (.conditional c u [] none b.location) fun e =>
    openBlock_run (.conditional c u [] [] none) e ⟨hpath, rfl⟩ (.conditional c u [] none b.location) rfl

theorem tracks_elif (b : Block) (condition : Expression) :
    Tracks (Draft.Stands C (block ++ [.conditional c u body elifs none l]) scopes)
      (fun ss => Draft.Stands C
        (block ++ [.conditional c u body (elifs ++ [⟨condition, ss, l⟩]) none l]) scopes)
      (b.nest (.elif condition)).perform (built b.body) :=
  b.tracks (.branch c u body elifs condition l [] none l)
    fun e => openElif_run _ _ _ _ _ _ e _ ⟨hpath, rfl⟩

theorem tracks_otherwise (b : Block) :
    Tracks (Draft.Stands C (block ++ [.conditional c u body elifs none l]) scopes)
      (fun ss => Draft.Stands C (block ++ [.conditional c u body elifs (some ss) l]) scopes)
      (b.nest .otherwise).perform (built b.body) :=
  b.tracks (.alternative c u body elifs l) fun e => openElse_run _ _ _ _ _ _ e ⟨hpath, rfl⟩

end

namespace Switch

/-- Each case adds its branch to those before. -/
theorem tracks_branches (w : Switch) {P : List (Branch Statement) → Draft → Prop} {nest : Case → Nest}
    (h : ∀ (case : Case) (elifs : List (Branch Statement)), Tracks (P elifs)
      (fun ss => P (elifs ++ [⟨w.condition case, ss, w.first.location⟩])) (nest case).perform
      (built case.body)) (cases : List Case) (elifs : List (Branch Statement)) :
    Tracks (P elifs) (fun made => P (elifs ++ made)) (performNests (cases.map nest))
      (cases.mapM w.branch) := by
  induction cases generalizing elifs with
  | nil =>
    rw [List.mapM_nil]
    exact .pure fun e he => by rwa [List.append_nil]
  | cons case cases ih =>
    rw [List.mapM_cons]
    have hcase : Tracks (P elifs) (fun made => P (elifs ++ [made])) (nest case).perform
        (w.branch case) :=
      (h case elifs).map fun _ _ hs => hs
    refine hcase.bind fun made => (ih (elifs ++ [made])).map fun rest e he => ?_
    rwa [List.append_assoc] at he

/-- The calls for the `else`, if there are any. -/
theorem tracks_optional {P : Option (List Statement) → Draft → Prop} {nest : Block → Nest}
    (h : ∀ b : Block, Tracks (P none) (fun ss => P (some ss)) (nest b).perform (built b.body))
    (block? : Option Block) :
    Tracks (P none) P (performNests (block?.map nest).toList) (block?.mapM fun b => built b.body) := by
  cases block? with
  | none => exact .pure fun e he => he
  | some b =>
    have hb := (h b).map (R := P) (f := some) fun _ _ hs => hs
    simpa [performNests] using hb

variable {C : Context} {block : List Statement} {scopes : List Frame}

/-- The switch has become the conditional with the given blocks, and its scope tells where that is. -/
abbrev HasBecome (w : Switch) (C : Context) (block : List Statement) (k : Nat) (scopes : List Frame)
    (body : List Statement) (otherwise : Option (List Statement)) (elifs : List (Branch Statement)) :
    Draft → Prop :=
  Draft.Stands C (block ++ [w.conditional body elifs otherwise])
    (⟨k, .switch C.path w.value w.isUnsafe (some block.length)⟩ :: scopes)

/-- The first case appends the conditional, and the other calls in the switch complete it. -/
theorem tracks_parts (w : Switch) (k : Nat) :
    Tracks (Draft.Stands C block (⟨k, .switch C.path w.value w.isUnsafe none⟩ :: scopes))
      (fun s => Draft.Stands C (block ++ [s])
        (⟨k, .switch C.path w.value w.isUnsafe (some block.length)⟩ :: scopes))
      (performNests w.parts) w.statement := by
  rw [parts, performNests, performNests_append, performNests_append, statement]
  refine (tracks_first w.first).bind fun body => ?_
  have hcases (otherwise : Option (List Statement)) := w.tracks_branches
    (P := w.HasBecome C block k scopes body otherwise) fun case _ => tracks_next case
  refine (hcases none w.before []).bind fun before => ?_
  have hdefault := tracks_optional
    (P := fun otherwise => w.HasBecome C block k scopes body otherwise before) tracks_default w.default?
  exact hdefault.bind fun otherwise => (hcases otherwise w.after before).map fun _ _ he => he

/-- A switch appends its conditional, and is closed again. -/
theorem tracks_nest (w : Switch) (hpath : scopes.head?.bind (·.scope.blockPath?) = some C.path) :
    Tracks (Draft.Stands C block scopes) (fun s => Draft.Stands C (block ++ [s]) scopes) w.nest.perform
      w.statement := by
  intro d e he hde
  let inside := e.moved (Site.opened ⟨C.plug block, scopes, e.nextScope, w.location⟩
    (.switch C.path w.value w.isUnsafe none))
  have hopen : located w.location (Entry.switch w.value w.isUnsafe).step e =
      .ok (e.nextScope, inside) := by
    rw [he.moved_eq, located_run]
    exact openSwitch_run e w.value w.isUnsafe ⟨hpath, rfl⟩
  have hinside : inside.Stands C block
    (⟨e.nextScope, .switch C.path w.value w.isUnsafe none⟩ :: scopes) := ⟨rfl, rfl⟩
  obtain ⟨s, t, e₁, hs, hcalls, hstands, hi⟩ | ⟨hs, hcalls⟩ :=
    w.tracks_parts e.nextScope hinside (d := d) hde
  · refine .inl ⟨s, t, e₁.moved { e₁.site with scopes := scopes }, hs, ?_, ⟨hstands.body, rfl⟩, hi⟩
    rw [nest, Nest.perform, inScope, bind_ok (call_ok hopen), bind_ok hcalls]
    exact call_ok (closeScope_run e₁ (s := e₁.site) hstands.scopes rfl)
  · exact .inr ⟨hs, .after (call_ok hopen) (hcalls.bind _)⟩

/-- In a block of its own a switch builds its conditional, as it does in a case of another one. -/
theorem built_nest (w : Switch) (h : w.statement d = .ok (s, t)) :
    ∃ u, built [w.nest] d = .ok ([s], u) ∧ u.inventory = t.inventory := by
  have hstands : d.emptied.Stands [] [] [⟨1, .body []⟩, ⟨0, .program⟩] := ⟨rfl, rfl⟩
  obtain ⟨s', t', e, hs, hrun, he, hi⟩ | ⟨⟨error, hs⟩, -⟩ := w.tracks_nest rfl hstands (d := d) rfl
  · rw [h] at hs
    obtain ⟨rfl, rfl⟩ := Prod.mk.inj (Except.ok.inj hs)
    refine ⟨e.moved d.site, ?_, hi.symm⟩
    rw [built, performNests, performNests, bind_ok hrun, pure_ok]
    exact congrArg (fun body => Except.ok (body, e.moved d.site)) he.body
  · rw [h] at hs
    cases hs

theorem tracks_chain (w : Switch) (hpath : scopes.head?.bind (·.scope.blockPath?) = some C.path) :
    Tracks (Draft.Stands C block scopes) (fun s => Draft.Stands C (block ++ [s]) scopes)
      (performNests w.chain) w.chainStatement := by
  rw [chain, performNests, performNests_append, chainStatement]
  refine (tracks_conditional hpath w.first.toBlock).bind fun body => ?_
  have helifs := w.tracks_branches
    (P := fun elifs => Draft.Stands C (block ++ [w.conditional body elifs none]) scopes)
    (fun case elifs => tracks_elif hpath case.toBlock (w.condition case)) (w.before ++ w.after) []
  refine helifs.bind fun elifs => ?_
  have hotherwise := tracks_optional
    (P := fun otherwise => Draft.Stands C (block ++ [w.conditional body elifs otherwise]) scopes)
    (tracks_otherwise hpath) w.default?
  exact hotherwise.map fun _ _ he => he

end Switch

-- ---------------------------------------------------------------------------
-- Bodies that declare nothing
-- ---------------------------------------------------------------------------

namespace Draft

/-- No variable and no stream has been declared in between. -/
def IsIdle (d t : Draft) : Prop :=
  t.program.declarations.length = d.program.declarations.length ∧ t.streams = d.streams

/-- Declarations and streams are added only, and without these nothing is gathered. -/
structure Gathers (d t : Draft) : Prop where
  declarations : d.program.declarations.length ≤ t.program.declarations.length
  streams : d.streams ≤ t.streams
  idle : d.IsIdle t → t.inventory = d.inventory

theorem Gathers.trans {d e t : Draft} (h : d.Gathers e) (h' : e.Gathers t) : d.Gathers t where
  declarations := h.declarations.trans h'.declarations
  streams := h.streams.trans h'.streams
  idle hidle := by
    obtain ⟨hd, hs⟩ := hidle
    have := h.declarations
    have := h'.declarations
    have := h.streams
    have := h'.streams
    rw [h'.idle ⟨by omega, by omega⟩, h.idle ⟨by omega, by omega⟩]

/-- If nothing is declared in the whole then nothing is in the parts. -/
theorem Gathers.isIdle {d e t : Draft} (h : d.Gathers e) (h' : e.Gathers t) (hidle : d.IsIdle t) :
    d.IsIdle e ∧ e.IsIdle t := by
  obtain ⟨hd, hs⟩ := hidle
  have := h.declarations
  have := h'.declarations
  have := h.streams
  have := h'.streams
  exact ⟨⟨by omega, by omega⟩, by omega, by omega⟩

theorem gathers : Course Gathers where
  of_eq d t h := by
    have hd := congrArg (fun x : Draft => x.program.declarations.length) h
    have hs := congrArg (fun x : Draft => x.streams) h
    exact ⟨hd.ge, hs.ge, fun _ => h⟩
  trans _ _ _ := Gathers.trans
  declares _ _ _ _ d _ t h := by
    obtain ⟨declaration, hadds⟩ := declareNamed_adds h
    have hs : t.streams = d.streams := congrArg Registry.streams hadds.registry
    have hd : t.program.declarations = d.program.declarations ++ [declaration] := by
      cases hadds <;> simp [declaring]
    refine ⟨by simp [hd], by rw [hs], fun hidle => ?_⟩
    have hlength := hidle.1
    simp [hd] at hlength

theorem along_useTag (role : TagRole) (tag : String) : Along Gathers (useTag role tag) := by
  intro d source t h
  obtain ⟨r, hu, rfl⟩ := useTag_eq_ok h
  obtain ⟨-, rfl⟩ | ⟨-, -, rfl, -⟩ := Registry.use_eq_ok hu
  · exact gathers.of_eq rfl
  · refine ⟨Nat.le_refl _, Nat.le_succ _, fun hidle => ?_⟩
    exact absurd hidle.2 (Nat.succ_ne_self _)

theorem along_declareStream (isAdcTrace : Bool) : Along Gathers (declareStream isAdcTrace) := by
  rintro d _ _ ⟨⟩
  exact ⟨Nat.le_refl _, Nat.le_succ _, fun hidle => absurd hidle.2 (Nat.succ_ne_self _)⟩

theorem gathers_built (body : List Nest) : Along Gathers (built body) :=
  along_built gathers along_useTag along_declareStream body

end Draft

/-- With this inventory the step makes the value, and gathers nothing. -/
def Repeats (inventory : Draft) (m : Build α) (a : α) : Prop :=
  ∀ ⦃d : Draft⦄, d.inventory = inventory → ∃ t, m d = .ok (a, t) ∧ t.inventory = inventory

namespace Repeats

variable {inventory : Draft} {m : Build α} {a : α}

theorem pure (a : α) : Repeats inventory (Pure.pure a) a := fun d hd => ⟨d, rfl, hd⟩

theorem bind {f : α → Build β} {b : β} (h : Repeats inventory m a) (hf : Repeats inventory (f a) b) :
    Repeats inventory (m >>= f) b := by
  intro d hd
  obtain ⟨e, ha, he⟩ := h hd
  obtain ⟨t, hb, ht⟩ := hf he
  exact ⟨t, bind_eq_ok.mpr ⟨a, e, ha, hb⟩, ht⟩

/-- What has gathered nothing once does the same whenever the inventory is the same. -/
theorem of_idle (hs : Steady m) (hg : Along Draft.Gathers m) (h : m d = .ok (a, t)) (hidle : d.IsIdle t)
    (hd : d.inventory = inventory) : Repeats inventory m a ∧ t.inventory = inventory := by
  have ht := ((hg h).idle hidle).trans hd
  refine ⟨fun e he => ?_, ht⟩
  obtain ⟨u, hu, htu⟩ := hs (hd.trans he.symm) h
  exact ⟨u, hu, htu.symm.trans ht⟩

end Repeats

namespace Switch

theorem steady_branch (w : Switch) (case : Case) : Steady (w.branch case) :=
  (steady_built case.body).bind fun _ => .pure _

theorem gathers_branch (w : Switch) (case : Case) : Along Draft.Gathers (w.branch case) :=
  Draft.gathers.along_bind (Draft.gathers_built case.body) fun _ => Draft.gathers.along_pure _

/-- If nothing is declared the order of the calls makes no difference. -/
theorem chainStatement_eq_ok (w : Switch) (h : w.statement d = .ok (s, t)) (hidle : d.IsIdle t) :
    ∃ u, w.chainStatement d = .ok (s, u) := by
  obtain ⟨body, d₁, hbody, h⟩ := bind_eq_ok.mp h
  obtain ⟨before, d₂, hbefore, h⟩ := bind_eq_ok.mp h
  obtain ⟨otherwise, d₃, hotherwise, h⟩ := bind_eq_ok.mp h
  obtain ⟨after, d₄, hafter, h⟩ := bind_eq_ok.mp h
  obtain ⟨rfl, rfl⟩ := pure_eq_ok.mp h
  have hg := Draft.gathers
  have hbranches (cases : List Case) := hg.along_mapM w.gathers_branch cases
  have hoptional (block? : Option Block) := hg.along_mapM_option
    (fun b : Block => Draft.gathers_built b.body) block?
  have g₁ := Draft.gathers_built _ hbody
  have g₂ := hbranches _ hbefore
  have g₃ := hoptional _ hotherwise
  have g₄ := hbranches _ hafter
  obtain ⟨hidle₁, hidle⟩ := g₁.isIdle (g₂.trans (g₃.trans g₄)) hidle
  obtain ⟨hidle₂, hidle⟩ := g₂.isIdle (g₃.trans g₄) hidle
  obtain ⟨hidle₃, hidle₄⟩ := g₃.isIdle g₄ hidle
  have hs (cases : List Case) := Simulates.mapM w.steady_branch cases
  obtain ⟨r₁, i₁⟩ := Repeats.of_idle (steady_built _) (Draft.gathers_built _) hbody hidle₁ rfl
  obtain ⟨r₂, i₂⟩ := Repeats.of_idle (hs _) (hbranches _) hbefore hidle₂ i₁
  obtain ⟨r₃, i₃⟩ := Repeats.of_idle
    (Simulates.mapM_option (fun b : Block => steady_built b.body) _) (hoptional _) hotherwise hidle₃ i₂
  obtain ⟨r₄, -⟩ := Repeats.of_idle (hs _) (hbranches _) hafter hidle₄ i₃
  have hchain :
      Repeats d.inventory w.chainStatement (w.conditional body (before ++ after) otherwise) := by
    rw [chainStatement, List.mapM_append]
    exact r₁.bind ((r₂.bind (r₄.bind (.pure (before ++ after)))).bind (r₃.bind (.pure _)))
  obtain ⟨u, hu, -⟩ := hchain rfl
  exact ⟨u, hu⟩

-- ---------------------------------------------------------------------------
-- Main statement
-- ---------------------------------------------------------------------------

/-- A switch without cases leaves no trace. -/
theorem perform_no_cases (value : Expression) (isUnsafe : Bool) (l : String) (hat : d.site.At C block) :
    ∃ e, (Nest.scope (.switch value isUnsafe) [] l).perform ⟨d, none⟩ = (.ok (), ⟨e, none⟩) ∧
      e.program = d.program ∧ e.scopes = d.scopes := by
  let s : Site := { d.site with location := l }
  have hat : s.At C block := ⟨hat.path, hat.body⟩
  have hopen : located l (Entry.switch value isUnsafe).step d = _ := openSwitch_run d value isUnsafe hat
  refine ⟨d.moved { s with nextScope := s.nextScope + 1 }, ?_, rfl, rfl⟩
  rw [Nest.perform, inScope, bind_ok (call_ok hopen), performNests, bind_ok (pure_ok _ _)]
  exact call_ok (closeScope_run d rfl rfl)

/-- A switch appends one conditional to the block that it is made in: the conditions compare the value
with the cases in their order, the branches are what the calls in the cases build, and the `else` is what
those in the default build. It fails exactly if one of these cannot be built. If no variable and no
stream is declared in them, a chain of `if`, `elif` and `else` builds the same up to locations. Without
cases nothing is built. -/
theorem perform_builds_conditional (w : Switch) (d : Draft) (C : Context) (block : List Statement)
    (hat : d.site.At C block) :
    (∀ s t, w.statement d = .ok (s, t) →
      (∃ e, w.nest.perform ⟨d, none⟩ = (.ok (), ⟨e, none⟩) ∧ e.program.body = C.plug (block ++ [s]) ∧
        e.scopes = d.scopes ∧ e.inventory = t.inventory) ∧
      (t.program.declarations = d.program.declarations → t.streams = d.streams →
        ∀ chain, NestsRelocated w.chain chain →
          ∃ e, performNests chain ⟨d, none⟩ = (.ok (), ⟨e, none⟩) ∧ e.scopes = d.scopes ∧
            e.program.body.map Statement.unlocated =
              (C.plug (block ++ [s])).map Statement.unlocated)) ∧
    (∀ error, w.statement d = .error error → w.nest.perform.Fails d) ∧
    ∀ value isUnsafe l, ∃ e,
      (Nest.scope (.switch value isUnsafe) [] l).perform ⟨d, none⟩ = (.ok (), ⟨e, none⟩) ∧
        e.program = d.program ∧ e.scopes = d.scopes := by
  have hstands : d.Stands C block d.scopes := ⟨hat.body, rfl⟩
  refine ⟨fun s t hs => ⟨?_, fun hdeclarations hstreams chain hchain => ?_⟩, fun error he => ?_,
    fun value isUnsafe l => perform_no_cases value isUnsafe l hat⟩
  · obtain ⟨s', t', e, hs', hrun, he, hi⟩ | ⟨⟨error, he⟩, -⟩ := w.tracks_nest hat.path hstands rfl
    · rw [hs] at hs'
      obtain ⟨rfl, rfl⟩ := Prod.mk.inj (Except.ok.inj hs')
      exact ⟨e, hrun, he.body, he.scopes, hi.symm⟩
    · rw [hs] at he
      nomatch he
  · obtain ⟨u, hu⟩ := w.chainStatement_eq_ok hs ⟨by rw [hdeclarations], hstreams⟩
    obtain ⟨s', t', e, hs', hrun, he, -⟩ | ⟨⟨error, he⟩, -⟩ := w.tracks_chain hat.path hstands rfl
    · rw [hu] at hs'
      obtain ⟨rfl, -⟩ := Prod.mk.inj (Except.ok.inj hs')
      obtain ⟨_, f, ⟨⟩, hf, hef⟩ := hchain.perform rfl hrun
      refine ⟨f, hf, ?_, ?_⟩
      · exact (congrArg Draft.scopes hef).symm.trans he.scopes
      · rw [← he.body]
        exact (congrArg (fun x : Draft => x.program.body) hef).symm
    · rw [hu] at he
      nomatch he
  · obtain ⟨s', t', e, hs', -⟩ | ⟨-, hfails⟩ := w.tracks_nest hat.path hstands rfl
    · rw [he] at hs'
      nomatch hs'
    · exact hfails

/-- A switch with a default between its cases, and with another switch in the default. -/
def nested : Switch :=
  let inner : Switch :=
    { value := .named "v2"
      isUnsafe := false
      first := { value := .int 5, body := [.leaf (.plain .pause) "7"], location := "6" }
      before := []
      default? := some { body := [], location := "8" }
      after := []
      location := "5" }
  { value := .named "v1"
    isUnsafe := true
    first := { value := .int 1, body := [.leaf (.resetFrame ["q1", "q2"]) "3"], location := "2" }
    before := []
    default? := some { body := [inner.nest], location := "4" }
    after := [{ value := .int 2, body := [.leaf (.plain .pause) "10"], location := "9" }]
    location := "1" }

def nestedConditional : Statement :=
  .conditional (.binary .eq (.named "v1") (.int 1)) true
    [.action (.resetFrame "q1") "3", .action (.resetFrame "q2") "3"]
    [⟨.binary .eq (.named "v1") (.int 2), [.action .pause "10"], "2"⟩]
    (some
      [.conditional (.binary .eq (.named "v2") (.int 5)) false [.action .pause "7"] [] (some []) "6"])
    "2"

theorem perform_builds_nested :
    (∃ e, nested.nest.perform {} = (.ok (), ⟨e, none⟩) ∧ e.program.body = [nestedConditional]) ∧
      ∃ e, performNests nested.chain {} = (.ok (), ⟨e, none⟩) ∧
        e.program.body.map Statement.unlocated = [nestedConditional.unlocated] := by
  have hs : nested.statement {} = .ok (nestedConditional, {}) := by cbv
  obtain ⟨⟨e, hrun, hbody, -⟩, hchain⟩ :=
    (perform_builds_conditional nested {} [] [] ⟨rfl, rfl⟩).1 _ _ hs
  obtain ⟨e', hrun', -, hbody'⟩ := hchain rfl rfl nested.chain (.refl _)
  exact ⟨⟨e, hrun, hbody⟩, e', hrun', hbody'⟩

end Switch

end Qua
