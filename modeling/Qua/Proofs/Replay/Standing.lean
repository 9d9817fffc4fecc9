import Qua.Proofs.Replay.Placement
import Qua.Proofs.Replay.Scopes
import Qua.Proofs.Script.Outline

/-!
# Replaying lines

A state of a replay stands at a stage of the listing, with the body that has been built by then. Lines
take states at one stage to states at the next one; what they build depends only on where they stand.
Main statements: `Replays.bind` for lines after one another, `Replays.block` for lines inside a block.
-/

namespace Qua

namespace Replay

open Script (Stmt Outline ReadsAll Reads IsTerm lineNumbersOf lineNumbersOf_append)
open Text (IsIdentifier)

-- ---------------------------------------------------------------------------
-- Statements one after the other
-- ---------------------------------------------------------------------------

/-- At the location of a line. -/
def State.atLine (s : State) (line : Nat) : State :=
  { s with draft := { s.draft with location := lineLocation line } }

theorem statements_append {before after : List Stmt} (h : statements before s = .ok ((), s')) :
    statements (before ++ after) s = statements after s' := by
  induction before generalizing s with
  | nil =>
    rw [statements] at h
    obtain ⟨-, rfl⟩ := Prod.mk.inj (Except.ok.inj h)
    rfl
  | cons first rest ih =>
    rw [statements] at h
    obtain ⟨_, s₁, h₁, h⟩ := bind_eq_ok.mp h
    obtain ⟨_, s₂, h₂, h⟩ := bind_eq_ok.mp h
    rw [List.cons_append, statements, bind_run, h₁]
    simp only
    rw [bind_run, h₂]
    exact ih h

theorem statements_one {stmt : Stmt} (h : statement stmt (s.atLine stmt.line) = .ok ((), s')) :
    statements [stmt] s = .ok ((), s') := by
  have hline : Replay.atLine stmt.line (statement stmt) (s.atLine stmt.line) = .ok ((), s') := by
    rw [Replay.atLine, h]
  rw [statements, bind_run]
  change (Replay.atLine stmt.line (statement stmt) >>= fun _ => statements []) (s.atLine stmt.line) = _
  rw [bind_run, hline]
  simp only
  rw [statements]
  rfl

/-- An assignment binds the value of its term. -/
theorem statement_assign {t : Script.Term} (line : Nat) (name : String) (h : evaluate t s = .ok (v, s')) :
    statement (.assign line (.name name) t) s =
      .ok ((), { s' with environment := (name, v) :: s'.environment }) := by
  rw [statement]
  simp only [Script.Term.name?]
  rw [bind_run, h]
  rfl

-- ---------------------------------------------------------------------------
-- Standing at a stage
-- ---------------------------------------------------------------------------

section

variable {hs : List (String × Expression)}

/-- The state stands at a stage: the streams declared so far are bound, and the body has been built. -/
structure Standing (hs : List (String × Expression)) (x : Stage) (body : List Statement)
    (scopes : List Frame) (s : State) : Prop where
  ready : Ready hs s
  streams : ∀ name source, x.streams.lookup name = some source →
    s.environment.lookup name = some (.source source)
  programs : s.programs = 1
  draft : ∃ number location, s.draft = x.draft.moved ⟨body, scopes, number, location⟩

variable {x y z : Stage} {body : List Statement} {scopes : List Frame} {s : State}

/-- Another draft, of a stage with the same streams. -/
theorem Standing.moved (h : Standing hs x body scopes s) (hy : y.streams = x.streams)
    (hd : s' = { s with draft := y.draft.moved ⟨body', scopes', number, location⟩ }) :
    Standing hs y body' scopes' s' := by
  subst hd
  exact ⟨h.ready.moved _, fun name source hn => h.streams name source (hy ▸ hn), h.programs, _, _, rfl⟩

theorem Standing.atLine (h : Standing hs x body scopes s) (line : Nat) :
    ∃ number, (s.atLine line).draft = x.draft.moved ⟨body, scopes, number, lineLocation line⟩ ∧
      Standing hs x body scopes (s.atLine line) := by
  obtain ⟨number, location, hd⟩ := h.draft
  have hat : s.atLine line =
      { s with draft := x.draft.moved ⟨body, scopes, number, lineLocation line⟩ } := by
    rw [State.atLine, hd]
    rfl
  exact ⟨number, by rw [hat], h.moved rfl hat⟩

/-- The lines take states at `x` to states at `y`. What is placed there gives the body that they build. -/
def Replays (hs : List (String × Expression)) (lines : List Outline) (x y : Stage)
    (scopes : List Frame) (body : List Statement) (placing : Placing α)
    (built : α → List Statement) : Prop :=
  ∀ ⦃s⦄, Standing hs x body scopes s → (∃ stmts, ReadsAll lines stmts) ∧
    ∀ stmts, ReadsAll lines stmts → ∃ a s',
      (∀ rest, placing ⟨x.names, lineNumbersOf stmts ++ rest⟩ = (a, ⟨y.names, rest⟩)) ∧
        statements stmts s = .ok ((), s') ∧ Standing hs y (built a) scopes s'

namespace Replays

theorem pure (a : α) (built : α → List Statement) (x : Stage) (scopes : List Frame) :
    Replays hs [] x x scopes (built a) (Pure.pure a) built := by
  intro s h
  refine ⟨⟨[], .nil⟩, ?_⟩
  rintro _ ⟨⟩
  exact ⟨a, s, fun _ => rfl, by rw [statements]; rfl, h⟩

/-- Lines after one another. -/
theorem bind {m : Placing α} {f : α → Placing β} {built : α → List Statement}
    {built' : β → List Statement} (hm : Replays hs lines x y scopes body m built)
    (hf : ∀ a, Replays hs lines' y z scopes (built a) (f a) built') :
    Replays hs (lines ++ lines') x z scopes body (m >>= f) built' := by
  intro s h
  obtain ⟨⟨stmts, hr⟩, hall⟩ := hm h
  constructor
  · obtain ⟨a, s', -, -, h'⟩ := hall stmts hr
    obtain ⟨⟨stmts', hr'⟩, -⟩ := hf a h'
    exact ⟨stmts ++ stmts', hr.append hr'⟩
  · intro stmts hr
    obtain ⟨before, after, rfl, hb, ha⟩ := hr.of_append
    obtain ⟨a, s', hp, hrun, h'⟩ := hall before hb
    obtain ⟨b, s'', hp', hrun', h''⟩ := (hf a h').2 after ha
    refine ⟨b, s'', fun rest => ?_, ?_, h''⟩
    · rw [Placing.bind_run, lineNumbersOf_append, List.append_assoc, hp]
      exact hp' rest
    · rw [statements_append hrun, hrun']

/-- What has been placed is put together. -/
theorem map {m : Placing α} {f : α → β} {built : β → List Statement}
    (h : Replays hs lines x y scopes body m fun a => built (f a)) :
    Replays hs lines x y scopes body (m >>= fun a => Pure.pure (f a)) built := by
  have hb := h.bind (f := fun a => (Pure.pure (f a) : Placing β)) fun a => .pure (f a) built y scopes
  rwa [List.append_nil] at hb

/-- What is placed may depend on the streams declared so far. -/
theorem withDeclared {f : List String → Placing α} {built : α → List Statement}
    (h : Replays hs lines x y scopes body (f x.names) built) :
    Replays hs lines x y scopes body (declaredNames >>= f) built := h

/-- A line without blocks. -/
theorem line {o : Outline} {placing : Placing α} {f : String → α} {built : α → List Statement}
    (hp : ∀ line rest, placing ⟨x.names, line :: rest⟩ = (f (lineLocation line), ⟨y.names, rest⟩))
    (h : ∀ s line number, Standing hs x body scopes s →
      s.draft = x.draft.moved ⟨body, scopes, number, lineLocation line⟩ →
      (∃ stmt, stmt.line = line ∧ Reads o stmt) ∧ ∀ stmt, stmt.line = line → Reads o stmt →
        stmt.lineNumbers = [line] ∧ ∃ s', statement stmt s = .ok ((), s') ∧
          Standing hs y (built (f (lineLocation line))) scopes s') :
    Replays hs [o] x y scopes body placing built := by
  intro s hst
  have hat (line : Nat) := hst.atLine line
  constructor
  · obtain ⟨number, hd, hl⟩ := hat 0
    obtain ⟨⟨stmt, -, hr⟩, -⟩ := h _ 0 number hl hd
    exact ⟨[stmt], .cons hr .nil⟩
  · intro stmts hr
    cases hr with
    | @cons _ stmt _ _ hr hnil =>
      cases hnil
      obtain ⟨number, hd, hl⟩ := hat stmt.line
      obtain ⟨hlines, s', hrun, hs'⟩ := (h _ stmt.line number hl hd).2 stmt rfl hr
      refine ⟨f (lineLocation stmt.line), s', fun rest => ?_, statements_one hrun, hs'⟩
      rw [lineNumbersOf, lineNumbersOf, hlines]
      exact hp stmt.line rest

/-- A line that is a term. -/
theorem term {f : String → α} {built : α → List Statement} (hn : y.names = x.names)
    (h : ∀ s number location, Standing hs x body scopes s →
      s.draft = x.draft.moved ⟨body, scopes, number, location⟩ →
      ∃ v s', Yields IsTerm s text v s' ∧ Standing hs y (built (f location)) scopes s') :
    Replays hs [.term text] x y scopes body (nextLine >>= fun l => Pure.pure (f l)) built := by
  refine line (f := f) (fun _ _ => by rw [hn]; rfl) fun s line number hst hd => ?_
  obtain ⟨v, s', ⟨t, ht, hrun⟩, hs'⟩ := h s number (lineLocation line) hst hd
  refine ⟨⟨.term line t, rfl, .term line ht⟩, ?_⟩
  rintro stmt rfl hr
  cases hr with
  | term line ht' =>
    obtain rfl := ht.unique ht'
    refine ⟨rfl, s', ?_, hs'⟩
    rw [statement, bind_run, hrun]
    rfl

/-- A line that assigns to a name. -/
theorem assign {placing : Placing α} {a : α} {built : α → List Statement}
    (hp : ∀ line rest, placing ⟨x.names, line :: rest⟩ = (a, ⟨y.names, rest⟩))
    (hname : IsIdentifier name)
    (h : ∀ s, Standing hs x body scopes s → ∃ v s', Yields IsTerm s text v s' ∧
      Standing hs y (built a) scopes { s' with environment := (name, v) :: s'.environment }) :
    Replays hs [.assign name text] x y scopes body placing built := by
  refine line (f := fun _ => a) hp fun s line number hst hd => ?_
  obtain ⟨v, s', ⟨t, ht, hrun⟩, hs'⟩ := h s hst
  refine ⟨⟨.assign line (.name name) t, rfl, .assign line hname ht⟩, ?_⟩
  rintro stmt rfl hr
  cases hr with
  | assign line hname' ht' =>
    obtain rfl := ht.unique ht'
    exact ⟨rfl, _, statement_assign line name hrun, hs'⟩

/-- A line that does nothing. -/
theorem pass (built : α → List Statement) (a : α) (x : Stage) (scopes : List Frame) :
    Replays hs [.pass] x x scopes (built a) (nextLine >>= fun _ => Pure.pure a) built := by
  refine line (f := fun _ => a) (fun _ _ => rfl) fun s line number hst hd => ⟨⟨.pass line, rfl, .pass line⟩, ?_⟩
  rintro stmt rfl hr
  cases hr with
  | pass line => exact ⟨rfl, s, by rw [statement]; rfl, hst⟩

/-- A block: its scope is opened, what is in it is replayed, and the scope is closed. -/
theorem block {step : Build Nat} {scope : String → Scope} {opened : String → List Statement}
    {placing : String → Placing α} {built : α → List Statement} (hscope : ∀ l, (scope l).isProgram = false)
    (hopens : ∀ s, Ready hs s → Opens s text step) (hne : lines ≠ [])
    (hstep : ∀ number location, step (x.draft.moved ⟨body, scopes, number, location⟩) =
      .ok (number, x.draft.moved (Site.opened ⟨opened location, scopes, number, location⟩ (scope location))))
    (h : ∀ number location, Replays hs lines x y (⟨number, scope location⟩ :: scopes) (opened location)
      (placing location) built) :
    Replays hs [.block text lines] x y scopes body (nextLine >>= placing) built := by
  intro s hst
  have hinside (line : Nat) : ∃ number t, IsTerm text t ∧
      ∃ s₁, openScope t (s.atLine line) = .ok (number, s₁) ∧
        Standing hs x (opened (lineLocation line))
          (⟨number, scope (lineLocation line)⟩ :: scopes) s₁ := by
    obtain ⟨number, hd, hl⟩ := hst.atLine line
    obtain ⟨t, ht, hrun⟩ := hopens _ hl.ready
    refine ⟨number, t, ht, _, hrun number _ (hd ▸ hstep number (lineLocation line)), hl.moved rfl rfl⟩
  constructor
  · obtain ⟨number, t, ht, s₁, -, hs₁⟩ := hinside 0
    obtain ⟨⟨stmts, hr⟩, -⟩ := h number (lineLocation 0) hs₁
    exact ⟨[.block 0 t none stmts], .cons (.block 0 ht.context hne hr) .nil⟩
  · intro stmts hr
    cases hr with
    | cons hr hnil =>
      cases hnil
      cases hr with
      | @block _ t' target _ stmts line hc _ hr =>
        obtain ⟨number, t, ht, s₁, hopen, hs₁⟩ := hinside line
        obtain ⟨rfl, rfl⟩ := Prod.mk.inj (hc.unique ht.context)
        obtain ⟨a, s', hp, hrun, hs'⟩ := (h number (lineLocation line) hs₁).2 stmts hr
        obtain ⟨number', location', hd⟩ := hs'.draft
        have hclose : build (Build.closeScope number) s' = .ok ((), { s' with
            draft := y.draft.moved ⟨built a, scopes, number', location'⟩ }) := by
          rw [build, hd, Build.closeScope_run _ rfl (hscope _)]
        refine ⟨a, { s' with draft := y.draft.moved ⟨built a, scopes, number', location'⟩ },
          fun rest => ?_, statements_one ?_, hs'.moved rfl rfl⟩
        · have hnext := hp rest
          rw [lineNumbersOf, lineNumbersOf, List.append_nil, Stmt.lineNumbers]
          exact hnext
        · have hat : openScope t' (s.atLine (Stmt.block line t' none stmts).line) = .ok (number, s₁) :=
            hopen
          rw [statement, bind_run, hat]
          simp only
          rw [bind_run, hrun]
          exact hclose

end Replays

end

end Replay
end Qua
