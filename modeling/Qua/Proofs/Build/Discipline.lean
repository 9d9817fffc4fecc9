import Qua.Proofs.Build.Scopes

/-!
# Which steps succeed

For each step there is a condition on the innermost scope under which it succeeds.
-/

namespace Qua

open Statement (blockAt? statementAt?)

namespace Site

/-- The innermost scope is the program or one of its blocks. -/
def HasBlock (s : Site) : Prop := s.blockPath?.isSome

/-- The last statement of the innermost block is a conditional without an `else` block. -/
def AwaitsElse (s : Site) : Prop :=
  ∃ path block c u body elifs l, s.blockPath? = some path ∧
    blockAt? path s.body = some (block ++ [.conditional c u body elifs none l])

/-- The innermost scope is a switch. -/
def IsSwitch (s : Site) : Prop :=
  ∃ path value isUnsafe index, s.innermost? = some (.switch path value isUnsafe index)

/-- The innermost scope is a switch with a case and without a default. -/
def AwaitsDefault (s : Site) : Prop :=
  ∃ path value isUnsafe index c u body elifs l,
    s.innermost? = some (.switch path value isUnsafe (some index)) ∧
      statementAt? path index s.body = some (.conditional c u body elifs none l)

/-- The innermost scope is a loop whose parts are opened one by one. -/
def IsLoop (s : Site) : Prop := ∃ path index, s.innermost? = some (.loop path index)

theorem Scoped.resolves {s : Site} (h : s.Scoped) (hi : s.innermost? = some scope) :
    scope.Resolves s.body := by
  obtain ⟨frame, hf, rfl⟩ := Option.map_eq_some_iff.mp hi
  exact h.resolved frame (List.mem_of_mem_head? hf)

/-- The innermost block fills a hole in the program. -/
theorem Scoped.exists_at {s : Site} (h : s.Scoped) (hp : s.blockPath? = some path) :
    ∃ C block, C.path = path ∧ s.At C block ∧ blockAt? path s.body = some block := by
  have hr : (blockAt? path s.body).isSome := by
    obtain ⟨frame, hf, hb⟩ := Option.bind_eq_some_iff.mp hp
    have hi : s.innermost? = some frame.scope := by simp [innermost?, hf]
    have hr := h.resolves hi
    cases hs : frame.scope with
    | program =>
      obtain rfl : [] = path := by simpa [hs, Scope.blockPath?] using hb
      rfl
    | body path' =>
      obtain rfl : path' = path := by simpa [hs, Scope.blockPath?] using hb
      rwa [hs] at hr
    | _ => simp [hs, Scope.blockPath?] at hb
  obtain ⟨block, hb⟩ := Option.isSome_iff_exists.mp hr
  obtain ⟨C, rfl, hC⟩ := blockAt?_eq_some_iff.mp hb
  exact ⟨C, block, rfl, ⟨hp, hC.symm⟩, hb⟩

theorem awaitsElse_iff {s : Site} (hp : s.blockPath? = some path)
    (hb : blockAt? path s.body = some block) :
    s.AwaitsElse ↔ ∃ before c u body elifs l, block = before ++ [.conditional c u body elifs none l] := by
  constructor
  · rintro ⟨path', before, c, u, body, elifs, l, hp', hb'⟩
    obtain rfl : path = path' := Option.some.inj (hp.symm.trans hp')
    exact ⟨before, c, u, body, elifs, l, Option.some.inj (hb.symm.trans hb')⟩
  · rintro ⟨before, c, u, body, elifs, l, rfl⟩
    exact ⟨path, before, c, u, body, elifs, l, hp, hb⟩

theorem AwaitsElse.hasBlock {s : Site} (h : s.AwaitsElse) : s.HasBlock := by
  obtain ⟨path, _, _, _, _, _, _, hp, -⟩ := h
  simp [HasBlock, hp]

theorem opens_opened {s : Site} {body' : List Statement} (hg : Grows s.body body')
    (hp : scope.isProgram = false) (hr : scope.Resolves body') :
    Opens s.nextScope s (opened { s with body := body' } scope) :=
  ⟨{ s with body := body' }, scope, .of_grows rfl rfl hg, rfl, hp, hr, rfl⟩

end Site

open Site (Opens Keeps Closes)

namespace Build

/-- The step succeeds exactly under the condition, and then does something to the site. If it fails,
then not over the stack of scopes. -/
def Settles (step : Build α) (d : Draft) (P : Prop) (Q : α → Site → Site → Prop) : Prop :=
  (P ∧ ∃ a t, step d = .ok (a, t) ∧ Q a d.site t.site) ∨
    (¬P ∧ ∃ e, step d = .error e ∧ e ≠ .unexpectedStack)

variable {Q : α → Site → Site → Prop} {P : Prop} {step : Build α} {d : Draft}

theorem Settles.ok (hp : P) (h : step d = .ok (a, t)) (hq : Q a d.site t.site) :
    Settles step d P Q :=
  .inl ⟨hp, a, t, h, hq⟩

theorem Settles.error (hp : ¬P) (h : step d = .error e) (he : e ≠ .unexpectedStack) :
    Settles step d P Q :=
  .inr ⟨hp, e, h, he⟩

/-- A step that builds nothing comes first. -/
theorem Settles.after {m : Build β} {f : β → Build α} (hl : Local m) (hm : Quiet m)
    (hf : ∀ b t, m d = .ok (b, t) → Settles (f b) t P Q) :
    Settles (m >>= f) d (Succeeds m d ∧ P) Q := by
  cases h : m d with
  | error e =>
    refine .error (fun ⟨⟨b, t, hb⟩, _⟩ => ?_) (by rw [bind_run, h]) (hm h)
    rw [h] at hb
    nomatch hb
  | ok result =>
    obtain ⟨b, t⟩ := result
    have hrun : (m >>= f) d = f b t := by rw [bind_run, h]
    rw [Settles, hrun, ← hl.site_eq h]
    obtain ⟨hp, ha⟩ | ⟨hp, he⟩ := hf b t h
    · exact .inl ⟨⟨⟨b, t, h⟩, hp⟩, ha⟩
    · exact .inr ⟨fun hs => hp hs.2, he⟩

theorem bodyPath_error (h : d.site.blockPath? = none) :
    bodyPath d = .error (.expectedScope "scope with body.") := by
  simp only [bodyPath, bind_run, innermost_run]
  simp only [Site.blockPath?, Draft.site, Option.bind_eq_none_iff] at h
  cases hs : d.scopes.head? with
  | none => rfl
  | some frame =>
    have hn := h frame hs
    cases hf : frame.scope <;> simp_all [Scope.blockPath?]

/-- A step that starts with the innermost block, and succeeds only if there is one. -/
theorem settles_bodyPath (h : d.site.Scoped) (hP : P → d.site.HasBlock) {f : Path → Build α}
    (hf : ∀ (C : Context) (block : List Statement), d.site.At C block →
      blockAt? C.path d.site.body = some block → d.site.blockPath? = some C.path →
      Settles (f C.path) d P Q) :
    Settles (bodyPath >>= f) d P Q := by
  cases hp : d.site.blockPath? with
  | none =>
    have hn : ¬P := fun hP' => by simpa [Site.HasBlock, hp] using hP hP'
    exact .error hn (by rw [bind_run, bodyPath_error hp]) (by simp)
  | some path =>
    obtain ⟨C, block, rfl, hat, hb⟩ := h.exists_at hp
    have hrun : (bodyPath >>= f) d = f C.path d := by rw [bind_run, bodyPath_run hat.path]
    rw [Settles, hrun]
    exact hf C block hat hb hp

theorem edit_site {C : Context} {block : List Statement} (change : Edit (List Statement) α)
    (d : Draft) (h : d.site.body = C.plug block) :
    edit C.path change d = match change block with
      | .ok (result, block) => .ok (result, d.moved { d.site with body := C.plug block })
      | .error e => .error e := by
  have hrun := edit_plug change d h
  rwa [Draft.moved_site] at hrun

theorem append_settles (h : d.site.Scoped) (statement : String → Statement) :
    Settles (append statement) d d.site.HasBlock (fun _ => Keeps) := by
  refine settles_bodyPath h id fun C block hat _ hp => ?_
  have hrun := edit_site (Edit.push (statement d.location)) d hat.body
  refine .ok (by simp [Site.HasBlock, hp]) (by simp only [bind_run, get_run, hrun, Edit.push]; rfl) ?_
  exact .of_grows rfl rfl (hat.body ▸ .plug C (.append block _))

/-- A statement is appended and its block opened. -/
theorem openBlock_settles (h : d.site.Scoped) (statement : String → Statement) (hole : String → Hole)
    (hs : ∀ l, statement l = (hole l).fill []) (hb : (hole d.location).selector = selector) :
    Settles (openBlock statement selector) d d.site.HasBlock Opens := by
  cases hp : d.site.blockPath? with
  | none =>
    have hrun : openBlock statement selector d = .error (.expectedScope "scope with body.") := by
      rw [openBlock, bind_run, bodyPath_error hp]
    exact .error (by simp [Site.HasBlock, hp]) hrun (by simp)
  | some path =>
    obtain ⟨C, block, rfl, hat, -⟩ := h.exists_at hp
    have hrun := openBlock_run statement d hat (hole d.location) (hs _)
    rw [Draft.moved_site, hb] at hrun
    refine .ok (by simp [Site.HasBlock, hp]) hrun (Site.opens_opened ?_ rfl ?_)
    · rw [hat.body, Context.plug_enter]
      exact .plug C (.append block _)
    · exact Scope.resolves_plug _ _

/-- A block ends in a conditional, or it does not. -/
theorem lastConditional_cases (missing : BuildError) (block : List Statement) :
    (∃ before c u body elifs otherwise l,
      block = before ++ [Statement.conditional c u body elifs otherwise l]) ∨
      ((∀ before c u body elifs otherwise l,
        block ≠ before ++ [Statement.conditional c u body elifs otherwise l]) ∧
        Edit.lastConditional missing block = .error missing) := by
  obtain rfl | ⟨before, s, rfl⟩ : block = [] ∨ ∃ before s, block = before ++ [s] := by
    simpa using block.eq_nil_or_concat
  · exact .inr ⟨by simp, rfl⟩
  · cases s with
    | conditional c u body elifs otherwise l =>
      exact .inl ⟨before, c, u, body, elifs, otherwise, l, rfl⟩
    | _ => exact .inr ⟨by simp, by simp [Edit.lastConditional]⟩

theorem openElif_settles (h : d.site.Scoped) (condition : Expression) :
    Settles (openElif condition) d d.site.AwaitsElse Opens := by
  refine settles_bodyPath h Site.AwaitsElse.hasBlock fun C block hat hb hp => ?_
  have hlast := edit_site (Edit.lastConditional .elifWithoutIf) d hat.body
  obtain ⟨before, c, u, body, elifs, otherwise, l, rfl⟩ | ⟨hn, he⟩ :=
    lastConditional_cases .elifWithoutIf block
  · rw [lastConditional_last] at hlast
    cases otherwise with
    | none =>
      have hrun := openElif_run before c u body elifs l d condition hat
      rw [Draft.moved_site, openElif, bind_run, bodyPath_run hat.path] at hrun
      refine .ok ((Site.awaitsElse_iff hp hb).mpr ⟨before, c, u, body, elifs, l, rfl⟩) hrun
        (Site.opens_opened ?_ rfl (Scope.resolves_plug _ _))
      rw [hat.body, Context.plug_enter]
      exact .plug C (.item before (Edit.grows_addElif rfl) [])
    | some otherwise =>
      refine .error (e := .elifAfterElse) (by simp [Site.awaitsElse_iff hp hb]) ?_ (by simp)
      simp only [bind_run, hlast]
      rw [edit_plug _ d (s := { d.site with body := _ }) rfl, Edit.atIndex_last]
      rfl
  · rw [he] at hlast
    refine .error (e := .elifWithoutIf) ?_ (by rw [bind_run, hlast]) (by simp)
    rw [Site.awaitsElse_iff hp hb]
    rintro ⟨before, c, u, body, elifs, l, rfl⟩
    exact hn _ _ _ _ _ _ _ rfl

theorem openElse_settles (h : d.site.Scoped) : Settles openElse d d.site.AwaitsElse Opens := by
  refine settles_bodyPath h Site.AwaitsElse.hasBlock fun C block hat hb hp => ?_
  have hlast := edit_site (Edit.lastConditional .elseWithoutIf) d hat.body
  obtain ⟨before, c, u, body, elifs, otherwise, l, rfl⟩ | ⟨hn, he⟩ :=
    lastConditional_cases .elseWithoutIf block
  · rw [lastConditional_last] at hlast
    cases otherwise with
    | none =>
      have hrun := openElse_run before c u body elifs l d hat
      rw [Draft.moved_site, openElse, bind_run, bodyPath_run hat.path] at hrun
      refine .ok ((Site.awaitsElse_iff hp hb).mpr ⟨before, c, u, body, elifs, l, rfl⟩) hrun
        (Site.opens_opened ?_ rfl (Scope.resolves_plug _ _))
      rw [hat.body, Context.plug_enter]
      have hadd : Edit.addOtherwise .duplicateElse (.conditional c u body elifs none l) =
          .ok ((), .conditional c u body elifs (some []) l) := rfl
      exact .plug C (.item before (Edit.grows_addOtherwise hadd) [])
    | some otherwise =>
      refine .error (e := .duplicateElse) (by simp [Site.awaitsElse_iff hp hb]) ?_ (by simp)
      simp only [bind_run, hlast]
      rw [edit_plug _ d (s := { d.site with body := _ }) rfl, Edit.atIndex_last]
      rfl
  · rw [he] at hlast
    refine .error (e := .elseWithoutIf) ?_ (by rw [bind_run, hlast]) (by simp)
    rw [Site.awaitsElse_iff hp hb]
    rintro ⟨before, c, u, body, elifs, l, rfl⟩
    exact hn _ _ _ _ _ _ _ rfl

theorem openSwitch_settles (h : d.site.Scoped) (value : Expression) (isUnsafe : Bool) :
    Settles (openSwitch value isUnsafe) d d.site.HasBlock Opens := by
  refine settles_bodyPath h id fun C block hat hb hp => ?_
  exact .ok (by simp [Site.HasBlock, hp]) rfl
    (Site.opens_opened (.refl _) rfl (Option.isSome_of_eq_some hb))

theorem openLoop_settles (h : d.site.Scoped) : Settles openLoop d d.site.HasBlock Opens := by
  cases hp : d.site.blockPath? with
  | none =>
    refine .error (by simp [Site.HasBlock, hp]) (by rw [openLoop, bind_run, bodyPath_error hp])
      (by simp)
  | some path =>
    obtain ⟨C, block, rfl, hat, -⟩ := h.exists_at hp
    have hrun := openLoop_run d hat
    rw [Draft.moved_site] at hrun
    refine .ok (by simp [Site.HasBlock, hp]) hrun (Site.opens_opened ?_ rfl ?_)
    · rw [hat.body]
      exact .plug C (.append block _)
    · have hs := Statement.statementAt?_plug C (block ++ [LoopParts.statement {} d.location]) block.length
      rw [List.getElem?_concat_length] at hs
      exact congrArg (Option.map Statement.form) hs

theorem innermost_bind (f : Option Scope → Build α) (d : Draft) :
    (innermost >>= f) d = f d.site.innermost? d := by
  rw [bind_run, innermost_run]
  rfl

theorem openResults_settles :
    Settles openResults d (d.site.innermost? = some .program) Opens := by
  by_cases hi : d.site.innermost? = some .program
  · refine .ok (t := d.moved (d.site.opened .results)) hi ?_ (Site.opens_opened (.refl _) rfl trivial)
    rw [openResults, innermost_bind, hi]
    rfl
  · refine .error (e := .expectedScope "program scope") hi ?_ (by simp)
    rw [openResults, innermost_bind]
    rcases ho : d.site.innermost? with _ | scope
    · rfl
    · cases scope <;> first | rfl | exact absurd ho hi

-- ---------------------------------------------------------------------------
-- Statements that scopes stand for
-- ---------------------------------------------------------------------------

/-- A change of a statement that an index finds. -/
theorem exists_edit {path : Path} {index : Nat} (hs : statementAt? path index d.site.body = some s)
    (change : Edit Statement α) :
    (∀ e, change s = .error e → edit path (Edit.atIndex index change) d = .error e) ∧
      ∀ a s', change s = .ok (a, s') → s.Grows s' →
        ∃ body, edit path (Edit.atIndex index change) d =
            .ok (a, d.moved { d.site with body := body }) ∧
          Grows d.site.body body ∧ statementAt? path index body = some s' := by
  obtain ⟨block, hb, hi⟩ := Option.bind_eq_some_iff.mp hs
  obtain ⟨C, rfl, hC⟩ := blockAt?_eq_some_iff.mp hb
  have hrun := edit_site (Edit.atIndex index change) d hC.symm
  rw [Edit.atIndex_run hi] at hrun
  constructor
  · intro e he
    rwa [he] at hrun
  · intro a s' he hg
    rw [he] at hrun
    refine ⟨C.plug (block.set index s'), hrun, ?_, ?_⟩
    · rw [← hC]
      exact .plug C (.set hi hg)
    · rw [Statement.statementAt?_plug, List.getElem?_set_self (List.getElem?_eq_some_iff.mp hi).1]

theorem exists_of_form {path : Path} {index : Nat} {body : List Statement}
    (h : (statementAt? path index body).map Statement.form = some .conditional) :
    ∃ c u block elifs otherwise l,
      statementAt? path index body = some (.conditional c u block elifs otherwise l) := by
  obtain ⟨s, hs, hf⟩ := Option.map_eq_some_iff.mp h
  cases s with
  | conditional c u block elifs otherwise l => exact ⟨c, u, block, elifs, otherwise, l, hs⟩
  | _ => nomatch hf

theorem exists_loop_of_form {path : Path} {index : Nat} {body : List Statement}
    (h : (statementAt? path index body).map Statement.form = some .loop) :
    ∃ init c update block l, statementAt? path index body = some (.loop init c update block l) := by
  obtain ⟨s, hs, hf⟩ := Option.map_eq_some_iff.mp h
  cases s with
  | loop init c update block l => exact ⟨init, c, update, block, l, hs⟩
  | _ => nomatch hf

theorem innermostLoop_run' {path : Path} {index : Nat}
    (hi : d.site.innermost? = some (.loop path index)) :
    innermostLoop d = .ok ((path, index), d) := by
  rw [innermostLoop, innermost_bind, hi]
  rfl

theorem innermostLoop_error (h : ¬d.site.IsLoop) :
    innermostLoop d = .error (.expectedScope "for scope") := by
  rw [innermostLoop, innermost_bind]
  rcases hi : d.site.innermost? with _ | scope
  · rfl
  · cases scope <;> first | rfl | exact absurd ⟨_, _, hi⟩ h

theorem openLoopPart_settles (h : d.site.Scoped) (which : LoopBlock) :
    Settles (openLoopPart which.selector) d d.site.IsLoop Opens := by
  by_cases hl : d.site.IsLoop
  · obtain ⟨path, index, hi⟩ := hl
    obtain ⟨init, c, update, block, l, hs⟩ := exists_loop_of_form (h.resolves hi)
    refine .ok ⟨path, index, hi⟩ (by simp only [openLoopPart, bind_run, innermostLoop_run' hi]; rfl)
      (Site.opens_opened (.refl _) rfl (Scope.resolves_block hs ?_))
    cases which <;> rfl
  · exact .error hl (by rw [openLoopPart, bind_run, innermostLoop_error hl]) (by simp)

theorem setLoopCondition_settles (h : d.site.Scoped) (condition : Expression) :
    Settles (setLoopCondition condition) d d.site.IsLoop (fun _ => Keeps) := by
  by_cases hl : d.site.IsLoop
  · obtain ⟨path, index, hi⟩ := hl
    obtain ⟨init, c, update, block, l, hs⟩ := exists_loop_of_form (h.resolves hi)
    obtain ⟨body, he, hg, -⟩ := (exists_edit hs (Edit.setCondition condition)).2 () _ rfl
      (Edit.grows_setCondition rfl)
    refine .ok (a := ()) (t := d.moved { d.site with body := body }) ⟨path, index, hi⟩ ?_
      (.of_grows rfl rfl hg)
    rw [setLoopCondition, bind_run, innermostLoop_run' hi]
    exact he
  · exact .error hl (by rw [setLoopCondition, bind_run, innermostLoop_error hl]) (by simp)

/-- The site in which the innermost switch has become a conditional. -/
theorem setSwitchIndex_run {path : Path} {value : Expression} {isUnsafe : Bool}
    (hi : d.site.innermost? = some (.switch path value isUnsafe none)) (index : Nat) :
    ∃ id outer, d.scopes = ⟨id, .switch path value isUnsafe none⟩ :: outer ∧
      ∀ s : Site, s.scopes = d.scopes →
        setSwitchIndex index (d.moved s) = .ok ((), d.moved
          { s with scopes := ⟨id, .switch path value isUnsafe (some index)⟩ :: outer }) := by
  obtain ⟨⟨id, scope⟩, hf, rfl⟩ := Option.map_eq_some_iff.mp hi
  obtain ⟨outer, ho⟩ := List.head?_eq_some_iff.mp hf
  refine ⟨id, outer, ho, fun s hs => ?_⟩
  rw [setSwitchIndex, modify_run, Draft.scopes_moved, hs]
  change d.scopes = _ at ho
  rw [ho]
  rfl

theorem openCase_settles (h : d.site.Scoped) (value : Expression) :
    Settles (openCase value) d d.site.IsSwitch Opens := by
  by_cases hs : d.site.IsSwitch
  · obtain ⟨path, switched, isUnsafe, index, hi⟩ := id hs
    have hr := h.resolves hi
    cases index with
    | none =>
      obtain ⟨block, hb⟩ := Option.isSome_iff_exists.mp hr
      obtain ⟨C, rfl, hC⟩ := blockAt?_eq_some_iff.mp hb
      obtain ⟨made, hm⟩ : ∃ made : Statement, made =
        .conditional (.binary .eq switched value) isUnsafe [] [] none d.location := ⟨_, rfl⟩
      let body := C.plug (block ++ [made])
      have he : edit C.path (Edit.push made) d = .ok (block.length, d.moved { d.site with body := body }) :=
        edit_site (Edit.push made) d hC.symm
      obtain ⟨id, outer, ho, hset⟩ := setSwitchIndex_run hi block.length
      let between : Site :=
        ⟨body, ⟨id, .switch C.path switched isUnsafe (some block.length)⟩ :: outer, d.nextScope, d.location⟩
      have hat : statementAt? C.path block.length body = some made := by
        rw [Statement.statementAt?_plug, List.getElem?_concat_length]
      have hg : Grows d.site.body body := hC ▸ .plug C (.append block _)
      have hk : d.site.Keeps between := by
        refine ⟨?_, rfl, fun hw => List.forall_mem_cons.mpr ⟨?_, fun frame hf => ?_⟩⟩
        · simp only [Draft.site, between, ho]
          rfl
        · exact (congrArg (Option.map Statement.form) hat).trans (by rw [hm]; rfl)
        · exact (hw.resolved frame (by simp [Draft.site, ho, hf])).grows hg
      refine .ok (t := d.moved (between.opened (.body (C.path ++ [(block.length, .body)])))) hs ?_
        ⟨between, _, hk, rfl, rfl, Scope.resolves_block hat (by rw [hm]; rfl), rfl⟩
      rw [openCase, innermost_bind, hi]
      simp only [bind_run, get_run, ← hm, he]
      rw [hset { d.site with body := body } rfl]
      rfl
    | some index =>
      obtain ⟨c, u, body, elifs, otherwise, l, hat⟩ := exists_of_form hr
      obtain ⟨grown, he, hg, hat'⟩ :=
        (exists_edit hat (Edit.addElif (.binary .eq switched value))).2 _ _ rfl
          (Edit.grows_addElif rfl)
      refine .ok hs (t := d.moved (Site.opened { d.site with body := grown }
        (.body (path ++ [(index, .elif elifs.length)])))) ?_
        (Site.opens_opened hg rfl (Scope.resolves_block hat' ?_))
      · rw [openCase, innermost_bind, hi]
        simp only [bind_run, he]
        rfl
      · simp [Statement.block?]
  · refine .error (e := .expectedScope "switch scope") hs ?_ (by simp)
    rw [openCase, innermost_bind]
    rcases hi : d.site.innermost? with _ | scope
    · rfl
    · cases scope <;> first | rfl | exact absurd ⟨_, _, _, _, hi⟩ hs

theorem openDefault_settles (h : d.site.Scoped) :
    Settles openDefault d d.site.AwaitsDefault Opens := by
  by_cases hs : d.site.IsSwitch
  · obtain ⟨path, switched, isUnsafe, index, hi⟩ := hs
    have hr := h.resolves hi
    cases index with
    | none =>
      refine .error (e := .defaultBeforeCase) ?_ (by rw [openDefault, innermost_bind, hi]; rfl) (by simp)
      rintro ⟨path', value, u, index, c, u', body, elifs, l, hi', -⟩
      rw [hi] at hi'
      nomatch hi'
    | some index =>
      obtain ⟨c, u, body, elifs, otherwise, l, hat⟩ := exists_of_form hr
      have hedit := exists_edit hat (Edit.addOtherwise .duplicateDefault)
      cases otherwise with
      | none =>
        have hadd : Edit.addOtherwise .duplicateDefault (.conditional c u body elifs none l) =
            .ok ((), .conditional c u body elifs (some []) l) := rfl
        obtain ⟨grown, he, hg, hat'⟩ := hedit.2 () _ hadd (Edit.grows_addOtherwise hadd)
        refine .ok (t := d.moved (Site.opened { d.site with body := grown }
          (.body (path ++ [(index, .otherwise)]))))
          ⟨path, switched, isUnsafe, index, c, u, body, elifs, l, hi, hat⟩ ?_
          (Site.opens_opened hg rfl (Scope.resolves_block hat' rfl))
        rw [openDefault, innermost_bind, hi]
        simp only [bind_run, he]
        rfl
      | some otherwise =>
        have he := hedit.1 .duplicateDefault rfl
        refine .error (e := .duplicateDefault) ?_
          (by rw [openDefault, innermost_bind, hi]; simp only [bind_run, he]) (by simp)
        rintro ⟨path', value, u', index', c', u'', body', elifs', l', hi', hat'⟩
        obtain ⟨⟩ := Option.some.inj (hi.symm.trans hi')
        rw [hat] at hat'
        nomatch hat'
  · refine .error (e := .expectedScope "switch scope") ?_ ?_ (by simp)
    · rintro ⟨path, value, u, index, c, u', body, elifs, l, hi, -⟩
      exact hs ⟨path, value, u, some index, hi⟩
    · rw [openDefault, innermost_bind]
      rcases hi : d.site.innermost? with _ | scope
      · rfl
      · cases scope <;> first | rfl | exact absurd ⟨_, _, _, _, hi⟩ hs

/-- Only the innermost scope can be closed, and not the program. -/
theorem closeScope_cases (d : Draft) (number : Nat) :
    (∃ scope outer, d.scopes = ⟨number, scope⟩ :: outer ∧ scope.isProgram = false ∧
      closeScope number d = .ok ((), d.moved { d.site with scopes := outer })) ∨
    ((¬∃ scope outer, d.scopes = ⟨number, scope⟩ :: outer ∧ scope.isProgram = false) ∧
      closeScope number d = .error .unexpectedStack) := by
  by_cases h : ∃ scope outer, d.scopes = ⟨number, scope⟩ :: outer ∧ scope.isProgram = false
  · obtain ⟨scope, outer, hs, hp⟩ := h
    exact .inl ⟨scope, outer, hs, hp, closeScope_run d (s := d.site) hs hp⟩
  · refine .inr ⟨h, ?_⟩
    simp only [closeScope, bind_run, get_run]
    cases hs : d.scopes with
    | nil => rfl
    | cons frame outer =>
      obtain ⟨id, scope⟩ := frame
      have hn : (decide (id = number) && !scope.isProgram) = false := by
        by_cases hi : id = number
        · subst hi
          simpa using fun hp => h ⟨scope, outer, hs, hp⟩
        · simp [hi]
      simp only [hn]
      rfl

theorem Settles.congr {P' : Prop} (h : Settles step d P Q) (hp : P ↔ P') : Settles step d P' Q := by
  rwa [Settles, ← hp]

/-- A step whose operands are always valid. -/
theorem Settles.unconditional (h : Settles step d P Q) (V : Prop) :
    ∃ operands : Prop, (V → operands) ∧ Settles step d (operands ∧ P) Q := by
  refine ⟨True, fun _ => trivial, ?_⟩
  rwa [true_and]

/-- The location makes no difference to what a step settles. -/
theorem located_settles (l : String) (h : Settles step { d with location := l } P Q)
    (hQ : ∀ a t, Q a { d.site with location := l } t → Q a d.site t) :
    Settles (located l step) d P Q := by
  obtain ⟨hp, a, t, hrun, hq⟩ | ⟨hp, e, hrun, he⟩ := h
  · exact .ok hp hrun (hQ a t.site hq)
  · exact .error hp hrun he

end Build

namespace Site

/-- The scopes do not depend on the location. -/
theorem Scoped.located {s : Site} (h : s.Scoped) (l : String) : Scoped { s with location := l } :=
  ⟨h.bottom, h.ordered, h.fresh, h.resolved⟩

theorem Keeps.of_located {s t : Site} (h : Keeps { s with location := l } t) : s.Keeps t :=
  ⟨h.keys, h.nextScope, fun hs => h.resolved (hs.located l)⟩

theorem Opens.of_located {s t : Site} (h : Opens number { s with location := l } t) :
    Opens number s t := by
  obtain ⟨between, scope, hk, h⟩ := h
  exact ⟨between, scope, hk.of_located, h⟩

theorem Keeps.trans {s t u : Site} (h : s.Keeps t) (h' : t.Keeps u) : s.Keeps u where
  keys := h'.keys.trans h.keys
  nextScope := h'.nextScope.trans h.nextScope
  resolved hs := h'.resolved (h.scoped hs)

end Site

open Build

-- ---------------------------------------------------------------------------
-- Entries
-- ---------------------------------------------------------------------------

/-- The innermost scope is one in which the call can open its own. -/
def Entry.Admitted (s : Site) : Entry → Prop
  | .conditional .. | .switch .. | .block _ | .loop => s.HasBlock
  | .elif _ | .otherwise => s.AwaitsElse
  | .case _ => s.IsSwitch
  | .default => s.AwaitsDefault
  | .loopPart _ => s.IsLoop
  | .results => s.innermost? = some .program

/-- The operands are valid, which only those of a block statement may fail to be. -/
def Entry.Valid : Entry → Prop
  | .block opening => opening.Valid
  | _ => True

theorem Opening.enter_settles (opening : Opening) (h : d.site.Scoped) :
    ∃ operands : Prop, (opening.Valid → operands) ∧
      Settles opening.enter d (operands ∧ d.site.HasBlock) Opens := by
  cases opening with
  | whileLoop condition =>
    exact (openBlock_settles h _ (.loop [] (some condition) []) (fun _ => rfl) rfl).unconditional _
  | infiniteLoop =>
    exact (openBlock_settles h _ (.loop [] (some (.bool true)) []) (fun _ => rfl) rfl).unconditional _
  | strictTiming => exact (openBlock_settles h _ .strictTiming (fun _ => rfl) rfl).unconditional _
  | counted target init condition update =>
    refine ⟨_, fun hv => assignTarget_succeeds hv d, .after (local_assignTarget target)
      (quiet_assignTarget target) fun target t ht => ?_⟩
    rw [← (local_assignTarget _).site_eq ht] at h ⊢
    exact openBlock_settles h _ (fun l => .loop [.action (.assign target init) l] (some condition)
      [.action (.assign target update) l] l) (fun _ => rfl) rfl
  | forEach targets values =>
    refine ⟨Succeeds (iterators targets values) d, fun hv : (Opening.forEach targets values).Valid => ?_, ?_⟩
    · obtain ⟨hole, t, hh⟩ := hv.hole_succeeds "" d
      obtain ⟨made, t, hm, -⟩ := bind_eq_ok.mp hh
      exact ⟨made, t, hm⟩
    · rw [Opening.enter, openForEach_eq]
      refine .after (local_iterators targets values) (quiet_iterators targets values)
        fun made t ht => ?_
      rw [← (local_iterators _ _).site_eq ht] at h ⊢
      exact openBlock_settles h _ (.forEach made) (fun _ => rfl) rfl

theorem Entry.step_settles (entry : Entry) (h : d.site.Scoped) :
    ∃ operands : Prop, (entry.Valid → operands) ∧
      Settles entry.step d (operands ∧ entry.Admitted d.site) Opens := by
  cases entry with
  | block opening => exact opening.enter_settles h
  | conditional condition isUnsafe =>
    exact (openBlock_settles h _ (.conditional condition isUnsafe [] none)
      (fun _ => rfl) rfl).unconditional _
  | elif condition => exact (openElif_settles h condition).unconditional _
  | otherwise => exact (openElse_settles h).unconditional _
  | switch value isUnsafe => exact (openSwitch_settles h value isUnsafe).unconditional _
  | case value => exact (openCase_settles h value).unconditional _
  | default => exact (openDefault_settles h).unconditional _
  | loop => exact (openLoop_settles h).unconditional _
  | loopPart which => exact (openLoopPart_settles h which).unconditional _
  | results => exact openResults_settles.unconditional _

-- ---------------------------------------------------------------------------
-- Calls
-- ---------------------------------------------------------------------------

/-- How many statements the call appends. -/
def Leaf.count : Leaf → Nat
  | .resetFrame elements => elements.length
  | .frameRotation _ elements => elements.length
  | .frameRotation2pi _ elements => elements.length
  | .fastFrameRotation _ _ elements => elements.length
  | _ => 1

namespace Calls

/-- The calls succeed exactly under the condition, and then do something to the site. If they fail,
then not over the stack of scopes, and the session is poisoned with the message. -/
def Settles (calls : Calls α) (d : Draft) (P : Prop) (Q : α → Site → Site → Prop) : Prop :=
  (P ∧ ∃ a t, calls ⟨d, none⟩ = (.ok a, ⟨t, none⟩) ∧ Q a d.site t.site) ∨
    (¬P ∧ ∃ e d', calls ⟨d, none⟩ = (.error e, ⟨d', some e.message⟩) ∧ e ≠ .unexpectedStack)

theorem call_settles (h : Build.Settles step d P Q) : Settles (call step) d P Q := by
  obtain ⟨hp, a, t, hrun, hq⟩ | ⟨hp, e, hrun, he⟩ := h
  · exact .inl ⟨hp, a, t, call_ok hrun, hq⟩
  · exact .inr ⟨hp, e, d, by simp [call, Session.apply, hrun], he⟩

/-- Steps after the first do not matter if it fails. -/
theorem callEach_singleton_settles (h : Build.Settles step d P Q) :
    Settles (callEach [step]) d P Q := by
  obtain ⟨hp, a, t, hrun, hq⟩ | ⟨hp, e, hrun, he⟩ := h
  · exact .inl ⟨hp, a, t, callEach_cons [] hrun, hq⟩
  · exact .inr ⟨hp, e, d, by simp [callEach, Session.applyEach, Session.apply, hrun], he⟩

/-- A step that makes an action and appends it. -/
theorem action_settles {action : Build Action} (ha : Local action) (hq : Quiet action) (l : String)
    (h : d.site.Scoped) {V : Prop} (hv : V → Succeeds (do return [← action]) d) :
    ∃ operands : Prop, (V → operands) ∧
      Settles (callEach ([action >>= act].map (located l))) d
        (operands ∧ (0 < 1 → d.site.HasBlock)) (fun _ => Keeps) := by
  refine ⟨Succeeds action { d with location := l }, fun valid => ?_, ?_⟩
  · obtain ⟨as, t, hrun⟩ := hv valid
    obtain ⟨a, t, hrun, -⟩ := bind_eq_ok.mp hrun
    exact ⟨a, _, ha.moved hrun { d.site with location := l }⟩
  simp only [Nat.lt_add_one, forall_const]
  refine callEach_singleton_settles (located_settles l (.after ha hq fun a t ht => ?_)
    fun _ _ hk => hk.of_located)
  have hs := ha.site_eq ht
  have hw : t.site.Scoped := hs ▸ h.located l
  have hb : t.site.HasBlock ↔ d.site.HasBlock := by rw [hs]; rfl
  exact (append_settles hw (.action a)).congr hb

theorem actions_settle (actions : List Action) (l : String) (h : d.site.Scoped) :
    Settles (callEach ((actions.map act).map (located l))) d
      (0 < actions.length → d.site.HasBlock) (fun _ => Keeps) := by
  by_cases hb : d.site.HasBlock
  · obtain ⟨path, hp⟩ := Option.isSome_iff_exists.mp hb
    obtain ⟨C, block, rfl, hat, -⟩ := h.exists_at hp
    obtain ⟨m, hm⟩ := callEach_actions l actions d hat
    have hg : Grows d.site.body (C.plug (block ++ actions.map (.action · l))) :=
      hat.body ▸ .plug C (.append block _)
    exact .inl ⟨fun _ => hb, (), _, hm, Keeps.of_grows rfl rfl hg⟩
  · cases actions with
    | nil => exact .inl ⟨fun hn => (nomatch hn), (), d, rfl, Keeps.of_grows rfl rfl (.refl _)⟩
    | cons action actions =>
      obtain ⟨hp, -⟩ | ⟨-, e, hrun, he⟩ :=
        append_settles (d := { d with location := l }) (h.located l) (.action action)
      · exact absurd hp hb
      · have hrun : located l (act action) d = .error e := hrun
        refine .inr ⟨fun hn => hb (hn (Nat.succ_pos _)), e, d, ?_, he⟩
        simp [callEach, Session.applyEach, Session.apply, hrun]

/-- One action for each element. -/
theorem elements_settle (action : String → Action) (elements : List String) (l : String)
    (h : d.site.Scoped) (V : Prop) :
    ∃ operands : Prop, (V → operands) ∧
      Settles (callEach ((elements.map fun e => act (action e)).map (located l))) d
        (operands ∧ (0 < elements.length → d.site.HasBlock)) (fun _ => Keeps) := by
  refine ⟨True, fun _ => trivial, ?_⟩
  have he : (elements.map fun e => act (action e)) = (elements.map action).map act := by
    rw [List.map_map]
    rfl
  have hs := actions_settle (elements.map action) l h
  rwa [List.length_map, ← he, ← true_and (0 < elements.length → _)] at hs

end Calls

open Calls

theorem Leaf.steps_settle (leaf : Leaf) (l : String) (h : d.site.Scoped) :
    ∃ operands : Prop, (leaf.Valid d → operands) ∧
      Calls.Settles (callEach (leaf.steps.map (located l))) d
        (operands ∧ (0 < leaf.count → d.site.HasBlock)) (fun _ => Keeps) := by
  cases leaf with
  | play pulse element options =>
    have hs := action_settles (local_playAction pulse element options)
      (quiet_playAction pulse element options) l h
      fun hv : (Leaf.play pulse element options).Valid d => hv.actions_succeed
    rwa [← play_eq] at hs
  | measure pulse element options =>
    have hs := action_settles (local_measureAction pulse element options)
      (quiet_measureAction pulse element options) l h
      fun hv : (Leaf.measure pulse element options).Valid d => hv.actions_succeed
    rwa [← measure_eq] at hs
  | waitForTrigger elements pulse trigger target =>
    have hs := action_settles (local_triggerAction elements pulse trigger target)
      (quiet_triggerAction elements pulse trigger target) l h
      fun hv : (Leaf.waitForTrigger elements pulse trigger target).Valid d => hv.actions_succeed
    rwa [← waitForTrigger_eq] at hs
  | assign target value =>
    have hs := action_settles (local_assignAction target value) (quiet_assignAction target value) l h
      fun hv : (Leaf.assign target value).Valid d => hv.actions_succeed
    rwa [← assign_eq] at hs
  | save source stream =>
    have hs := action_settles (local_saveAction source stream) (quiet_saveAction source stream) l h
      fun hv : (Leaf.save source stream).Valid d => hv.actions_succeed
    rwa [← save_eq] at hs
  | plain action => exact elements_settle (fun _ => action) [""] l h _
  | resetFrame elements => exact elements_settle .resetFrame elements l h _
  | frameRotation angle elements => exact elements_settle (.zRotation (inTurns angle)) elements l h _
  | frameRotation2pi angle elements => exact elements_settle (.zRotation angle) elements l h _
  | fastFrameRotation cosine sine elements =>
    obtain ⟨_, marked, hmark⟩ : Succeeds (located l markFastFrameRotation) d := ⟨_, _, rfl⟩
    have hsite : marked.site = { d.site with location := l } := by
      obtain ⟨-, rfl⟩ := Prod.mk.inj (Except.ok.inj hmark)
      rfl
    obtain ⟨operands, hv, hs⟩ := elements_settle (.fastFrameRotation cosine sine) elements l
      (d := marked) (hsite ▸ h.located l) ((Leaf.fastFrameRotation cosine sine elements).Valid d)
    refine ⟨operands, hv, ?_⟩
    rw [Leaf.steps, List.map_cons, Calls.Settles, callEach_cons _ hmark]
    have hb : marked.site.HasBlock ↔ d.site.HasBlock := by rw [hsite]; rfl
    rw [Calls.Settles, hb, hsite] at hs
    obtain ⟨hp, a, t, hrun, hk⟩ | hn := hs
    · exact .inl ⟨hp, a, t, hrun, hk.of_located⟩
    · exact .inr hn

/-- What a call that gives an outcome has done with the scopes. -/
def Outcome.Moves : Outcome → Site → Site → Prop
  | .scope number => Opens number
  | _ => Keeps

/-- The innermost scope is one in which the call can be made. -/
def Call.Admitted (s : Site) : Call → Prop
  | .request _ => True
  | .leaf made => 0 < made.count → s.HasBlock
  | .loopCondition _ => s.IsLoop
  | .enter entry => entry.Admitted s

/-- The operands of a call are valid; a request has no use for the scopes. -/
def Call.Valid (d : Draft) : Call → Prop
  | .request asked => Succeeds asked.step d
  | .leaf made => made.Valid d
  | .loopCondition _ => True
  | .enter entry => entry.Valid

namespace Calls

/-- What is made of the result of calls. -/
theorem Settles.map {calls : Calls α} {f : α → β} {R : β → Site → Site → Prop}
    (h : Settles calls d P Q) (hf : ∀ a s t, Q a s t → R (f a) s t) :
    Settles (f <$> calls) d P R := by
  obtain ⟨hp, a, t, hrun, hq⟩ | ⟨hp, e, d', hrun, he⟩ := h
  · refine .inl ⟨hp, f a, t, ?_, hf a _ _ hq⟩
    simp only [Functor.map, ExceptT.map, ExceptT.mk, bind, StateT.bind, hrun]
    rfl
  · refine .inr ⟨hp, e, d', ?_, he⟩
    simp only [Functor.map, ExceptT.map, ExceptT.mk, bind, StateT.bind, hrun]
    rfl

end Calls

/-- A request opens no scope. -/
theorem Request.moves {asked : Request} (h : asked.step d = .ok (outcome, t)) {s u : Site}
    (hk : s.Keeps u) : outcome.Moves s u := by
  cases asked with
  | registerSave kind tag pipeline =>
    obtain ⟨_, _, -, hp⟩ := bind_eq_ok.mp h
    obtain ⟨rfl, -⟩ := pure_eq_ok.mp hp
    exact hk
  | _ =>
    obtain ⟨_, rfl, -⟩ := map_eq_ok.mp h
    exact hk

theorem Request.step_settles (asked : Request) (d : Draft) :
    Build.Settles asked.step d (Succeeds asked.step d) Outcome.Moves := by
  cases h : asked.step d with
  | error e =>
    refine .error (fun ⟨_, _, hs⟩ => ?_) h (asked.step_quiet h)
    rw [h] at hs
    nomatch hs
  | ok result =>
    obtain ⟨outcome, t⟩ := result
    refine .ok ⟨outcome, t, h⟩ h (asked.moves h ?_)
    rw [asked.step_local.site_eq h]
    exact Keeps.of_grows rfl rfl (.refl _)

theorem Outcome.Moves.of_located {outcome : Outcome} {s t : Site}
    (h : outcome.Moves { s with location := l } t) : outcome.Moves s t := by
  cases outcome with
  | scope number => exact Site.Opens.of_located h
  | _ => exact Site.Keeps.of_located h

theorem Call.perform_settles (call : Call) (l : String) (h : d.site.Scoped) :
    ∃ operands : Prop, (call.Valid d → operands) ∧
      Calls.Settles (call.perform l) d (operands ∧ call.Admitted d.site) Outcome.Moves := by
  cases call with
  | request asked =>
    refine ⟨Succeeds asked.step { d with location := l }, fun ⟨a, t, hrun⟩ => ?_, ?_⟩
    · exact ⟨a, _, asked.step_local.moved hrun { d.site with location := l }⟩
    · have hs := call_settles (located_settles l (asked.step_settles { d with location := l })
        fun _ _ hm => hm.of_located)
      rwa [← and_true (Succeeds _ _)] at hs
  | leaf made =>
    obtain ⟨operands, hv, hs⟩ := made.steps_settle l h
    exact ⟨operands, hv, hs.map fun _ _ _ hk => hk⟩
  | loopCondition condition =>
    refine ⟨True, fun _ => trivial, ?_⟩
    have hs := call_settles (located_settles l
      (setLoopCondition_settles (d := { d with location := l }) (h.located l) condition)
      fun _ _ hk => hk.of_located)
    rw [← true_and (Site.IsLoop _)] at hs
    exact hs.map fun _ _ _ hk => hk
  | enter entry =>
    obtain ⟨operands, hv, hs⟩ := entry.step_settles (d := { d with location := l }) (h.located l)
    refine ⟨operands, hv, ?_⟩
    have hs := call_settles (located_settles l hs fun _ _ ho => ho.of_located)
    exact hs.map fun _ _ _ ho => ho

end Qua
