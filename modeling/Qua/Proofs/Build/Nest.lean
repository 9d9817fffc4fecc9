import Qua.Proofs.Build.Surroundings

/-!
# Nested calls

Calls are nested as a script nests them: what is built in a scope stands between the call that opens the
scope and the one that closes it. Whatever the block is that the calls are made in, they append what they
build in a block of their own. Main statement: `built_inScope`.
-/

namespace Qua

/-- Registering a save builds no statement. -/
def Request.isSave : Request → Bool
  | .registerSave .. => true
  | _ => false

/-- Calls that build statements, with what they declare on the way. -/
inductive Nest
  | request (asked : Request) (h : asked.isSave = false) (location : String)
  | leaf (leaf : Leaf) (location : String)
  | loopCondition (condition : Expression) (location : String)
  /-- A scope with all that is built in it. -/
  | scope (entry : Entry) (body : List Nest) (location : String)

section

open Calls Build

mutual

/-- Makes the calls. -/
def Nest.perform : Nest → Calls Unit
  | .request asked _ location => do
    let _ ← call (located location asked.step)
    return ()
  | .leaf leaf location => callEach (leaf.steps.map (located location))
  | .loopCondition condition location => call (located location (setLoopCondition condition))
  | .scope entry body location => inScope (located location entry.step) (performNests body)

def performNests : List Nest → Calls Unit
  | [] => return ()
  | nest :: rest => do
    nest.perform
    performNests rest

end

end

/-- The draft with an empty program, of which a block is open. -/
def Draft.emptied (d : Draft) : Draft := d.moved ⟨[], [⟨1, .body []⟩, ⟨0, .program⟩], 2, d.location⟩

/-- The statements that calls build in a block of their own, with what is declared for them. -/
def built (body : List Nest) : Build (List Statement) := fun d =>
  match performNests body ⟨d.emptied, none⟩ with
  | (.ok (), session) => .ok (session.draft.program.body, session.draft.moved d.site)
  | (.error e, _) => .error e

-- ---------------------------------------------------------------------------
-- Calls
-- ---------------------------------------------------------------------------

namespace Calls

/-- Some call is answered by an error. -/
def Fails (calls : Calls α) (d : Draft) : Prop := ∃ e s, calls ⟨d, none⟩ = (.error e, s)

theorem Fails.call {step : Build α} (h : step d = .error e) : Fails (call step) d :=
  ⟨e, ⟨d, some e.message⟩, by simp [Calls.call, Session.apply, h]⟩

theorem Fails.bind {m : Calls α} (h : Fails m d) (f : α → Calls β) : Fails (m >>= f) d := by
  obtain ⟨e, s, hm⟩ := h
  refine ⟨e, s, ?_⟩
  simp only [Bind.bind, ExceptT.bind, ExceptT.mk, StateT.bind, hm]
  rfl

/-- The calls before those that fail have been made. -/
theorem Fails.after {m : Calls α} {f : α → Calls β} (hm : m ⟨d, none⟩ = (.ok a, ⟨t, none⟩))
    (h : Fails (f a) t) : Fails (m >>= f) d := by
  obtain ⟨e, s, hf⟩ := h
  exact ⟨e, s, by rw [bind_ok hm, hf]⟩

theorem callEach_cons_eq (step : Build Unit) (rest : List (Build Unit)) :
    callEach (step :: rest) = (do call step; callEach rest) := by
  funext s
  simp only [callEach, Session.applyEach, Bind.bind, ExceptT.bind, ExceptT.mk, StateT.bind]
  simp only [call]
  rcases s.apply step with ⟨_ | _, t⟩ <;> rfl

end Calls

open Calls Build

namespace Surroundings

/-- In the surroundings the calls do what they do in an empty program, or fail in both. -/
def Mirrors (F : Surroundings) (calls : Calls Unit) : Prop :=
  ∀ ⦃opened : List Nat⦄ ⦃x y : Draft⦄, F.Within opened x y →
    (∃ x' y', calls ⟨x, none⟩ = (.ok (), ⟨x', none⟩) ∧ calls ⟨y, none⟩ = (.ok (), ⟨y', none⟩) ∧
      F.Within opened x' y') ∨
    calls.Fails x ∧ calls.Fails y

variable {F : Surroundings}

theorem mirrors_pure : F.Mirrors (pure ()) := fun _ x y hw => .inl ⟨x, y, rfl, rfl, hw⟩

theorem Mirrors.bind {first rest : Calls Unit} (h : F.Mirrors first) (h' : F.Mirrors rest) :
    F.Mirrors (do first; rest) := by
  intro opened x y hw
  obtain ⟨x₁, y₁, hx, hy, hw⟩ | ⟨hx, hy⟩ := h hw
  · obtain ⟨x₂, y₂, hx', hy', hw⟩ | ⟨hx', hy'⟩ := h' hw
    · exact .inl ⟨x₂, y₂, by rw [bind_ok hx, hx'], by rw [bind_ok hy, hy'], hw⟩
    · exact .inr ⟨.after hx hx', .after hy hy'⟩
  · exact .inr ⟨hx.bind _, hy.bind _⟩

/-- A call gives related results, or fails in both. -/
theorem Follows.call {after : α → List Nat → List Nat} {S : α → β → Prop} {step : Build α}
    {step' : Build β} (h : F.Follows after S step step') (l : String) (hw : F.Within opened x y) :
    (∃ a x' b y', call (located l step) ⟨x, none⟩ = (.ok a, ⟨x', none⟩) ∧
      call (located l step') ⟨y, none⟩ = (.ok b, ⟨y', none⟩) ∧ S a b ∧ F.Within (after a opened) x' y') ∨
    (call (located l step)).Fails x ∧ (call (located l step')).Fails y := by
  obtain ⟨a, x', b, y', hx, hy, hs, hw', -⟩ | ⟨⟨e, hx⟩, e', hy⟩ := h (hw.located l) rfl
  · exact .inl ⟨a, x', b, y', call_ok hx, call_ok hy, hs, hw'⟩
  · exact .inr ⟨.call (e := e) hx, .call (e := e') hy⟩

theorem Keeps.mirrors {step : Build Unit} (h : F.Keeps Eq step step) (l : String) :
    F.Mirrors (call (located l step)) := by
  intro opened x y hw
  obtain ⟨_, x', _, y', hx, hy, -, hw'⟩ | hn := Follows.call h l hw
  · exact .inl ⟨x', y', hx, hy, hw'⟩
  · exact .inr hn

theorem mirrors_callEach (l : String) {steps : List (Build Unit)}
    (h : ∀ step ∈ steps, F.Keeps Eq step step) : F.Mirrors (callEach (steps.map (located l))) := by
  induction steps with
  | nil => exact mirrors_pure
  | cons step steps ih =>
    obtain ⟨hstep, hsteps⟩ := List.forall_mem_cons.mp h
    rw [List.map_cons, callEach_cons_eq]
    exact (Keeps.mirrors hstep l).bind (ih hsteps)

/-- The scope that is closed after the calls is the one that was opened before them. -/
theorem Mirrors.inScope {enter : Build Nat} {calls : Calls Unit} (h : F.Mirrors calls)
    (he : F.Enters enter enter) (l : String) : F.Mirrors (inScope (located l enter) calls) := by
  intro opened x y hw
  obtain ⟨a, x₁, _, y₁, hx, hy, rfl, hw⟩ | ⟨hx, hy⟩ := he.call l hw
  · obtain ⟨x₂, y₂, hx', hy', hw⟩ | ⟨hx', hy'⟩ := h hw
    · obtain ⟨x₃, y₃, hx'', hy'', hw⟩ := hw.closeScope
      refine .inl ⟨x₃, y₃, ?_, ?_, hw⟩
      · rw [Calls.inScope, bind_ok hx, bind_ok hx', call_ok hx'']
      · rw [Calls.inScope, bind_ok hy, bind_ok hy', call_ok hy'']
    · exact .inr ⟨.after hx (hx'.bind _), .after hy (hy'.bind _)⟩
  · exact .inr ⟨hx.bind _, hy.bind _⟩

end Surroundings

-- ---------------------------------------------------------------------------
-- Nested calls
-- ---------------------------------------------------------------------------

section

variable {F : Surroundings}

mutual

theorem Nest.mirrors : (nest : Nest) → F.Mirrors nest.perform
  | .request asked _ l => by
    intro opened x y hw
    rw [Nest.perform]
    obtain ⟨a, x', _, y', hx, hy, -, hw'⟩ | ⟨hx, hy⟩ := asked.follows.call l hw
    · exact .inl ⟨x', y', by rw [bind_ok hx, pure_ok], by rw [bind_ok hy, pure_ok], hw'⟩
    · exact .inr ⟨hx.bind _, hy.bind _⟩
  | .leaf leaf l => Surroundings.mirrors_callEach l leaf.follows
  | .loopCondition condition l => (Surroundings.follows_setLoopCondition condition).mirrors l
  | .scope entry body l => (performNests_mirrors body).inScope entry.follows l

theorem performNests_mirrors : (body : List Nest) → F.Mirrors (performNests body)
  | [] => Surroundings.mirrors_pure
  | nest :: rest => nest.mirrors.bind (performNests_mirrors rest)

end

/-- What the calls build in a block of their own is what they do in the surroundings. -/
theorem built_cases (body : List Nest) (h : F.Within [] d.emptied y) :
    (∃ x y', built body d = .ok (x.program.body, x.moved d.site) ∧
      performNests body ⟨y, none⟩ = (.ok (), ⟨y', none⟩) ∧ F.Within [] x y') ∨
    (∃ e, built body d = .error e) ∧ (performNests body).Fails y := by
  obtain ⟨x, y', hx, hy, hw⟩ | ⟨⟨e, s, hx⟩, hy⟩ := performNests_mirrors body h
  · exact .inl ⟨x, y', by rw [built, hx], hy, hw⟩
  · exact .inr ⟨⟨e, by rw [built, hx]⟩, hy⟩

end

/-- What is built in a block of its own depends on the inventory only. -/
theorem steady_built (body : List Nest) : Steady (built body) := by
  intro d e hde b d' hb
  let F : Surroundings := ⟨[], 1, [⟨0, .program⟩]⟩
  have hwithin : F.Within [] d.emptied e.emptied :=
    ⟨hde, rfl, ⟨[⟨1, .body []⟩], rfl, by simp [Scope.isProgram], rfl, rfl⟩, Nat.two_pos, rfl⟩
  obtain ⟨x, y, hx, hy, hw⟩ | ⟨⟨e', hx⟩, -⟩ := built_cases body hwithin
  · rw [hx] at hb
    obtain ⟨rfl, rfl⟩ := Prod.mk.inj (Except.ok.inj hb)
    refine ⟨y.moved e.site, ?_, hw.inventory⟩
    rw [built, hy]
    exact congrArg (fun body => Except.ok (body, y.moved e.site)) hw.body
  · rw [hx] at hb
    nomatch hb

/-- What is built in a block is what the calls in it build in a block of their own, whatever is around
the block. -/
theorem built_inScope (body : List Nest) {enter : Build Nat} {C : Context} {outer : List Frame}
    (he : enter e = .ok (n, e₁)) (hbody : e₁.program.body = C.plug [])
    (hscopes : e₁.scopes = ⟨n, .body C.path⟩ :: outer) (hnext : e₁.nextScope = n + 1)
    (hi : d.inventory = e₁.inventory) :
    (∃ b t e', built body d = .ok (b, t) ∧
      inScope enter (performNests body) ⟨e, none⟩ = (.ok (), ⟨e', none⟩) ∧
      e'.program.body = C.plug b ∧ e'.scopes = outer ∧ t.inventory = e'.inventory) ∨
    (∃ error, built body d = .error error) ∧ (inScope enter (performNests body)).Fails e := by
  let F : Surroundings := ⟨C, n, outer⟩
  have hwithin : F.Within [] d.emptied e₁ := by
    refine ⟨hi, hbody, ⟨[⟨1, .body []⟩], rfl, by simp [Scope.isProgram], rfl, ?_⟩, Nat.two_pos, hnext⟩
    simp [hscopes, F, Surroundings.frame, Surroundings.renumber, Scope.under]
  obtain ⟨x, y, hx, hy, hw⟩ | ⟨hx, hy⟩ := built_cases body hwithin
  · obtain ⟨frames, hids, hprogram, -, hys⟩ := hw.scopes
    obtain ⟨frame, rfl, hid⟩ := List.map_eq_singleton_iff.mp hids
    have hframe := hprogram frame List.mem_cons_self
    have hscopes : y.site.scopes = ⟨n, frame.scope.under C.path⟩ :: outer := by
      simp [Draft.site, hys, F, Surroundings.frame, Surroundings.renumber, hid]
    have hclose := closeScope_run y hscopes ((frame.scope.isProgram_under C.path).trans hframe)
    refine .inl ⟨_, _, y.moved { y.site with scopes := outer }, hx, ?_, hw.body, rfl, hw.inventory⟩
    rw [Calls.inScope, bind_ok (call_ok he), bind_ok hy]
    exact call_ok hclose
  · exact .inr ⟨hx, .after (call_ok he) (hy.bind _)⟩

-- ---------------------------------------------------------------------------
-- What is gathered
-- ---------------------------------------------------------------------------

section

variable {R : Draft → Draft → Prop}

mutual

theorem Nest.along (h : Course R) (ht : ∀ role tag, Along R (useTag role tag))
    (hs : ∀ isAdcTrace, Along R (declareStream isAdcTrace)) :
    (nest : Nest) → Calls.Along R nest.perform
  | .request asked hasked l => by
    have hstep : Along R asked.step := by
      cases asked with
      | declareStream isAdcTrace => exact h.along_map _ (hs isAdcTrace)
      | registerSave => nomatch hasked
      | _ => exact Request.along h rfl
    exact h.calls_bind (h.calls_call (h.along_located l hstep)) fun _ => h.calls_pure _
  | .leaf leaf l => h.calls_callEach <| List.forall_mem_map.mpr fun step hstep =>
    h.along_located l (leaf.along h (fun use _ => ht use.1 use.2) step hstep)
  | .loopCondition condition l => h.calls_call (h.along_located l (h.along_setLoopCondition condition))
  | .scope entry body l =>
    h.calls_bind (h.calls_call (h.along_located l (entry.along h))) fun number =>
      h.calls_bind (performNests_along h ht hs body) fun _ => h.calls_call (h.along_closeScope number)

theorem performNests_along (h : Course R) (ht : ∀ role tag, Along R (useTag role tag))
    (hs : ∀ isAdcTrace, Along R (declareStream isAdcTrace)) :
    (body : List Nest) → Calls.Along R (performNests body)
  | [] => h.calls_pure ()
  | nest :: rest => h.calls_bind (nest.along h ht hs) fun _ => performNests_along h ht hs rest

end

theorem along_built (h : Course R) (ht : ∀ role tag, Along R (useTag role tag))
    (hs : ∀ isAdcTrace, Along R (declareStream isAdcTrace)) (body : List Nest) :
    Along R (built body) := by
  intro d b t hb
  have hd : R d d.emptied := h.of_eq rfl
  have hcalls := performNests_along h ht hs body ⟨d.emptied, none⟩
  unfold built at hb
  split at hb
  · next session hrun =>
    obtain ⟨-, rfl⟩ := Prod.mk.inj (Except.ok.inj hb)
    rw [hrun] at hcalls
    exact h.trans hd (h.trans hcalls (h.of_eq rfl))
  · nomatch hb

end

-- ---------------------------------------------------------------------------
-- Other locations
-- ---------------------------------------------------------------------------

mutual

/-- The same calls, made from other locations. -/
inductive Nest.Relocated : Nest → Nest → Prop
  | request : Nest.Relocated (.request asked h l) (.request asked h l')
  | leaf : Nest.Relocated (.leaf made l) (.leaf made l')
  | loopCondition : Nest.Relocated (.loopCondition condition l) (.loopCondition condition l')
  | scope (h : NestsRelocated body body') :
      Nest.Relocated (.scope entry body l) (.scope entry body' l')

inductive NestsRelocated : List Nest → List Nest → Prop
  | nil : NestsRelocated [] []
  | cons (h : Nest.Relocated nest nest') (hs : NestsRelocated rest rest') :
      NestsRelocated (nest :: rest) (nest' :: rest')

end

mutual

theorem Nest.Relocated.refl : (nest : Nest) → Nest.Relocated nest nest
  | .request .. => .request
  | .leaf .. => .leaf
  | .loopCondition .. => .loopCondition
  | .scope _ body _ => .scope (NestsRelocated.refl body)

theorem NestsRelocated.refl : (body : List Nest) → NestsRelocated body body
  | [] => .nil
  | nest :: rest => .cons (Nest.Relocated.refl nest) (NestsRelocated.refl rest)

end

/-- On drafts that differ in locations only, the second calls do what the first ones do, up to these. -/
def Calls.Alike (calls calls' : Calls α) : Prop :=
  ∀ ⦃d e : Draft⦄, d.unlocated = e.unlocated → ∀ ⦃a : α⦄ ⦃s : Session⦄, calls ⟨d, none⟩ = (.ok a, s) →
    ∃ t u, s = ⟨t, none⟩ ∧ calls' ⟨e, none⟩ = (.ok a, ⟨u, none⟩) ∧ t.unlocated = u.unlocated

namespace Calls

theorem alike_pure (a : α) : Alike (pure a) (pure a) := by
  rintro d e hde _ _ ⟨⟩
  exact ⟨d, e, rfl, rfl, hde⟩

theorem Alike.bind {m m' : Calls α} {f f' : α → Calls β} (h : Alike m m')
    (hf : ∀ a, Alike (f a) (f' a)) : Alike (m >>= f) (m' >>= f') := by
  intro d e hde b s hb
  obtain ⟨a, _, hm, hb⟩ := bind_eq_ok hb
  obtain ⟨t, u, rfl, hm', htu⟩ := h hde hm
  obtain ⟨v, w, hs, hb', hvw⟩ := hf a htu hb
  exact ⟨v, w, hs, by rw [bind_ok hm', hb'], hvw⟩

theorem alike_call {step step' : Build α} (h : Qua.Alike Draft.unlocated step step') :
    Alike (call step) (call step') := by
  intro d e hde a s ha
  obtain ⟨t, hd, rfl⟩ := call_eq_ok ha
  obtain ⟨u, hu, htu⟩ := h hde hd
  exact ⟨t, u, rfl, call_ok hu, htu⟩

theorem alike_located {step : Build α} (h : Blind step) (l l' : String) :
    Alike (call (located l step)) (call (located l' step)) := by
  refine alike_call fun d e hde a t ha => ?_
  have hlocated : Draft.unlocated { d with location := l } = Draft.unlocated { e with location := l' } :=
    congrArg (fun x : Draft => { x with location := "" }) hde
  exact h hlocated ha

theorem alike_callEach {steps : List (Build Unit)} (h : ∀ step ∈ steps, Blind step) (l l' : String) :
    Alike (callEach (steps.map (located l))) (callEach (steps.map (located l'))) := by
  induction steps with
  | nil => exact alike_pure ()
  | cons step steps ih =>
    obtain ⟨hstep, hsteps⟩ := List.forall_mem_cons.mp h
    rw [List.map_cons, List.map_cons, callEach_cons_eq, callEach_cons_eq]
    exact (alike_located hstep l l').bind fun _ => ih hsteps

end Calls

mutual

theorem Nest.Relocated.perform {nest nest' : Nest} (h : Nest.Relocated nest nest') :
    Calls.Alike nest.perform nest'.perform := by
  cases h with
  | request =>
    exact (alike_located (Request.step_local _).blind _ _).bind fun _ => alike_pure ()
  | leaf => exact alike_callEach (Leaf.blind _) _ _
  | loopCondition => exact alike_located (blind_setLoopCondition _) _ _
  | scope hbody =>
    exact (alike_located (Entry.blind _) _ _).bind fun number =>
      hbody.perform.bind fun _ => alike_call (blind_closeScope number)

theorem NestsRelocated.perform {body body' : List Nest} (h : NestsRelocated body body') :
    Calls.Alike (performNests body) (performNests body') := by
  cases h with
  | nil => exact alike_pure ()
  | cons hnest hrest => exact hnest.perform.bind fun _ => hrest.perform

end

end Qua
