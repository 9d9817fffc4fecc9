import Qua.Proofs.Build.Validity

/-!
# Plans are built as they are written

The calls of a plan find their blocks by paths, which are looked up again for every statement while
the blocks around grow. They append the statements of the plan to the block that is innermost, and
change nothing around it. Main statement: `performAll_builds_statements`.
-/

namespace Qua

namespace Calls

/-- After a call that succeeds. -/
theorem bind_ok {m : Calls α} {f : α → Calls β} {s s' : Session} (h : m s = (.ok a, s')) :
    (m >>= f) s = f a s' := by
  simp only [bind, ExceptT.bind, ExceptT.mk, StateT.bind, h]
  rfl

theorem call_ok {step : Build α} (h : step d = .ok (a, d')) :
    call step ⟨d, none⟩ = (.ok a, ⟨d', none⟩) := by
  simp [call, Session.apply, h]

@[simp] theorem pure_ok (a : α) (s : Session) : (pure a : Calls α) s = (.ok a, s) := rfl

theorem callEach_nil (s : Session) : callEach [] s = (.ok (), s) := rfl

theorem callEach_cons {step : Build Unit} (rest : List (Build Unit)) (h : step d = .ok ((), d')) :
    callEach (step :: rest) ⟨d, none⟩ = callEach rest ⟨d', none⟩ := by
  simp [callEach, Session.applyEach, Session.apply, h]

end Calls

open Calls Build

-- ---------------------------------------------------------------------------
-- Leaves
-- ---------------------------------------------------------------------------

/-- The calls append the statements to the block that is innermost, wherever that is. -/
def Appends (calls : Calls Unit) (statements : Build (List Statement)) : Prop :=
  ∀ ⦃d t : Draft⦄ ⦃s : Site⦄ ⦃C : Context⦄ ⦃block ss : List Statement⦄,
    s.At C block → statements d = .ok (ss, t) →
    ∃ n l, calls ⟨d.moved s, none⟩ =
      (.ok (), ⟨t.moved ⟨C.plug (block ++ ss), s.scopes, n, l⟩, none⟩)

namespace Build

theorem located_run (l : String) (step : Build α) (d : Draft) (s : Site) :
    located l step (d.moved s) = step (d.moved { s with location := l }) := rfl

theorem act_run (action : Action) (d : Draft) {s : Site} (h : s.At C block) :
    act action (d.moved s) =
      .ok ((), d.moved { s with body := C.plug (block ++ [.action action s.location]) }) :=
  append_run (.action action) d h

theorem local_playAction (pulse : Pulse) (element : String) (options : PlayOptions) :
    Local (playAction pulse element options) :=
  .bind (.mapM_option (fun c => local_chirp c _) _) fun _ =>
    .bind (local_timestampStream _) fun _ => .pure _

theorem local_measureAction (pulse element : String) (options : MeasureOptions) :
    Local (measureAction pulse element options) :=
  .bind (local_measureStream _) fun _ => .bind (local_timestampStream _) fun _ => .pure _

theorem local_triggerAction (elements : List String) (pulse : Option String)
    (trigger : Option TriggerElement) (target : Option Expression) :
    Local (triggerAction elements pulse trigger target) := by
  refine .bind (.mapM_option (fun target => ?_) _) fun _ => .pure _
  unfold triggerTarget
  cases target.variableName? with
  | none => exact .throw _
  | some name => exact .pure name

theorem local_assignAction (target value : Expression) : Local (assignAction target value) :=
  .bind (local_assignTarget target) fun _ => .pure _

theorem local_saveAction (source : Expression) (stream : StreamTarget) :
    Local (saveAction source stream) := by
  have hs : Local (saveStream stream) := by
    cases stream with
    | tag tag => exact local_taggedStream tag true
    | source source => exact .pure source
  refine hs.bind fun stream => ?_
  cases hi : stream.isAdcTrace with
  | true => exact .bind (.throw _) fun _ => .bind (local_saveSource source) fun _ => .pure _
  | false => exact (local_saveSource source).bind fun _ => .pure _

theorem local_iterators (targets : List Expression) (values : List ForEachValues) :
    Local (iterators targets values) := by
  refine .bind (local_forEachVariables targets 0) fun names => ?_
  cases values.isEmpty with
  | true => exact fun _ _ => rfl
  | false =>
    refine .bind (.mapM local_forEachArray values) fun arrays => ?_
    split
    · exact .bind (.throw _) fun _ => .pure _
    · exact .pure _

end Build

/-- One action after another. -/
theorem callEach_actions (l : String) (actions : List Action) (d : Draft) {s : Site}
    (h : s.At C block) :
    ∃ m, callEach ((actions.map act).map (located l)) ⟨d.moved s, none⟩ =
      (.ok (), ⟨d.moved ⟨C.plug (block ++ actions.map (.action · l)), s.scopes, s.nextScope, m⟩,
        none⟩) := by
  induction actions generalizing s block with
  | nil => exact ⟨s.location, by simp [callEach_nil, ← h.body]⟩
  | cons action actions ih =>
    have hrun : located l (act action) (d.moved s) =
        .ok ((), d.moved ⟨C.plug (block ++ [.action action l]), s.scopes, s.nextScope, l⟩) := by
      rw [located_run]
      exact act_run action d ⟨h.path, h.body⟩
    obtain ⟨m, hm⟩ := ih (s := ⟨C.plug (block ++ [.action action l]), s.scopes, s.nextScope, l⟩)
      ⟨h.path, rfl⟩
    refine ⟨m, ?_⟩
    rw [List.map_cons, List.map_cons, callEach_cons _ hrun, hm]
    simp

/-- A step that makes an action and appends it. -/
theorem appends_action {action : Build Action} (ha : Local action) (l : String) :
    Appends (callEach ([action >>= act].map (located l)))
      (do return [← action].map fun a => .action a l) := by
  intro d t s C block ss h hs
  obtain ⟨a, d', hd, hs⟩ := bind_eq_ok.mp hs
  obtain ⟨rfl, rfl⟩ := pure_eq_ok.mp hs
  have hrun : located l (action >>= act) (d.moved s) =
      .ok ((), t.moved ⟨C.plug (block ++ [.action a l]), s.scopes, s.nextScope, l⟩) := by
    rw [located_run, bind_run, ha.moved hd]
    exact act_run a t ⟨h.path, h.body⟩
  refine ⟨s.nextScope, l, ?_⟩
  rw [List.map_singleton, callEach_cons _ hrun]
  rfl

theorem appends_actions (actions : List Action) (l : String) :
    Appends (callEach ((actions.map act).map (located l)))
      (do return actions.map fun a => .action a l) := by
  intro d t s C block ss h hs
  obtain ⟨rfl, rfl⟩ := pure_eq_ok.mp hs
  exact ⟨_, callEach_actions l actions _ h⟩

theorem appends_leaf (leaf : Leaf) (l : String) :
    Appends (callEach (leaf.steps.map (located l)))
      (do return (← leaf.actions).map fun a => .action a l) := by
  cases leaf with
  | play pulse element options =>
    simpa [Leaf.steps, Leaf.actions, play_eq] using
      appends_action (local_playAction pulse element options) l
  | measure pulse element options =>
    simpa [Leaf.steps, Leaf.actions, measure_eq] using
      appends_action (local_measureAction pulse element options) l
  | waitForTrigger elements pulse trigger target =>
    simpa [Leaf.steps, Leaf.actions, waitForTrigger_eq] using
      appends_action (local_triggerAction elements pulse trigger target) l
  | assign target value =>
    simpa [Leaf.steps, Leaf.actions, assign_eq] using
      appends_action (local_assignAction target value) l
  | save source stream =>
    simpa [Leaf.steps, Leaf.actions, save_eq] using
      appends_action (local_saveAction source stream) l
  | resetFrame elements =>
    have hs : (Leaf.resetFrame elements).steps = (elements.map .resetFrame).map act := by
      rw [List.map_map]
      rfl
    exact hs ▸ appends_actions _ l
  | frameRotation angle elements =>
    have hs : (Leaf.frameRotation angle elements).steps =
        (elements.map (.zRotation (inTurns angle))).map act := by
      rw [List.map_map]
      rfl
    exact hs ▸ appends_actions _ l
  | frameRotation2pi angle elements =>
    have hs : (Leaf.frameRotation2pi angle elements).steps =
        (elements.map (.zRotation angle)).map act := by
      rw [List.map_map]
      rfl
    exact hs ▸ appends_actions _ l
  | plain action => exact appends_actions [action] l
  | fastFrameRotation cosine sine elements =>
    intro d t s C block ss h hs
    obtain ⟨as, d', hd, hs⟩ := bind_eq_ok.mp hs
    obtain ⟨_, marked, hmark, hd⟩ := bind_eq_ok.mp hd
    obtain ⟨rfl, rfl⟩ := pure_eq_ok.mp hd
    obtain ⟨rfl, rfl⟩ := pure_eq_ok.mp hs
    have hrun : located l markFastFrameRotation (d.moved s) =
        .ok ((), t.moved { s with location := l }) := by
      rw [located_run]
      exact (local_modifyMetadata _).moved hmark _
    obtain ⟨m, hm⟩ := callEach_actions l (elements.map (.fastFrameRotation cosine sine)) t
      (s := { s with location := l }) ⟨h.path, h.body⟩
    have hs : elements.map (fastFrameRotation cosine sine) =
        (elements.map (.fastFrameRotation cosine sine)).map act := by
      rw [List.map_map]
      rfl
    refine ⟨s.nextScope, m, ?_⟩
    rw [Leaf.steps, List.map_cons, callEach_cons _ hrun, hs]
    exact hm

-- ---------------------------------------------------------------------------
-- Scopes
-- ---------------------------------------------------------------------------

/-- What is built in a block ends up at its end. -/
theorem Appends.inScope {calls : Calls Unit} {statements : Build (List Statement)}
    (h : Appends calls statements) {enter : Build Nat} {d d' : Draft} {s : Site}
    {scopes : List Frame}
    (he : enter (d.moved s) =
      .ok (k, d'.moved ⟨Context.plug C block, ⟨k, .body C.path⟩ :: scopes, n, l⟩))
    (hs : statements d' = .ok (ss, t)) :
    ∃ n l, inScope enter calls ⟨d.moved s, none⟩ =
      (.ok (), ⟨t.moved ⟨C.plug (block ++ ss), scopes, n, l⟩, none⟩) := by
  obtain ⟨n', l', hc⟩ := h
    (s := ⟨C.plug block, ⟨k, .body C.path⟩ :: scopes, n, l⟩) ⟨rfl, rfl⟩ hs
  refine ⟨n', l', ?_⟩
  rw [Calls.inScope, bind_ok (call_ok he), bind_ok hc]
  exact call_ok (closeScope_run t rfl rfl)

/-- The scope of an opening is the block of its statement. -/
theorem enter_run {opening : Opening} {s : Site} (h : s.At C block)
    (hd : opening.hole s.location d = .ok (hole, t)) :
    opening.enter (d.moved s) =
      .ok (s.nextScope, t.moved (Site.opened { s with body := (C.enter block hole).plug [] }
        (.body (C.enter block hole).path))) := by
  cases opening with
  | whileLoop condition =>
    rw [Opening.hole, pure_eq_ok] at hd
    obtain ⟨rfl, rfl⟩ := hd
    exact openBlock_run (.loop [] (some condition) [] []) t h
      (.loop [] (some condition) [] s.location) rfl
  | infiniteLoop =>
    rw [Opening.hole, pure_eq_ok] at hd
    obtain ⟨rfl, rfl⟩ := hd
    exact openBlock_run (.loop [] (some (.bool true)) [] []) t h
      (.loop [] (some (.bool true)) [] s.location) rfl
  | strictTiming =>
    rw [Opening.hole, pure_eq_ok] at hd
    obtain ⟨rfl, rfl⟩ := hd
    exact openBlock_run (.strictTiming []) t h (.strictTiming s.location) rfl
  | counted target init condition update =>
    rw [Opening.hole, bind_eq_ok] at hd
    obtain ⟨target', d', ht, hd⟩ := hd
    rw [pure_eq_ok] at hd
    obtain ⟨rfl, rfl⟩ := hd
    rw [Opening.enter, openFor, bind_run, (local_assignTarget target).moved ht]
    exact openBlock_run
      (fun l => .loop [.action (.assign target' init) l] (some condition)
        [.action (.assign target' update) l] [] l) t h
      (.loop [.action (.assign target' init) s.location] (some condition)
        [.action (.assign target' update) s.location] s.location) rfl
  | forEach targets values =>
    rw [Opening.hole, bind_eq_ok] at hd
    obtain ⟨iterators, d', hi, hd⟩ := hd
    rw [pure_eq_ok] at hd
    obtain ⟨rfl, rfl⟩ := hd
    rw [Opening.enter, openForEach_eq, bind_run, (local_iterators targets values).moved hi]
    exact openBlock_run (.forEach iterators []) t h (.forEach iterators s.location) rfl

section

variable {s : Site} (block : List Statement) (c : Expression) (u : Bool) (body : List Statement)
  (elifs : List (Branch Statement)) (l : String)

theorem lastConditional_last (missing : BuildError) (otherwise : Option (List Statement)) :
    Edit.lastConditional missing (block ++ [.conditional c u body elifs otherwise l]) =
      .ok (block.length, block ++ [.conditional c u body elifs otherwise l]) := by
  simp [Edit.lastConditional]

theorem openElif_run (d : Draft) (condition : Expression)
    (h : s.At C (block ++ [.conditional c u body elifs none l])) :
    openElif condition (d.moved s) =
      .ok (s.nextScope, d.moved (Site.opened
        { s with body := (C.enter block (.branch c u body elifs condition l [] none l)).plug [] }
        (.body (C.enter block (.branch c u body elifs condition l [] none l)).path))) := by
  have hp : bodyPath (d.moved s) = .ok (C.path, d.moved s) := bodyPath_run h.path
  simp only [openElif, bind_run, hp]
  rw [edit_plug _ d h.body, lastConditional_last]
  simp only []
  rw [edit_plug _ d (s := { s with body := _ }) rfl, Edit.atIndex_last]
  simp only [Edit.refuseOtherwise, Edit.within, Option.isSome_none, Bool.false_eq_true, if_false]
  rw [edit_plug _ d (s := { s with body := _ }) rfl, Edit.atIndex_last]
  simp only [Edit.addElif, Edit.within, openScope_run, Context.plug_enter, Context.path_enter,
    Hole.fill, Hole.selector]

theorem openElse_run (d : Draft)
    (h : s.At C (block ++ [.conditional c u body elifs none l])) :
    openElse (d.moved s) =
      .ok (s.nextScope, d.moved (Site.opened
        { s with body := (C.enter block (.alternative c u body elifs l)).plug [] }
        (.body (C.enter block (.alternative c u body elifs l)).path))) := by
  have hp : bodyPath (d.moved s) = .ok (C.path, d.moved s) := bodyPath_run h.path
  simp only [openElse, bind_run, hp]
  rw [edit_plug _ d h.body, lastConditional_last]
  simp only []
  rw [edit_plug _ d (s := { s with body := _ }) rfl, Edit.atIndex_last]
  simp only [Edit.addOtherwise, Edit.within, openScope_run, Context.plug_enter, Context.path_enter,
    Hole.fill, Hole.selector]

end

/-- The innermost scope is a loop at the end of the block in the hole. -/
structure Site.AtLoop (context : Context) (block : List Statement) (parts : LoopParts) (l : String)
    (s : Site) : Prop where
  scope : s.scopes.head?.map Frame.scope = some (.loop context.path block.length)
  body : s.body = context.plug (block ++ [parts.statement l])

theorem openLoop_run (d : Draft) {s : Site} (h : s.At C block) :
    openLoop (d.moved s) = .ok (s.nextScope, d.moved (Site.opened
      { s with body := C.plug (block ++ [LoopParts.statement {} s.location]) }
      (.loop C.path block.length))) := by
  have hp : bodyPath (d.moved s) = .ok (C.path, d.moved s) := bodyPath_run h.path
  simp only [openLoop, bind_run, hp, get_run, Draft.location_moved]
  rw [edit_plug _ d h.body]
  rfl

theorem innermostLoop_run (d : Draft) {s : Site} (h : s.AtLoop C block parts l) :
    innermostLoop (d.moved s) = .ok ((C.path, block.length), d.moved s) := by
  simp only [innermostLoop, bind_run, innermost_run, Draft.scopes_moved, h.scope]
  rfl

theorem LoopParts.fill_hole (parts : LoopParts) (l : String) (which : LoopBlock)
    (ss : List Statement) :
    (parts.hole l which).fill (parts.block which ++ ss) = (parts.extend ss which).statement l := by
  cases which <;> rfl

theorem LoopParts.fill_hole_block (parts : LoopParts) (l : String) (which : LoopBlock) :
    (parts.hole l which).fill (parts.block which) = parts.statement l := by
  cases which <;> rfl

theorem LoopParts.selector_hole (parts : LoopParts) (l : String) (which : LoopBlock) :
    (parts.hole l which).selector = which.selector := by
  cases which <;> rfl

theorem openLoopPart_run (d : Draft) {s : Site} (h : s.AtLoop C block parts l)
    (which : LoopBlock) :
    openLoopPart which.selector (d.moved s) = .ok (s.nextScope, d.moved (Site.opened
      { s with body := (C.enter block (parts.hole l which)).plug (parts.block which) }
      (.body (C.enter block (parts.hole l which)).path))) := by
  rw [Context.plug_enter, parts.fill_hole_block, ← h.body, Context.path_enter,
    parts.selector_hole]
  simp only [openLoopPart, bind_run, innermostLoop_run d h]
  rfl

theorem setLoopCondition_run (d : Draft) {s : Site} (h : s.AtLoop C block parts l)
    (condition : Expression) :
    setLoopCondition condition (d.moved s) =
      let parts := { parts with condition := some condition }
      .ok ((), d.moved { s with body := C.plug (block ++ [parts.statement l]) }) := by
  simp only [setLoopCondition, bind_run, innermostLoop_run d h]
  rw [edit_plug _ d h.body, Edit.atIndex_last]
  rfl

-- ---------------------------------------------------------------------------
-- Plans
-- ---------------------------------------------------------------------------

/-- The calls give the conditional that stands last in the innermost block its branches. -/
def Completes (calls : Calls Unit) (l : String)
    (branches : Build (List (Branch Statement) × Option (List Statement))) : Prop :=
  ∀ ⦃d t : Draft⦄ ⦃s : Site⦄ ⦃C : Context⦄ ⦃block : List Statement⦄ ⦃c : Expression⦄ ⦃u : Bool⦄
    ⦃body : List Statement⦄ ⦃elifs es : List (Branch Statement)⦄ ⦃o : Option (List Statement)⦄,
    s.At C (block ++ [.conditional c u body elifs none l]) → branches d = .ok ((es, o), t) →
    ∃ n m, calls ⟨d.moved s, none⟩ =
      (.ok (), ⟨t.moved ⟨C.plug (block ++ [.conditional c u body (elifs ++ es) o l]), s.scopes,
        n, m⟩, none⟩)

/-- The calls add to the loop that is the innermost scope. -/
def AddsParts (calls : Calls Unit) (parts : LoopParts → Build LoopParts) : Prop :=
  ∀ ⦃d t : Draft⦄ ⦃s : Site⦄ ⦃C : Context⦄ ⦃block : List Statement⦄ ⦃before after : LoopParts⦄
    ⦃l : String⦄, s.AtLoop C block before l → parts before d = .ok (after, t) →
    ∃ n m, calls ⟨d.moved s, none⟩ =
      (.ok (), ⟨t.moved ⟨C.plug (block ++ [after.statement l]), s.scopes, n, m⟩, none⟩)

mutual

theorem Plan.perform_appends : (plan : Plan) → Appends plan.perform plan.statements
  | .leaf leaf l => appends_leaf leaf l
  | .conditional c u body rest l => by
    intro d t s C block ss h hs
    rw [Plan.statements, bind_eq_ok] at hs
    obtain ⟨inner, d₁, hb, hs⟩ := hs
    rw [bind_eq_ok] at hs
    obtain ⟨⟨es, o⟩, d₂, hr, hs⟩ := hs
    rw [pure_eq_ok] at hs
    obtain ⟨rfl, rfl⟩ := hs
    have he : located l (openIf c u) (d.moved s) = _ :=
      openBlock_run (.conditional c u [] [] none) d
        (s := { s with location := l }) ⟨h.path, h.body⟩ (.conditional c u [] none l) rfl
    obtain ⟨n, m, hp⟩ := (performAll_appends body).inScope he hb
    rw [List.nil_append, Context.plug_enter] at hp
    obtain ⟨n', m', hq⟩ := rest.perform_completes l
      (s := ⟨C.plug (block ++ [.conditional c u inner [] none l]), s.scopes, n, m⟩) ⟨h.path, rfl⟩ hr
    refine ⟨n', m', ?_⟩
    rw [Plan.perform]
    exact (bind_ok hp).trans hq
  | .block opening body l => by
    intro d t s C block ss h hs
    rw [Plan.statements, bind_eq_ok] at hs
    obtain ⟨hole, d₁, ho, hs⟩ := hs
    rw [bind_eq_ok] at hs
    obtain ⟨inner, d₂, hb, hs⟩ := hs
    rw [pure_eq_ok] at hs
    obtain ⟨rfl, rfl⟩ := hs
    have he : located l opening.enter (d.moved s) = _ :=
      enter_run (s := { s with location := l }) ⟨h.path, h.body⟩ ho
    obtain ⟨n, m, hp⟩ := (performAll_appends body).inScope he hb
    rw [List.nil_append, Context.plug_enter] at hp
    exact ⟨n, m, hp⟩
  | .loop parts l => by
    intro d t s C block ss h hs
    rw [Plan.statements, bind_eq_ok] at hs
    obtain ⟨made, d₁, hm, hs⟩ := hs
    rw [pure_eq_ok] at hs
    obtain ⟨rfl, rfl⟩ := hs
    let inside := Site.opened
      { s with body := C.plug (block ++ [LoopParts.statement {} l]), location := l }
      (.loop C.path block.length)
    have he : located l openLoop (d.moved s) = .ok (s.nextScope, d.moved inside) :=
      openLoop_run d (s := { s with location := l }) ⟨h.path, h.body⟩
    obtain ⟨n, m, hp⟩ := performParts_adds parts (s := inside) ⟨rfl, rfl⟩ hm
    refine ⟨n, m, ?_⟩
    rw [Plan.perform, Calls.inScope, bind_ok (call_ok he), bind_ok hp]
    exact call_ok (closeScope_run t rfl rfl)

theorem Alternatives.perform_completes :
    (rest : Alternatives) → (l : String) → Completes rest.perform l (rest.branches l)
  | .done, l => by
    intro d t s C block c u body elifs es o h hs
    rw [Alternatives.branches, pure_eq_ok] at hs
    obtain ⟨⟨⟩, rfl⟩ := hs
    refine ⟨s.nextScope, s.location, ?_⟩
    rw [Alternatives.perform, pure_ok, List.append_nil, ← h.body]
  | .otherwise body, l => by
    intro d t s C block c u first elifs es o h hs
    rw [Alternatives.branches, bind_eq_ok] at hs
    obtain ⟨inner, d₁, hb, hs⟩ := hs
    rw [pure_eq_ok] at hs
    obtain ⟨⟨⟩, rfl⟩ := hs
    have he := openElse_run block c u first elifs l d h
    obtain ⟨n, m, hp⟩ := (performAll_appends body).inScope he hb
    rw [List.nil_append, Context.plug_enter] at hp
    rw [List.append_nil]
    exact ⟨n, m, hp⟩
  | .elif condition body rest, l => by
    intro d t s C block c u first elifs es o h hs
    rw [Alternatives.branches, bind_eq_ok] at hs
    obtain ⟨inner, d₁, hb, hs⟩ := hs
    rw [bind_eq_ok] at hs
    obtain ⟨⟨es', o'⟩, d₂, hr, hs⟩ := hs
    rw [pure_eq_ok] at hs
    obtain ⟨⟨⟩, rfl⟩ := hs
    have he := openElif_run block c u first elifs l d condition h
    obtain ⟨n, m, hp⟩ := (performAll_appends body).inScope he hb
    rw [List.nil_append, Context.plug_enter] at hp
    have ha : (⟨_, s.scopes, n, m⟩ : Site).At C (block ++
        [.conditional c u first (elifs ++ [⟨condition, inner, l⟩]) none l]) := ⟨h.path, rfl⟩
    obtain ⟨n', m', hq⟩ := rest.perform_completes l ha hr
    refine ⟨n', m', ?_⟩
    rw [Alternatives.perform, bind_ok hp]
    rw [List.append_assoc elifs] at hq
    exact hq

theorem LoopPart.perform_adds :
    (part : LoopPart) → AddsParts part.perform part.addTo
  | .block which body => by
    intro d t s C block before after l h hs
    rw [LoopPart.addTo, bind_eq_ok] at hs
    obtain ⟨inner, d₁, hb, hs⟩ := hs
    rw [pure_eq_ok] at hs
    obtain ⟨rfl, rfl⟩ := hs
    have he := openLoopPart_run d h which
    obtain ⟨n, m, hp⟩ := (performAll_appends body).inScope he hb
    rw [Context.plug_enter, before.fill_hole] at hp
    exact ⟨n, m, hp⟩
  | .condition condition => by
    intro d t s C block before after l h hs
    rw [LoopPart.addTo, pure_eq_ok] at hs
    obtain ⟨rfl, rfl⟩ := hs
    exact ⟨s.nextScope, s.location, call_ok (setLoopCondition_run t h condition)⟩

theorem performParts_adds :
    (parts : List LoopPart) → AddsParts (performParts parts) (loopOf parts)
  | [] => by
    intro d t s C block before after l h hs
    rw [loopOf, pure_eq_ok] at hs
    obtain ⟨rfl, rfl⟩ := hs
    refine ⟨s.nextScope, s.location, ?_⟩
    rw [performParts, pure_ok, ← h.body]
  | part :: rest => by
    intro d t s C block before after l h hs
    rw [loopOf, bind_eq_ok] at hs
    obtain ⟨between, d₁, hp, hs⟩ := hs
    obtain ⟨n, m, hq⟩ := part.perform_adds h hp
    obtain ⟨n', m', hr⟩ := performParts_adds rest
      (s := ⟨_, s.scopes, n, m⟩) ⟨h.scope, rfl⟩ hs
    refine ⟨n', m', ?_⟩
    rw [performParts, bind_ok hq]
    exact hr

theorem performAll_appends :
    (plans : List Plan) → Appends (performAll plans) (statementsOf plans)
  | [] => by
    intro d t s C block ss h hs
    rw [statementsOf, pure_eq_ok] at hs
    obtain ⟨rfl, rfl⟩ := hs
    refine ⟨s.nextScope, s.location, ?_⟩
    rw [performAll, pure_ok, List.append_nil, ← h.body]
  | plan :: rest => by
    intro d t s C block ss h hs
    rw [statementsOf, bind_eq_ok] at hs
    obtain ⟨first, d₁, hp, hs⟩ := hs
    rw [bind_eq_ok] at hs
    obtain ⟨others, d₂, hr, hs⟩ := hs
    rw [pure_eq_ok] at hs
    obtain ⟨rfl, rfl⟩ := hs
    obtain ⟨n, m, hq⟩ := plan.perform_appends h hp
    obtain ⟨n', m', hr⟩ := performAll_appends rest
      (s := ⟨_, s.scopes, n, m⟩) ⟨h.path, rfl⟩ hr
    refine ⟨n', m', ?_⟩
    rw [performAll, bind_ok hq, ← List.append_assoc]
    exact hr

end

/-- Valid plans are performed without a failure. Their statements are appended to the innermost block,
its surroundings stay as they are, and all scopes opened on the way are closed; outside of all scopes,
the finished program has these statements. -/
theorem performAll_builds_statements (plans : List Plan) (d : Draft) (C : Context)
    (block : List Statement) (hat : d.site.At C block) (hv : AllValid d plans) :
    ∃ ss t d', statementsOf plans d = .ok (ss, t) ∧
      performAll plans ⟨d, none⟩ = (.ok (), ⟨d', none⟩) ∧
      d'.program = { t.program with body := C.plug (block ++ ss) } ∧
      d'.scopes = d.scopes ∧
      (d.scopes = [⟨0, .program⟩] →
        Session.finish ⟨d', none⟩ = .ok { t.program with body := block ++ ss }) := by
  obtain ⟨ss, t, hs⟩ := AllValid.succeeds hv
  obtain ⟨n, l, hp⟩ := performAll_appends plans hat hs
  rw [Draft.moved_site] at hp
  refine ⟨ss, t, _, hs, hp, rfl, rfl, fun hroot => ?_⟩
  have hC : C = [] := by
    have h := hat.path
    simp only [Draft.site, hroot, List.head?_cons, Option.bind_some, Scope.blockPath?,
      Option.some.injEq] at h
    simpa [Context.path] using h.symm
  simp [Session.finish, Session.finishDraft, Draft.moved, Draft.site, hroot, hC, Context.plug]

/-- A loop whose body is opened twice and whose condition is set twice, in a branch of a conditional. -/
def nestedLoop : List Plan :=
  [.conditional (.named "v1") false [.leaf (.plain .pause) "1"]
    (.elif (.named "v2")
      [.loop
        [.block .body [.leaf (.plain .pause) "2"], .condition (.named "v1"),
          .block .init [.leaf (.assign (.named "v1") (.int 0)) "3"], .condition (.named "v2"),
          .block .body [.block .strictTiming [.leaf (.resetFrame ["q1", "q2"]) "4"] "5"]]
        "6"]
      (.otherwise []))
    "7"]

theorem performAll_builds_nestedLoop :
    Session.finish (performAll nestedLoop {}).2 = .ok { body :=
      [.conditional (.named "v1") false [.action .pause "1"]
        [⟨.named "v2",
          [.loop [.action (.assign (.named "v1") (.int 0)) "3"] (some (.named "v2")) []
            [.action .pause "2",
              .strictTiming [.action (.resetFrame "q1") "4", .action (.resetFrame "q2") "4"] "5"]
            "6"], "7"⟩]
        (some []) "7"] } := by
  have hv : AllValid {} nestedLoop := by
    simp [nestedLoop, AllValid, Plan.Valid, Alternatives.Valid, PartsValid, LoopPart.Valid,
      Leaf.Valid, Opening.Valid, Afterwards, IsPlace, Expression.named]
  obtain ⟨ss, t, d', hs, hp, -, -, hf⟩ :=
    performAll_builds_statements nestedLoop {} [] [] ⟨rfl, rfl⟩ hv
  have hf := hf rfl
  rw [hp, hf]
  obtain ⟨rfl, rfl⟩ := Prod.mk.inj (Except.ok.inj hs)
  rfl

end Qua
