import Qua.Proofs.Build.Reachable

/-!
# What a draft gathers

Besides statements and scopes, a draft gathers declarations, streams and saves. Of all that a call does,
only declaring a variable and using a tag change these; declaring a stream and registering a save are
calls of their own. What holds along those two holds along every other call, whether it fails or not
(`Course`).
-/

namespace Qua

/-- What a tag is used for. -/
inductive TagRole
  /-- Timestamps of a command. -/
  | timestamps
  /-- Values that are saved. -/
  | values
  /-- The trace of a measurement. -/
  | trace
  deriving DecidableEq

namespace TagRole

def isAdcTrace : TagRole → Bool
  | .trace => true
  | _ => false

/-- The saves that come with the first use. -/
def saves : TagRole → String → ResultSource → List SaveEntry
  | .timestamps => Build.streamSaves false
  | .values => Build.streamSaves true
  | .trace => Build.traceSaves

/-- The tags under which the first use saves. -/
def tags : TagRole → String → List String
  | .timestamps, tag => [tag]
  | .values, tag => [tag, tag ++ "_timestamps"]
  | .trace, tag =>
    [tag ++ "_input1", tag ++ "_input1" ++ "_timestamps", tag ++ "_input2", tag ++ "_input2" ++ "_timestamps"]

theorem tags_saves (role : TagRole) (tag : String) (source : ResultSource) :
    (role.saves tag source).map SaveEntry.tag = role.tags tag := by cases role <;> rfl

theorem tags_nodup (role : TagRole) (tag : String) : (role.tags tag).Nodup := by
  rw [← role.tags_saves tag ⟨"", false, .values, none, false⟩]
  cases role with
  | timestamps => exact Build.streamSaves_nodup false tag _
  | values => exact Build.streamSaves_nodup true tag _
  | trace => exact Build.traceSaves_nodup tag _

end TagRole

/-- The stream of a tag in a role. -/
def Build.useTag : TagRole → String → Build ResultSource
  | .timestamps, tag => taggedStream tag false
  | .values, tag => taggedStream tag true
  | .trace, tag => taggedTrace tag

theorem Build.useTag_eq (role : TagRole) (tag : String) :
    useTag role tag =
      shorthand tag role.isAdcTrace fun source => (role.saves tag source).forM addSave := by
  cases role with
  | timestamps => exact taggedStream_eq tag false
  | values => exact taggedStream_eq tag true
  | trace => exact taggedTrace_eq tag

/-- The tags that a target uses, in a role. -/
def StreamTarget.uses (role : TagRole) : StreamTarget → List (TagRole × String)
  | .tag name => [(role, name)]
  | .source _ => []

/-- The tags that a leaf uses, in their order. -/
def Leaf.uses : Leaf → List (TagRole × String)
  | .play _ _ options => options.timestampStream.toList.flatMap (StreamTarget.uses .timestamps)
  | .measure _ _ options =>
    options.stream.toList.flatMap (StreamTarget.uses .trace) ++
      options.timestampStream.toList.flatMap (StreamTarget.uses .timestamps)
  | .save _ stream => stream.uses .values
  | _ => []

/-- A draft as far as declarations, streams and saves go. -/
def Draft.inventory (d : Draft) : Draft :=
  { d with
    program := { d.program with body := [], metadata := {} }
    scopes := []
    nextScope := 0
    location := "" }

namespace Build

/-- The draft after the step is related to the one before. -/
def Along (R : Draft → Draft → Prop) (m : Build α) : Prop :=
  ∀ ⦃d : Draft⦄ ⦃a : α⦄ ⦃t : Draft⦄, m d = .ok (a, t) → R d t

/-- A relation between drafts that follow one another, which holds along declarations. -/
structure Passage (R : Draft → Draft → Prop) : Prop where
  refl : ∀ d, R d d
  trans : ∀ ⦃d e t⦄, R d e → R e t → R d t
  declares : ∀ scalarType value size inputStream,
    Along R (declareNamed scalarType value size inputStream)

theorem along_throw {R : Draft → Draft → Prop} (e : BuildError) : Along R (throw e : Build α) :=
  fun _ _ _ hb => nomatch hb

namespace Passage

variable {R : Draft → Draft → Prop} (h : Passage R)
include h

theorem along_pure (a : α) : Along R (pure a : Build α) := by
  intro d b t hb
  obtain ⟨-, rfl⟩ := pure_eq_ok.mp hb
  exact h.refl _

theorem along_bind {m : Build α} {f : α → Build β} (hm : Along R m) (hf : ∀ a, Along R (f a)) :
    Along R (m >>= f) := by
  intro d b t hb
  obtain ⟨a, s, hs, ht⟩ := bind_eq_ok.mp hb
  exact h.trans (hm hs) (hf a ht)

theorem along_map {m : Build α} (f : α → β) (hm : Along R m) : Along R (f <$> m) := by
  rw [map_eq_pure_bind]
  exact h.along_bind hm fun a => h.along_pure (f a)

theorem along_mapM {f : α → Build β} (hf : ∀ a, Along R (f a)) (as : List α) : Along R (as.mapM f) := by
  induction as with
  | nil => simpa using h.along_pure []
  | cons a as ih =>
    rw [List.mapM_cons]
    exact h.along_bind (hf a) fun b => h.along_bind ih fun bs => h.along_pure (b :: bs)

theorem along_mapM_option {f : α → Build β} (hf : ∀ a, Along R (f a)) (a : Option α) :
    Along R (a.mapM f) := by
  cases a with
  | none => exact h.along_pure none
  | some a => exact h.along_map some (hf a)

theorem along_get : Along R (get : Build Draft) := by
  rintro d _ _ ⟨⟩
  exact h.refl d

theorem along_innermost : Along R innermost := h.along_bind h.along_get fun _ => h.along_pure _

theorem along_bodyPath : Along R bodyPath := by
  refine h.along_bind h.along_innermost fun scope => ?_
  rcases scope with _ | scope
  · exact along_throw _
  · cases scope <;> first | exact h.along_pure _ | exact along_throw _

theorem along_innermostLoop : Along R innermostLoop := by
  refine h.along_bind h.along_innermost fun scope => ?_
  rcases scope with _ | scope
  · exact along_throw _
  · cases scope <;> first | exact h.along_pure _ | exact along_throw _

-- ---------------------------------------------------------------------------
-- Operands
-- ---------------------------------------------------------------------------

theorem along_declareLiterals (literals : List Literal) : Along R (declareLiterals literals) := by
  refine h.along_bind ?_ fun (_, _) => h.declares _ _ _ _
  cases Literal.arrayOf literals with
  | error e => exact along_throw _
  | ok cells => exact h.along_pure cells

theorem along_chirp (options : ChirpOptions) (continues : Bool) : Along R (chirp options continues) := by
  unfold chirp
  cases ChirpUnits.ofName? options.units with
  | none => exact along_throw _
  | some units =>
    cases options.rate with
    | expression rate => exact h.along_pure _
    | values rates => exact h.along_bind (h.declares _ _ _ _) fun _ => h.along_pure _

theorem along_assignTarget (target : Expression) : Along R (assignTarget target) := by
  cases target <;> first | exact h.along_pure _ | exact along_throw _

theorem along_saveSource (source : Expression) : Along R (saveSource source) := by
  cases source <;> first | exact h.along_pure _ | exact along_throw _

theorem along_triggerTarget (target : Expression) : Along R (triggerTarget target) := by
  unfold triggerTarget
  split <;> first | exact h.along_pure _ | exact along_throw _

theorem along_iterators (targets : List Expression) (values : List ForEachValues) :
    Along R (iterators targets values) := by
  have hvariables (index : Nat) : Along R (forEachVariables index targets) := by
    induction targets generalizing index with
    | nil => exact h.along_pure []
    | cons e rest ih =>
      simp only [forEachVariables]
      cases e.variableName? with
      | none => exact along_throw _
      | some name => exact h.along_bind (ih (index + 1)) fun _ => h.along_pure _
  have harray (values : ForEachValues) : Along R (forEachArray values) := by
    cases values with
    | array array =>
      simp only [forEachArray]
      cases array.arrayName? with
      | none => exact along_throw _
      | some name => exact h.along_pure name
    | literals values =>
      refine h.along_bind (h.along_declareLiterals values) fun array => ?_
      cases array.arrayName? with
      | none => exact along_throw _
      | some name => exact h.along_pure name
  refine h.along_bind (hvariables 0) fun names => ?_
  cases values.isEmpty with
  | true => rintro _ _ _ ⟨⟩
  | false =>
    refine h.along_bind (h.along_mapM harray values) fun arrays => ?_
    split
    · exact h.along_bind (along_throw _) fun _ => h.along_pure _
    · exact h.along_pure _

theorem along_libraryCall (library : Library) (function : String) (arguments : List LibraryArgument) :
    Along R (libraryCall library function arguments) := by
  have hargument (argument : LibraryArgument) : Along R (libraryArgument argument) := by
    cases argument with
    | expression value => exact h.along_pure value
    | literals values => exact h.along_declareLiterals values
  unfold libraryCall
  cases library.arity? function with
  | none => exact along_throw _
  | some expected =>
    dsimp only
    split
    · exact h.along_bind (along_throw _) fun _ =>
        h.along_bind (h.along_mapM hargument arguments) fun _ => h.along_pure _
    · exact h.along_bind (h.along_mapM hargument arguments) fun _ => h.along_pure _

theorem along_amp (values : List Expression) : Along R (amp values) := by
  unfold amp
  split <;> first | exact h.along_pure _ | exact along_throw _

end Passage

/-- A relation between drafts that looks at their inventories only. -/
structure Course (R : Draft → Draft → Prop) : Prop extends Passage R where
  of_eq : ∀ ⦃d t⦄, t.inventory = d.inventory → R d t
  refl := fun _ => of_eq rfl

namespace Course

variable {R : Draft → Draft → Prop} (h : Course R)
include h

theorem keeps {m : Build α} (hm : ∀ ⦃d a t⦄, m d = .ok (a, t) → t.inventory = d.inventory) : Along R m :=
  fun _ _ _ hrun => h.of_eq (hm hrun)

-- ---------------------------------------------------------------------------
-- Statements and scopes
-- ---------------------------------------------------------------------------

theorem along_modify {f : Draft → Draft} (hf : ∀ d, (f d).inventory = d.inventory) :
    Along R (modify f : Build PUnit) :=
  h.keeps fun d _ _ hb => (Prod.mk.inj (Except.ok.inj hb)).2 ▸ hf d

theorem along_located {m : Build α} (location : String) (hm : Along R m) :
    Along R (located location m) :=
  h.along_bind (h.along_modify fun _ => rfl) fun _ => hm

theorem along_openScope (scope : Scope) : Along R (openScope scope) :=
  h.keeps fun _ _ _ hb => (Prod.mk.inj (Except.ok.inj hb)).2 ▸ rfl

theorem along_closeScope (id : Nat) : Along R (closeScope id) := by
  refine h.keeps fun d a t hb => ?_
  obtain ⟨scope, outer, hs, hp, hrun⟩ | ⟨-, hrun⟩ := closeScope_cases d id
  · rw [hrun] at hb
    exact (Prod.mk.inj (Except.ok.inj hb)).2 ▸ rfl
  · rw [hrun] at hb
    nomatch hb

theorem along_edit (path : Path) (change : Edit (List Statement) α) : Along R (edit path change) := by
  refine h.keeps fun d a t hb => ?_
  simp only [edit, bind_run, get_run] at hb
  cases hp : Edit.atPath path change d.program.body with
  | error e =>
    rw [hp] at hb
    cases hb
  | ok result =>
    rw [hp] at hb
    exact (Prod.mk.inj (Except.ok.inj hb)).2 ▸ rfl

theorem along_append (statement : String → Statement) : Along R (append statement) :=
  h.along_bind h.along_bodyPath fun _ => h.along_bind h.along_get fun _ =>
    h.along_bind (h.along_edit _ _) fun _ => h.along_pure _

theorem along_openBlock (statement : String → Statement) (selector : Selector) :
    Along R (openBlock statement selector) :=
  h.along_bind h.along_bodyPath fun _ => h.along_bind h.along_get fun _ =>
    h.along_bind (h.along_edit _ _) fun _ => h.along_openScope _

theorem along_setLoopCondition (condition : Expression) : Along R (setLoopCondition condition) :=
  h.along_bind h.along_innermostLoop fun (_, _) => h.along_edit _ _

theorem along_timestampStream (target : Option StreamTarget)
    (ht : ∀ use ∈ target.toList.flatMap (StreamTarget.uses .timestamps), Along R (useTag use.1 use.2)) :
    Along R (timestampStream target) := by
  cases target with
  | none => exact h.along_pure none
  | some target =>
    refine h.along_bind (h.along_modify fun _ => rfl) fun _ => ?_
    cases target with
    | tag tag => exact h.along_map some (ht (.timestamps, tag) (List.mem_singleton.mpr rfl))
    | source source => exact h.along_pure _

theorem along_measureStream (target : Option StreamTarget)
    (ht : ∀ use ∈ target.toList.flatMap (StreamTarget.uses .trace), Along R (useTag use.1 use.2)) :
    Along R (measureStream target) := by
  cases target with
  | none => exact h.along_pure none
  | some target =>
    cases target with
    | tag tag => exact h.along_map some (ht (.trace, tag) (List.mem_singleton.mpr rfl))
    | source source => exact h.along_pure _

theorem along_saveStream (target : StreamTarget)
    (ht : ∀ use ∈ target.uses .values, Along R (useTag use.1 use.2)) : Along R (saveStream target) := by
  cases target with
  | tag tag => exact ht (.values, tag) (List.mem_singleton.mpr rfl)
  | source source => exact h.along_pure source

-- ---------------------------------------------------------------------------
-- Actions
-- ---------------------------------------------------------------------------

theorem along_playAction (pulse : Pulse) (element : String) (options : PlayOptions)
    (ht : ∀ use ∈ (Leaf.play pulse element options).uses, Along R (useTag use.1 use.2)) :
    Along R (playAction pulse element options) :=
  h.along_bind (h.along_mapM_option (fun c => h.along_chirp c _) _) fun _ =>
    h.along_bind (h.along_timestampStream _ ht) fun _ => h.along_pure _

theorem along_measureAction (pulse element : String) (options : MeasureOptions)
    (ht : ∀ use ∈ (Leaf.measure pulse element options).uses, Along R (useTag use.1 use.2)) :
    Along R (measureAction pulse element options) := by
  obtain ⟨hs, ht⟩ := List.forall_mem_append.mp ht
  exact h.along_bind (h.along_measureStream _ hs) fun _ =>
    h.along_bind (h.along_timestampStream _ ht) fun _ => h.along_pure _

theorem along_triggerAction (elements : List String) (pulse : Option String) (trigger : Option TriggerElement)
    (target : Option Expression) : Along R (triggerAction elements pulse trigger target) :=
  h.along_bind (h.along_mapM_option h.along_triggerTarget _) fun _ => h.along_pure _

theorem along_assignAction (target value : Expression) : Along R (assignAction target value) :=
  h.along_bind (h.along_assignTarget target) fun _ => h.along_pure _

theorem along_saveAction (source : Expression) (stream : StreamTarget)
    (ht : ∀ use ∈ stream.uses .values, Along R (useTag use.1 use.2)) :
    Along R (saveAction source stream) := by
  refine h.along_bind (h.along_saveStream stream ht) fun stream => ?_
  have hsource := h.along_bind (h.along_saveSource source) fun source =>
    h.along_pure (Action.save source stream.name)
  cases stream.isAdcTrace with
  | true => exact h.along_bind (along_throw _) fun _ => hsource
  | false => exact hsource

end Course
end Build

open Build

-- ---------------------------------------------------------------------------
-- Calls
-- ---------------------------------------------------------------------------

section
variable {R : Draft → Draft → Prop} (h : Course R)
include h

theorem Leaf.along (leaf : Leaf) (ht : ∀ use ∈ leaf.uses, Along R (useTag use.1 use.2)) :
    ∀ step ∈ leaf.steps, Along R step := by
  cases leaf with
  | play pulse element options =>
    rw [steps, play_eq, List.forall_mem_singleton]
    exact h.along_bind (h.along_playAction pulse element options ht) fun _ => h.along_append _
  | measure pulse element options =>
    rw [steps, measure_eq, List.forall_mem_singleton]
    exact h.along_bind (h.along_measureAction pulse element options ht) fun _ => h.along_append _
  | waitForTrigger elements pulse trigger target =>
    rw [steps, waitForTrigger_eq, List.forall_mem_singleton]
    exact h.along_bind (h.along_triggerAction elements pulse trigger target) fun _ => h.along_append _
  | assign target value =>
    rw [steps, assign_eq, List.forall_mem_singleton]
    exact h.along_bind (h.along_assignAction target value) fun _ => h.along_append _
  | save source stream =>
    rw [steps, save_eq, List.forall_mem_singleton]
    exact h.along_bind (h.along_saveAction source stream ht) fun _ => h.along_append _
  | plain action => exact List.forall_mem_singleton.mpr (h.along_append _)
  | resetFrame elements | frameRotation _ elements | frameRotation2pi _ elements =>
    exact List.forall_mem_map.mpr fun _ _ => h.along_append _
  | fastFrameRotation cosine sine elements =>
    exact List.forall_mem_cons.mpr ⟨h.along_modify fun _ => rfl,
      List.forall_mem_map.mpr fun _ _ => h.along_append _⟩

theorem Opening.along (opening : Opening) : Along R opening.enter := by
  cases opening with
  | whileLoop condition => exact h.along_openBlock _ _
  | infiniteLoop => exact h.along_openBlock _ _
  | strictTiming => exact h.along_openBlock _ _
  | counted target init condition update =>
    exact h.along_bind (h.along_assignTarget target) fun _ => h.along_openBlock _ _
  | forEach targets values =>
    rw [enter, openForEach_eq]
    exact h.along_bind (h.along_iterators targets values) fun _ => h.along_openBlock _ _

theorem Entry.along (entry : Entry) : Along R entry.step := by
  cases entry with
  | conditional condition isUnsafe => exact h.along_openBlock _ _
  | elif condition =>
    exact h.along_bind h.along_bodyPath fun _ => h.along_bind (h.along_edit _ _) fun _ =>
      h.along_bind (h.along_edit _ _) fun _ => h.along_bind (h.along_edit _ _) fun _ => h.along_openScope _
  | otherwise =>
    exact h.along_bind h.along_bodyPath fun _ => h.along_bind (h.along_edit _ _) fun _ =>
      h.along_bind (h.along_edit _ _) fun _ => h.along_openScope _
  | switch value isUnsafe => exact h.along_bind h.along_bodyPath fun _ => h.along_openScope _
  | case value =>
    refine h.along_bind h.along_innermost fun scope => ?_
    split
    · refine h.along_bind h.along_get fun _ => h.along_bind (h.along_edit _ _) fun _ =>
        h.along_bind ?_ fun _ => h.along_openScope _
      refine h.along_modify fun d => ?_
      split <;> rfl
    · exact h.along_bind (h.along_edit _ _) fun _ => h.along_openScope _
    · exact along_throw _
  | default =>
    refine h.along_bind h.along_innermost fun scope => ?_
    split
    · exact h.along_bind (h.along_edit _ _) fun _ => h.along_openScope _
    · exact along_throw _
    · exact along_throw _
  | block opening => exact opening.along h
  | loop =>
    exact h.along_bind h.along_bodyPath fun _ => h.along_bind h.along_get fun _ =>
      h.along_bind (h.along_edit _ _) fun _ => h.along_openScope _
  | loopPart which => exact h.along_bind h.along_innermostLoop fun (_, _) => h.along_openScope _
  | results =>
    refine h.along_bind h.along_innermost fun scope => ?_
    split <;> first | exact h.along_openScope _ | exact along_throw _

end

/-- Whatever the calls answer, the draft after them is related to the one before. -/
def Calls.Along (R : Draft → Draft → Prop) (m : Calls α) : Prop := ∀ s, R s.draft (m s).2.draft

namespace Build.Course

variable {R : Draft → Draft → Prop} (h : Course R)
include h

theorem calls_call {step : Build α} (hs : Along R step) : Calls.Along R (Calls.call step) := by
  rintro ⟨d, poison⟩
  cases poison with
  | some reason => exact h.refl d
  | none =>
    cases hm : step d with
    | error e => simpa [Calls.call, Session.apply, hm] using h.refl d
    | ok result => simpa [Calls.call, Session.apply, hm] using hs hm

theorem calls_pure (a : α) : Calls.Along R (pure a : Calls α) := fun s => h.refl s.draft

theorem calls_bind {m : Calls α} {f : α → Calls β} (hm : Calls.Along R m)
    (hf : ∀ a, Calls.Along R (f a)) : Calls.Along R (m >>= f) := by
  intro s
  have hfirst := hm s
  simp only [bind, ExceptT.bind, ExceptT.mk, StateT.bind]
  rcases hs : m s with ⟨_ | a, t⟩
  · rw [hs] at hfirst
    exact hfirst
  · rw [hs] at hfirst
    exact h.trans hfirst (hf a t)

theorem calls_callEach {steps : List (Build Unit)} (hs : ∀ step ∈ steps, Along R step) :
    Calls.Along R (Calls.callEach steps) := by
  induction steps with
  | nil => exact fun s => h.refl s.draft
  | cons step steps ih =>
    intro s
    have hfirst := h.calls_call (hs step List.mem_cons_self) s
    have hrest := ih fun step hstep => hs step (List.mem_cons_of_mem _ hstep)
    simp only [Calls.callEach, Session.applyEach]
    simp only [Calls.call] at hfirst
    rcases ha : s.apply step with ⟨_ | _, t⟩
    · rw [ha] at hfirst
      exact hfirst
    · rw [ha] at hfirst
      exact h.trans hfirst (hrest t)

end Build.Course

/-- The tags that a call uses, in their order. -/
def Call.uses : Call → List (TagRole × String)
  | .leaf made => made.uses
  | _ => []

def Event.uses : Event → List (TagRole × String)
  | .call made _ => made.uses
  | _ => []

/-- Declaring a stream, or registering a save. -/
def Request.isRegistration : Request → Bool
  | .declareStream _ => true
  | .registerSave .. => true
  | _ => false

section
variable {R : Draft → Draft → Prop} (h : Course R)
include h

theorem Request.along {asked : Request} (ha : asked.isRegistration = false) : Along R asked.step := by
  cases asked with
  | declare scalarType value size => exact h.along_map _ (h.declares _ _ _ _)
  | declareInputStream scalarType name value size => exact h.along_map _ (h.declares _ _ _ _)
  | libraryCall library function arguments => exact h.along_map _ (h.along_libraryCall _ _ _)
  | random seed => exact h.along_map _ (h.declares .int (some (.scalar (.int seed))) none none)
  | amp values => exact h.along_map _ (h.along_amp values)
  | declareStream | registerSave => nomatch ha

theorem Leaf.along_perform (leaf : Leaf) (ht : ∀ use ∈ leaf.uses, Along R (useTag use.1 use.2))
    (l : String) : Calls.Along R (Call.perform l (.leaf leaf)) := by
  refine h.calls_bind (h.calls_callEach (List.forall_mem_map.mpr fun step hs => ?_)) fun _ => h.calls_pure _
  exact h.along_located l (leaf.along h ht step hs)

theorem Call.along_uses {made : Call} (ht : ∀ use ∈ made.uses, Along R (useTag use.1 use.2))
    (hr : ∀ asked, made = .request asked → Along R asked.step) (l : String) :
    Calls.Along R (made.perform l) := by
  cases made with
  | request asked => exact h.calls_call (h.along_located l (hr asked rfl))
  | leaf leaf => exact leaf.along_perform h ht l
  | loopCondition condition =>
    exact h.calls_bind (h.calls_call (h.along_located l (h.along_setLoopCondition condition))) fun _ =>
      h.calls_pure _
  | enter entry =>
    rw [perform, map_eq_pure_bind]
    exact h.calls_bind (h.calls_call (h.along_located l (entry.along h))) fun _ => h.calls_pure _

theorem Call.along (ht : ∀ role tag, Along R (useTag role tag)) (made : Call)
    (hr : ∀ asked, made = .request asked → Along R asked.step) (l : String) :
    Calls.Along R (made.perform l) :=
  made.along_uses h (fun use _ => ht use.1 use.2) hr l

/-- A relation that holds along declarations, and along the uses of tags of an event, holds along the event,
if it holds along what the event requests. -/
theorem Event.along_uses {event : Event} (ht : ∀ use ∈ event.uses, Along R (useTag use.1 use.2))
    (hr : ∀ asked l, event = .call (.request asked) l → Along R asked.step) :
    Calls.Along R event.perform := by
  cases event with
  | call made l => exact made.along_uses h ht (fun asked ha => hr asked l (ha ▸ rfl)) l
  | close number =>
    exact h.calls_bind (h.calls_call (h.along_closeScope number)) fun _ => h.calls_pure _
  | drop number =>
    intro s
    have hclose : R s.draft (s.close number).2.draft := h.calls_call (h.along_closeScope number) s
    cases hp : s.poison.isSome with
    | true => simpa [perform, Session.release, hp] using h.refl s.draft
    | false => simpa [perform, Session.release, hp] using hclose

theorem Event.along (ht : ∀ role tag, Along R (useTag role tag)) (event : Event)
    (hr : ∀ asked l, event = .call (.request asked) l → Along R asked.step) :
    Calls.Along R event.perform :=
  event.along_uses h (fun use _ => ht use.1 use.2) hr

/-- A relation that holds along every event holds along every run. -/
theorem Session.run_along (ht : ∀ role tag, Along R (useTag role tag))
    (hr : ∀ asked : Request, Along R asked.step) (events : List Event) (s : Session) :
    R s.draft (run events s).2.draft := by
  induction events generalizing s with
  | nil => exact h.refl s.draft
  | cons event events ih =>
    rw [run_cons]
    exact h.trans (event.along h ht (fun asked _ _ => hr asked) s) (ih _)

end
end Qua
