import Mathlib.Data.List.Basic
import Qua.Proofs.InPlace.Names

/-!
# Statements in place

A traversal in place goes through a statement by the list of its blocks, after it has taken its step for the
statement. The step may do anything with the statement and keep any state, so long as it leaves the blocks in
it alone. Main statement: `traversals_agree`.
-/

namespace Qua

open InPlace

variable {σ α β : Type}

-- ---------------------------------------------------------------------------
-- Heads and blocks
-- ---------------------------------------------------------------------------

namespace Statement

/-- The blocks of a statement, in the order of its text. -/
def blocks : Statement → List (List Statement)
  | .action .. => []
  | .conditional _ _ body elifs otherwise _ => body :: (elifs.map Branch.body ++ otherwise.toList)
  | .loop init _ update body _ => [init, update, body]
  | .forEach _ body _ => [body]
  | .strictTiming body _ => [body]

/-- Other blocks in the branches of a conditional and behind its `else`. -/
def withBodies (elifs : List (Branch Statement)) (otherwise : Option (List Statement))
    (new : List (List Statement)) : List (Branch Statement) × Option (List Statement) :=
  match elifs, otherwise, new with
  | e :: elifs, otherwise, body :: new =>
    let (elifs, otherwise) := withBodies elifs otherwise new
    ({ e with body } :: elifs, otherwise)
  | [], some _, [body] => ([], some body)
  | elifs, otherwise, _ => (elifs, otherwise)

/-- The statement with other blocks in the place of its own, in their order. -/
def withBlocks (s : Statement) (new : List (List Statement)) : Statement :=
  match s, new with
  | .conditional c u _ elifs otherwise l, body :: new =>
    let (elifs, otherwise) := withBodies elifs otherwise new
    .conditional c u body elifs otherwise l
  | .loop _ c _ _ l, [init, update, body] => .loop init c update body l
  | .forEach iterators _ l, [body] => .forEach iterators body l
  | .strictTiming _ l, [body] => .strictTiming body l
  | s, _ => s

/-- What a statement is besides its blocks. -/
def head : Statement → Statement
  | .action a l => .action a l
  | .conditional c u _ elifs otherwise l =>
    .conditional c u [] (elifs.map fun e => { e with body := [] }) (otherwise.map fun _ => []) l
  | .loop _ c _ _ l => .loop [] c [] [] l
  | .forEach iterators _ l => .forEach iterators [] l
  | .strictTiming _ l => .strictTiming [] l

/-- The new blocks stand in the branches and behind the `else`, and else these are the same. -/
theorem withBodies_blocks {elifs : List (Branch Statement)} {otherwise : Option (List Statement)}
    {new : List (List Statement)} (h : new.length = elifs.length + otherwise.toList.length) :
    (withBodies elifs otherwise new).1.map Branch.body ++ (withBodies elifs otherwise new).2.toList = new ∧
      (withBodies elifs otherwise new).1.map (fun e => { e with body := ([] : List Statement) }) =
        elifs.map (fun e => { e with body := [] }) ∧
      (withBodies elifs otherwise new).2.map (fun _ => ([] : List Statement)) = otherwise.map fun _ => [] := by
  induction elifs generalizing new with
  | nil =>
    cases otherwise with
    | none =>
      obtain rfl := List.length_eq_zero_iff.mp h
      exact ⟨rfl, rfl, rfl⟩
    | some _ =>
      obtain ⟨body, rfl⟩ := List.length_eq_one_iff.mp h
      exact ⟨rfl, rfl, rfl⟩
  | cons e elifs ih =>
    cases new with
    | nil => simp at h; omega
    | cons body new =>
      have hlength : new.length = elifs.length + otherwise.toList.length := by
        simp only [List.length_cons] at h
        omega
      obtain ⟨hb, he, ho⟩ := ih hlength
      rw [withBodies]
      exact ⟨congrArg (body :: ·) hb, congrArg (_ :: ·) he, ho⟩

/-- The new blocks stand in the statement, and else it is the same. -/
theorem withBlocks_spec {s : Statement} {new : List (List Statement)} (h : new.length = s.blocks.length) :
    (s.withBlocks new).blocks = new ∧ (s.withBlocks new).head = s.head := by
  cases s with
  | action a l =>
    obtain rfl := List.length_eq_zero_iff.mp h
    exact ⟨rfl, rfl⟩
  | conditional c u body elifs otherwise l =>
    cases new with
    | nil => simp [blocks] at h
    | cons body new =>
      have hlength : new.length = elifs.length + otherwise.toList.length := by simpa [blocks] using h
      obtain ⟨hb, he, ho⟩ := withBodies_blocks hlength
      exact ⟨congrArg (body :: ·) hb, by simp only [withBlocks, head, he, ho]⟩
  | loop init c update body l =>
    obtain ⟨_, _, _, rfl⟩ := List.length_eq_three.mp h
    exact ⟨rfl, rfl⟩
  | forEach iterators body l =>
    obtain ⟨body, rfl⟩ := List.length_eq_one_iff.mp h
    exact ⟨rfl, rfl⟩
  | strictTiming body l =>
    obtain ⟨body, rfl⟩ := List.length_eq_one_iff.mp h
    exact ⟨rfl, rfl⟩

/-- The walk goes through the blocks one after the other. -/
theorem walk_eq (s : Statement) : s.walk = s :: s.blocks.flatMap walkBlock := by
  have hbranches (elifs : List (Branch Statement)) :
      walkBranches elifs = (elifs.map Branch.body).flatMap walkBlock := by
    induction elifs with
    | nil => rfl
    | cons e elifs ih => simp [walkBranches, ih]
  cases s with
  | conditional c u body elifs otherwise l =>
    cases otherwise <;> simp [walk, blocks, hbranches, walkOtherwise]
  | _ => simp [walk, blocks]

theorem sizeOf_lt {s t : Statement} {b : List Statement} (hb : b ∈ s.blocks) (ht : t ∈ b) :
    sizeOf t < sizeOf s := by
  have hlt := List.sizeOf_lt_of_mem ht
  cases s with
  | action a l => simp [blocks] at hb
  | conditional c u body elifs otherwise l =>
    simp only [blocks, List.mem_cons, List.mem_append, List.mem_map, Option.mem_toList] at hb
    simp only [conditional.sizeOf_spec]
    obtain rfl | ⟨⟨c', b', l'⟩, he, rfl⟩ | h := hb
    · omega
    · have := List.sizeOf_lt_of_mem he
      simp only [Branch.mk.sizeOf_spec] at this
      simp only at hlt
      omega
    · obtain rfl := h
      simp only [Option.some.sizeOf_spec]
      omega
  | loop init c update body l =>
    simp only [blocks, List.mem_cons, List.not_mem_nil, or_false] at hb
    simp only [loop.sizeOf_spec]
    obtain rfl | rfl | rfl := hb <;> omega
  | forEach iterators body l =>
    obtain rfl := List.mem_singleton.mp hb
    simp only [forEach.sizeOf_spec]
    omega
  | strictTiming body l =>
    obtain rfl := List.mem_singleton.mp hb
    simp only [strictTiming.sizeOf_spec]
    omega

/-- A statement is its head and its blocks. -/
theorem withBlocks_head (s : Statement) : s.head.withBlocks s.blocks = s := by
  cases s with
  | conditional c u body elifs otherwise l =>
    have hbodies : withBodies (elifs.map fun e => { e with body := [] }) (otherwise.map fun _ => [])
        (elifs.map Branch.body ++ otherwise.toList) = (elifs, otherwise) := by
      induction elifs with
      | nil => cases otherwise <;> rfl
      | cons e elifs ih => simp only [List.map_cons, List.cons_append, withBodies, ih]
    simp only [head, blocks, withBlocks, hbodies]
  | _ => rfl

theorem eq_of_head_blocks {s t : Statement} (hh : s.head = t.head) (hb : s.blocks = t.blocks) :
    s = t := by
  rw [← s.withBlocks_head, hh, hb, t.withBlocks_head]

section

variable (f : Action → Action) (g : String → String)

theorem mapBranches_eq (elifs : List (Branch Statement)) :
    mapBranches f g elifs = elifs.map fun e => ⟨e.condition, mapBlock f g e.body, g e.location⟩ := by
  induction elifs with
  | nil => rfl
  | cons e elifs ih => rw [mapBranches, ih, List.map_cons]

theorem mapOtherwise_eq (otherwise : Option (List Statement)) :
    mapOtherwise f g otherwise = otherwise.map (mapBlock f g) := by
  cases otherwise <;> rfl

theorem head_map (s : Statement) : (s.map f g).head = s.head.map f g := by
  cases s with
  | conditional c u body elifs otherwise l =>
    cases otherwise <;> simp [map, head, mapBranches_eq, mapOtherwise_eq, mapBlock]
  | _ => rfl

theorem blocks_map (s : Statement) : (s.map f g).blocks = s.blocks.map (mapBlock f g) := by
  cases s with
  | conditional c u body elifs otherwise l =>
    cases otherwise <;> simp [map, blocks, mapBranches_eq, mapOtherwise_eq]
  | _ => rfl

end

theorem streamNames_head (s : Statement) : s.head.streamNames = s.streamNames := by
  cases s <;> rfl

end Statement

-- ---------------------------------------------------------------------------
-- Visiting
-- ---------------------------------------------------------------------------

/-- A step that is taken for a statement. It may change the statement, but not the blocks in it. -/
abbrev Visit (σ : Type) : Type := (s : Statement) → StateM σ { t : Statement // t.blocks = s.blocks }

namespace Visit

/-- Takes the step for the statement, and then for those in its blocks, one block after the other. -/
def visitAll (step : Visit σ) (s : Statement) : StateM σ Statement := do
  let t ← step s
  let new ← t.1.blocks.attach.mapM fun b => b.1.attach.mapM fun s' => visitAll step s'.1
  return t.1.withBlocks new
termination_by s
decreasing_by
  have hb : b.1 ∈ s.blocks := (congrArg (b.1 ∈ ·) t.2).mp b.2
  exact Statement.sizeOf_lt hb s'.2

def visitBlock (step : Visit σ) (b : List Statement) : StateM σ (List Statement) := b.mapM (visitAll step)

theorem visitAll_eq (step : Visit σ) (s : Statement) :
    visitAll step s = do
      let t ← step s
      let new ← t.1.blocks.mapM (visitBlock step)
      return t.1.withBlocks new := by
  rw [visitAll]
  simp only [List.mapM_subtype, List.unattach_attach]
  rfl

/-- The statement that the step makes of a statement. -/
def result (step : Visit σ) (s : Statement) : StateM σ Statement := Subtype.val <$> step s

/-- Run in place, the step is taken for the statements that are listed, in their order, and what it makes
of them is what is listed afterwards. -/
def Follows (step : Visit σ) (list : α → List Statement) (run : α → StateM σ α) (a : α) : Prop :=
  ∀ x, ((list a).mapM step.result x).2 = (run a x).2 ∧
    ((list a).mapM step.result x).1.map Statement.head = (list (run a x).1).map Statement.head

/-- If all items are gone through so, their list is. -/
theorem Follows.all {step : Visit σ} {list : α → List Statement} {run : α → StateM σ α} {as : List α}
    (h : ∀ a ∈ as, Follows step list run a) :
    Follows step (fun as => as.flatMap list) (fun as => as.mapM run) as := by
  intro x
  induction as generalizing x with
  | nil => exact ⟨rfl, rfl⟩
  | cons a as ih =>
    obtain ⟨ha, has⟩ := List.forall_mem_cons.mp h
    obtain ⟨hstate, hlist⟩ := ha x
    obtain ⟨hstate', hlist'⟩ := ih has (run a x).2
    simp only [List.flatMap_cons, mapM_append_run, mapM_cons_run, hstate, List.map_append, hlist]
    exact ⟨hstate', congrArg _ hlist'⟩

theorem visitAll_run (step : Visit σ) (s : Statement) (x : σ) :
    visitAll step s x =
      ((step s x).1.1.withBlocks (s.blocks.mapM (visitBlock step) (step s x).2).1,
        (s.blocks.mapM (visitBlock step) (step s x).2).2) := by
  rw [visitAll_eq, stateM_bind]
  simp only [(step s x).1.2]
  rfl

theorem walkBlock_eq (b : List Statement) : Statement.walkBlock b = b.flatMap Statement.walk := by
  induction b with
  | nil => rfl
  | cons s b ih => rw [Statement.walkBlock, ih, List.flatMap_cons]

theorem visitBlock_follows_of {step : Visit σ} {b : List Statement}
    (h : ∀ s ∈ b, Follows step Statement.walk step.visitAll s) :
    Follows step Statement.walkBlock step.visitBlock b := by
  intro x
  rw [walkBlock_eq, walkBlock_eq]
  exact Follows.all h x

theorem visitAll_follows (step : Visit σ) (s : Statement) :
    Follows step Statement.walk step.visitAll s := by
  -- the blocks are smaller than the statement, whatever the step makes of its head
  induction h : sizeOf s using Nat.strongRecOn generalizing s with
  | ind n ih =>
    subst h
    intro x
    have hblocks : Follows step (fun bs => bs.flatMap Statement.walkBlock)
        (fun bs => bs.mapM step.visitBlock) s.blocks :=
      .all fun b hb => visitBlock_follows_of fun s' hs => ih _ (Statement.sizeOf_lt hb hs) s' rfl
    obtain ⟨hstate, hlist⟩ := hblocks (step s x).2
    have hlength : (s.blocks.mapM step.visitBlock (step s x).2).1.length =
        (step s x).1.1.blocks.length := by
      rw [mapM_length_run, (step s x).1.2]
    obtain ⟨hnew, hhead⟩ := Statement.withBlocks_spec hlength
    rw [visitAll_run, Statement.walk_eq (Statement.withBlocks ..), hnew, s.walk_eq]
    simp only [mapM_cons_run, result, stateM_map, List.map_cons, hhead]
    exact ⟨hstate, congrArg _ hlist⟩

theorem visitBlock_follows (step : Visit σ) (b : List Statement) :
    Follows step Statement.walkBlock step.visitBlock b :=
  visitBlock_follows_of fun s _ => visitAll_follows step s

-- ---------------------------------------------------------------------------
-- Streams of statements
-- ---------------------------------------------------------------------------

/-- Changes the names of the streams that a statement itself writes to. -/
def streams (step : String → StateM σ String) : Visit σ
  | .action a l => do
    let a ← a.visitStreams step
    return ⟨.action a l, rfl⟩
  | s => return ⟨s, rfl⟩

/-- What becomes of the actions becomes of all statements. -/
theorem streams_map {step : String → StateM σ String} {f f' : Action → Action}
    (h : ∀ a x, f (a.visitStreams step x).1 = f' a) (s : Statement) (x : σ) :
    ((streams step).visitAll s x).1.map f id = s.map f' id := by
  induction hn : sizeOf s using Nat.strongRecOn generalizing s x with
  | ind n ih =>
    subst hn
    have hblock (b : List Statement) (hb : b ∈ s.blocks) (y : σ) :
        Statement.mapBlock f id ((streams step).visitBlock b y).1 = Statement.mapBlock f' id b := by
      rw [Statement.mapBlock_eq_map, Statement.mapBlock_eq_map]
      exact map_mapM_run (fun s' hs y => ih _ (Statement.sizeOf_lt hb hs) s' y rfl) y
    have hlength : (s.blocks.mapM (streams step).visitBlock (streams step s x).2).1.length =
        (streams step s x).1.1.blocks.length := by
      rw [mapM_length_run, (streams step s x).1.2]
    obtain ⟨hnew, hhead⟩ := Statement.withBlocks_spec hlength
    rw [visitAll_run]
    apply Statement.eq_of_head_blocks
    · rw [Statement.head_map, hhead, ← Statement.head_map]
      cases s with
      | action a l => exact congrArg (Statement.action · l) (h a x)
      | conditional c u body elifs otherwise l =>
        simp [streams, Statement.map, Statement.head, Statement.mapBranches_eq,
          Statement.mapOtherwise_eq, Function.comp_def]
      | _ => rfl
    · rw [Statement.blocks_map, Statement.blocks_map, hnew]
      exact map_mapM_run hblock _

end Visit

namespace Statement

/-- Renames the streams that the statement itself writes to. -/
def mapOwnStreams (f : String → String) : Statement → Statement
  | .action a l => .action (a.mapStreams f) l
  | s => s

theorem visitStreams_traverses (σ : Type) :
    Traverses σ streamNames mapOwnStreams fun step => (Visit.streams step).result where
  visited step s x := by
    cases s with
    | action a l => exact (a.visitStreams_run step x).1
    | _ => rfl
  rest step s x := by
    cases s with
    | action a l => exact congrArg (action · l) (a.visitStreams_run step x).2
    | _ => rfl
  renamed f s x := by
    cases s with
    | action a l =>
      exact congrArg (fun r => (action r.1 l, r.2)) (a.visitStreams_pure f x)
    | _ => rfl
  names_rename f s := by
    cases s with
    | action a l => exact a.streamNames_mapStreams f
    | _ => rfl
  rename_rename f g s := by
    cases s with
    | action a l => exact congrArg (action · l) (a.mapStreams_mapStreams f g)
    | _ => rfl
  rename_id s := by
    cases s with
    | action a l => exact congrArg (action · l) a.mapStreams_id
    | _ => rfl

/-- Through a block, the step is taken for the streams of the block, in their order. -/
theorem visitBlock_visited (step : String → StateM σ String) (b : List Statement) (x : σ) :
    (blockStreamNames b).mapM step x =
      (blockStreamNames ((Visit.streams step).visitBlock b x).1, ((Visit.streams step).visitBlock b x).2) := by
  obtain ⟨hstate, hlist⟩ := (Visit.streams step).visitBlock_follows b x
  have hnames := (visitStreams_traverses σ).visited_all step (walkBlock b) x
  have hsame := congrArg (List.flatMap streamNames) hlist
  simp only [List.flatMap_map, streamNames_head] at hsame
  exact hnames.trans (Prod.ext hsame hstate)

mutual

theorem map_id : (s : Statement) → s.map id id = s
  | .action .. => rfl
  | .conditional _ _ body elifs otherwise _ => by
    simp [map, mapBlock_id body, mapBranches_id elifs, mapOtherwise_id otherwise]
  | .loop init _ update body _ => by
    simp [map, mapBlock_id init, mapBlock_id update, mapBlock_id body]
  | .forEach _ body _ => by simp [map, mapBlock_id body]
  | .strictTiming body _ => by simp [map, mapBlock_id body]

theorem mapBlock_id : (b : List Statement) → mapBlock id id b = b
  | [] => rfl
  | s :: rest => by simp [mapBlock, map_id s, mapBlock_id rest]

theorem mapBranches_id : (elifs : List (Branch Statement)) → mapBranches id id elifs = elifs
  | [] => rfl
  | ⟨_, body, _⟩ :: rest => by simp [mapBranches, mapBlock_id body, mapBranches_id rest]

theorem mapOtherwise_id : (otherwise : Option (List Statement)) → mapOtherwise id id otherwise = otherwise
  | none => rfl
  | some body => by simp [mapOtherwise, mapBlock_id body]

end

/-- A step without a state renames the streams of a block. -/
theorem visitBlock_renamed (f : String → String) (b : List Statement) (x : σ) :
    (Visit.streams fun name => pure (f name)).visitBlock b x = (mapBlockStreams f b, x) := by
  have hnames := visitBlock_visited (fun name => (pure (f name) : StateM σ String)) b x
  rw [mapM_pure_run] at hnames
  refine Prod.ext ?_ (congrArg Prod.snd hnames).symm
  rw [mapBlockStreams, mapBlock_eq_map, ← List.map_id (Visit.visitBlock _ b x).1]
  refine map_mapM_run (fun s _ y => ?_) x
  rw [id_eq, ← map_id (Visit.visitAll _ s y).1]
  exact Visit.streams_map (fun a y => congrArg Prod.fst (a.visitStreams_pure f y)) s y

theorem visitBlock_traverses (σ : Type) :
    Traverses σ blockStreamNames mapBlockStreams fun step => (Visit.streams step).visitBlock where
  visited := visitBlock_visited
  rest step b x := by
    rw [mapBlockStreams, mapBlockStreams, mapBlock_eq_map, mapBlock_eq_map]
    exact map_mapM_run (fun s _ => Visit.streams_map (fun a y => (a.visitStreams_run step y).2) s) x
  renamed := visitBlock_renamed
  names_rename f b := blockStreamNames_mapBlock f id b
  rename_rename f g b := by
    rw [mapBlockStreams, mapBlockStreams, mapBlock_mapBlock, mapBlockStreams]
    congr 1
    exact funext fun a => a.mapStreams_mapStreams f g
  rename_id b := by
    rw [mapBlockStreams, show Action.mapStreams id = id from funext Action.mapStreams_id, mapBlock_id]

end Statement

/-- The traversals in place agree with those that only read. Whatever its step, the one through a block takes
it for the statements of the walk, in their order, and leaves there what the step has made of them. The ones
that change names take their step for the streams of a statement, the sources of a token of any shape, or the
streams of all statements of a block. -/
theorem traversals_agree (σ : Type) :
    (∀ (step : Visit σ) (b : List Statement), step.Follows Statement.walkBlock step.visitBlock b) ∧
    Traverses σ Statement.streamNames Statement.mapOwnStreams (fun step => (Visit.streams step).result) ∧
    Traverses σ StreamToken.sourceNames StreamToken.mapSources StreamToken.visitSources ∧
    Traverses σ Statement.blockStreamNames Statement.mapBlockStreams
      (fun step => (Visit.streams step).visitBlock) :=
  ⟨Visit.visitBlock_follows, Statement.visitStreams_traverses σ, StreamToken.visitSources_traverses σ,
    Statement.visitBlock_traverses σ⟩

end Qua
