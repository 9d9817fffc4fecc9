import Qua.Proofs.Renaming

/-!
# Names of streams in place

A traversal in place changes the names of streams where they stand, by a step that keeps a state. It tells
a source by a test of the list and then changes its last item. Main statement: on tokens of every shape it
takes its step for the names that are listed, in their order, and changes nothing else.
-/

namespace Qua

variable {σ α β γ : Type}

-- ---------------------------------------------------------------------------
-- Steps with a state
-- ---------------------------------------------------------------------------

namespace InPlace

theorem stateM_bind (m : StateM σ α) (f : α → StateM σ β) (x : σ) : (m >>= f) x = f (m x).1 (m x).2 := rfl

@[simp] theorem stateM_pure (a : α) (x : σ) : (pure a : StateM σ α) x = (a, x) := rfl

theorem stateM_map (f : α → β) (m : StateM σ α) (x : σ) : (f <$> m) x = (f (m x).1, (m x).2) := rfl

theorem mapM_nil_run (f : α → StateM σ β) (x : σ) : ([].mapM f) x = ([], x) := rfl

theorem mapM_cons_run (f : α → StateM σ β) (a : α) (as : List α) (x : σ) :
    ((a :: as).mapM f) x =
      ((f a x).1 :: (as.mapM f (f a x).2).1, (as.mapM f (f a x).2).2) := by
  rw [List.mapM_cons]
  rfl

theorem mapM_append_run (f : α → StateM σ β) (as bs : List α) (x : σ) :
    ((as ++ bs).mapM f) x =
      ((as.mapM f x).1 ++ (bs.mapM f (as.mapM f x).2).1, (bs.mapM f (as.mapM f x).2).2) := by
  rw [List.mapM_append]
  rfl

theorem mapM_length_run (f : α → StateM σ β) (as : List α) (x : σ) :
    (as.mapM f x).1.length = as.length := by
  induction as generalizing x with
  | nil => rfl
  | cons a as ih => simp [mapM_cons_run, ih]

theorem mapM_pure_run (f : α → β) (as : List α) (x : σ) :
    (as.mapM fun a => (pure (f a) : StateM σ β)) x = (as.map f, x) := by
  induction as with
  | nil => rfl
  | cons a as ih => simp [mapM_cons_run, ih]

theorem map_mapM_run {run : α → StateM σ α} {e e' : α → β} {as : List α}
    (h : ∀ a ∈ as, ∀ x, e (run a x).1 = e' a) (x : σ) : (as.mapM run x).1.map e = as.map e' := by
  induction as generalizing x with
  | nil => rfl
  | cons a as ih =>
    obtain ⟨ha, has⟩ := List.forall_mem_cons.mp h
    rw [mapM_cons_run, List.map_cons, List.map_cons, ha, ih has]

end InPlace

open InPlace

/-- A traversal in place, next to the ones that list the names and that rename them: its step is taken for the
names that are listed, in their order, and its results are the names afterwards; nothing else changes. If the
step is a function, the names are renamed by it, which can be undone by a function. -/
structure Traverses (σ : Type) (names : α → List String) (rename : (String → String) → α → α)
    (visit : (String → StateM σ String) → α → StateM σ α) : Prop where
  visited : ∀ (step : String → StateM σ String) (a : α) (x : σ),
    (names a).mapM step x = (names (visit step a x).1, (visit step a x).2)
  rest : ∀ step a x, rename (fun _ => "") (visit step a x).1 = rename (fun _ => "") a
  renamed : ∀ f a x, visit (fun name => pure (f name)) a x = (rename f a, x)
  names_rename : ∀ f a, names (rename f a) = (names a).map f
  rename_rename : ∀ f g a, rename g (rename f a) = rename (g ∘ f) a
  rename_id : ∀ a, rename id a = a

/-- Item by item, the step is taken for the names of a whole list. -/
theorem Traverses.visited_all {names : α → List String} {rename : (String → String) → α → α}
    {visit : (String → StateM σ String) → α → StateM σ α} (h : Traverses σ names rename visit)
    (step : String → StateM σ String) (as : List α) (x : σ) :
    (as.flatMap names).mapM step x =
      ((as.mapM (visit step) x).1.flatMap names, (as.mapM (visit step) x).2) := by
  induction as generalizing x with
  | nil => rfl
  | cons a as ih =>
    simp only [List.flatMap_cons, mapM_append_run, mapM_cons_run, h.visited step a x, ih]

-- ---------------------------------------------------------------------------
-- Stream tokens
-- ---------------------------------------------------------------------------

namespace StreamToken

/-- Whether the items of a list are those of a source. -/
def isSource : List StreamToken → Bool
  | [.atom symbol, _, .atom _] => symbol == sourceSymbol
  | _ => false

/-- Changes the last item, if it is an atom. -/
def visitLast (step : String → StateM σ String) : List StreamToken → StateM σ (List StreamToken)
  | [] => return []
  | [.atom name] => return [.atom (← step name)]
  | [.list items] => return [.list items]
  | token :: rest => return token :: (← visitLast step rest)

mutual

/-- Changes the names of the sources, from left to right. -/
def visitSources (step : String → StateM σ String) : StreamToken → StateM σ StreamToken
  | .atom value => return .atom value
  | .list items => do
    if isSource items then return .list (← visitLast step items)
    else return .list (← visitSourcesOfItems step items)

def visitSourcesOfItems (step : String → StateM σ String) :
    List StreamToken → StateM σ (List StreamToken)
  | [] => return []
  | token :: rest => return (← visitSources step token) :: (← visitSourcesOfItems step rest)

end

theorem isSource_iff {items : List StreamToken} :
    isSource items ↔ ∃ mode name, items = [.atom sourceSymbol, mode, .atom name] := by
  constructor
  · intro h
    unfold isSource at h
    split at h
    · next symbol mode name =>
      obtain rfl := beq_iff_eq.mp h
      exact ⟨mode, name, rfl⟩
    · contradiction
  · rintro ⟨mode, name, rfl⟩
    rfl

theorem sourceNames_of_not {items : List StreamToken} (h : isSource items = false) :
    sourceNames (.list items) = sourceNamesOfItems items := by
  rw [sourceNames.eq_def]
  split
  · contradiction
  · next symbol mode name e =>
    obtain rfl := list.inj e
    have hs : symbol ≠ sourceSymbol := by simpa [isSource] using h
    simp [sourceNamesOfItems, hs, sourceNames]
  · next e => rw [list.inj e]

theorem mapSources_of_not {items : List StreamToken} (f : String → String) (h : isSource items = false) :
    mapSources f (.list items) = .list (mapSourcesOfItems f items) := by
  rw [mapSources.eq_def]
  split
  · contradiction
  · next symbol mode name e =>
    obtain rfl := list.inj e
    have hs : symbol ≠ sourceSymbol := by simpa [isSource] using h
    simp [mapSourcesOfItems, hs, mapSources]
  · next e => rw [list.inj e]

/-- Whether a list is a source does not depend on the names in it. -/
theorem isSource_mapSourcesOfItems (f : String → String) (items : List StreamToken) :
    isSource (mapSourcesOfItems f items) = isSource items := by
  rw [Bool.eq_iff_iff, isSource_iff, isSource_iff]
  match items with
  | [] => simp [mapSourcesOfItems]
  | [_] => simp [mapSourcesOfItems]
  | [_, _] => simp [mapSourcesOfItems]
  | [a, b, c] => simp [mapSourcesOfItems, mapSources_eq_atom]
  | _ :: _ :: _ :: _ :: _ => simp [mapSourcesOfItems]

theorem visitSources_source (step : String → StateM σ String) (mode : StreamToken) (name : String)
    (x : σ) :
    visitSources step (.list [.atom sourceSymbol, mode, .atom name]) x =
      (.list [.atom sourceSymbol, mode, .atom (step name x).1], (step name x).2) := by
  have h : isSource [.atom sourceSymbol, mode, .atom name] = true := rfl
  rw [visitSources, if_pos h]
  cases mode <;> rfl

theorem visitSources_of_not (step : String → StateM σ String) {items : List StreamToken}
    (h : isSource items = false) (x : σ) :
    visitSources step (.list items) x =
      (.list (visitSourcesOfItems step items x).1, (visitSourcesOfItems step items x).2) := by
  rw [visitSources, if_neg (by simp [h])]
  rfl

theorem visitSourcesOfItems_cons (step : String → StateM σ String) (t : StreamToken)
    (rest : List StreamToken) (x : σ) :
    visitSourcesOfItems step (t :: rest) x =
      ((visitSources step t x).1 :: (visitSourcesOfItems step rest (visitSources step t x).2).1,
        (visitSourcesOfItems step rest (visitSources step t x).2).2) := by
  rw [visitSourcesOfItems]
  rfl

mutual

theorem visitSources_run (step : String → StateM σ String) : (t : StreamToken) → (x : σ) →
    t.sourceNames.mapM step x = ((visitSources step t x).1.sourceNames, (visitSources step t x).2) ∧
      (visitSources step t x).1.mapSources (fun _ => "") = t.mapSources fun _ => ""
  | .atom value, x => by
    rw [visitSources]
    exact ⟨rfl, rfl⟩
  | .list items, x => by
    cases h : isSource items with
    | true =>
      obtain ⟨mode, name, rfl⟩ := isSource_iff.mp h
      rw [visitSources_source]
      simp [sourceNames, mapSources, mapM_cons_run, mapM_nil_run]
    | false =>
      obtain ⟨hnames, hrest⟩ := visitSourcesOfItems_run step items x
      -- the items are still not those of a source
      have h' : isSource (visitSourcesOfItems step items x).1 = false := by
        rw [← isSource_mapSourcesOfItems fun _ => "", hrest, isSource_mapSourcesOfItems, h]
      rw [visitSources_of_not step h, sourceNames_of_not h, sourceNames_of_not h',
        mapSources_of_not _ h', hrest, mapSources_of_not _ h]
      exact ⟨hnames, rfl⟩

theorem visitSourcesOfItems_run (step : String → StateM σ String) :
    (items : List StreamToken) → (x : σ) →
    (sourceNamesOfItems items).mapM step x =
        (sourceNamesOfItems (visitSourcesOfItems step items x).1,
          (visitSourcesOfItems step items x).2) ∧
      mapSourcesOfItems (fun _ => "") (visitSourcesOfItems step items x).1 =
        mapSourcesOfItems (fun _ => "") items
  | [], x => by
    rw [visitSourcesOfItems]
    exact ⟨rfl, rfl⟩
  | t :: rest, x => by
    obtain ⟨hnames, hrest⟩ := visitSources_run step t x
    obtain ⟨hnames', hrest'⟩ := visitSourcesOfItems_run step rest (visitSources step t x).2
    rw [visitSourcesOfItems_cons]
    simp only [sourceNamesOfItems, mapSourcesOfItems, mapM_append_run, hnames, hnames', hrest', true_and]
    exact congrArg (· :: _) hrest

end

mutual

/-- A step without a state renames the sources. -/
theorem visitSources_pure (f : String → String) : (t : StreamToken) → (x : σ) →
    visitSources (fun name => pure (f name)) t x = (t.mapSources f, x)
  | .atom value, x => by
    rw [visitSources, mapSources]
    rfl
  | .list items, x => by
    cases h : isSource items with
    | true =>
      obtain ⟨mode, name, rfl⟩ := isSource_iff.mp h
      rw [visitSources_source]
      simp [mapSources]
    | false => rw [visitSources_of_not _ h, mapSources_of_not f h, visitSourcesOfItems_pure f items x]

theorem visitSourcesOfItems_pure (f : String → String) : (items : List StreamToken) → (x : σ) →
    visitSourcesOfItems (fun name => pure (f name)) items x = (mapSourcesOfItems f items, x)
  | [], x => by
    rw [visitSourcesOfItems, mapSourcesOfItems]
    rfl
  | t :: rest, x => by
    rw [visitSourcesOfItems_cons, visitSources_pure f t x, visitSourcesOfItems_pure f rest x,
      mapSourcesOfItems]

end

theorem visitSources_traverses (σ : Type) :
    Traverses σ sourceNames mapSources visitSources where
  visited step t x := (visitSources_run step t x).1
  rest step t x := (visitSources_run step t x).2
  renamed := visitSources_pure
  names_rename := sourceNames_mapSources
  rename_rename := mapSources_mapSources
  rename_id := mapSources_id

end StreamToken
-- ---------------------------------------------------------------------------
-- Actions
-- ---------------------------------------------------------------------------

namespace Action

/-- Changes the names of the streams that the action writes to. -/
def visitStreams (step : String → StateM σ String) : Action → StateM σ Action
  | .play p => return .play { p with timestampStream := ← p.timestampStream.mapM step }
  | .measure m => do
    let stream ← m.stream.mapM step
    let timestampStream ← m.timestampStream.mapM step
    return .measure { m with stream, timestampStream }
  | .save source stream => return .save source (← step stream)
  | action => return action

theorem visitStreams_run (step : String → StateM σ String) (a : Action) (x : σ) :
    a.streamNames.mapM step x = ((visitStreams step a x).1.streamNames, (visitStreams step a x).2) ∧
      (visitStreams step a x).1.mapStreams (fun _ => "") = a.mapStreams fun _ => "" := by
  cases a with
  | play p =>
    cases h : p.timestampStream <;>
      simp [visitStreams, streamNames, mapStreams, h, mapM_nil_run, mapM_cons_run, stateM_bind, stateM_map]
  | measure m =>
    cases h : m.stream <;> cases h' : m.timestampStream <;>
      simp [visitStreams, streamNames, mapStreams, h, h', mapM_nil_run, mapM_cons_run, stateM_bind, stateM_map]
  | save source stream =>
    simp [visitStreams, streamNames, mapStreams, mapM_nil_run, mapM_cons_run, stateM_bind]
  | _ => simp [visitStreams, streamNames, mapM_nil_run]

/-- A step without a state renames the streams. -/
theorem visitStreams_pure (f : String → String) (a : Action) (x : σ) :
    visitStreams (fun name => pure (f name)) a x = (a.mapStreams f, x) := by
  cases a with
  | play p => cases h : p.timestampStream <;> simp [visitStreams, mapStreams, h, stateM_bind]
  | measure m =>
    cases h : m.stream <;> cases h' : m.timestampStream <;>
      simp [visitStreams, mapStreams, h, h', stateM_bind]
  | _ => simp [visitStreams, mapStreams, stateM_bind]

end Action

end Qua
