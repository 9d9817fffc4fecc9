import Qua.Proofs.Sameness

/-!
# Renaming streams

The traversals that list the streams of a program and those that rename them visit the same
occurrences: after renaming, the names are the renamed ones in the same order, and the result
depends only on what becomes of the names that occur.
-/

namespace Qua

-- ---------------------------------------------------------------------------
-- Stream tokens
-- ---------------------------------------------------------------------------

namespace StreamToken

theorem mapSources_eq_atom {t : StreamToken} : t.mapSources f = .atom value ↔ t = .atom value := by
  cases t with
  | atom => simp [mapSources]
  | list items =>
    by_cases h : ∃ symbol mode name, items = [.atom symbol, mode, .atom name]
    · obtain ⟨symbol, mode, name, rfl⟩ := h
      rw [mapSources]
      split <;> simp
    · rw [mapSources]
      · simp
      · exact fun symbol mode name e => h ⟨symbol, mode, name, e⟩

/-- Renaming items gives the shape of a source only to items that have it. -/
theorem mapSourcesOfItems_shape {items : List StreamToken}
    (h : ∀ symbol mode name, items = [.atom symbol, mode, .atom name] → False)
    (symbol : String) (mode : StreamToken) (name : String) :
    mapSourcesOfItems f items = [.atom symbol, mode, .atom name] → False := by
  intro e
  match items with
  | [] => simp [mapSourcesOfItems] at e
  | [_] => simp [mapSourcesOfItems] at e
  | [_, _] => simp [mapSourcesOfItems] at e
  | [a, b, c] =>
    simp only [mapSourcesOfItems, List.cons.injEq, mapSources_eq_atom, and_true] at e
    obtain ⟨rfl, -, rfl⟩ := e
    exact h _ _ _ rfl
  | _ :: _ :: _ :: _ :: _ => simp [mapSourcesOfItems] at e

theorem sourceNames_mapSources (f : String → String) (t : StreamToken) :
    (t.mapSources f).sourceNames = t.sourceNames.map f := by
  induction t using mapSources.induct
    (motive_2 := fun items =>
      sourceNamesOfItems (mapSourcesOfItems f items) = (sourceNamesOfItems items).map f) with
  | case1 value => rfl
  | case2 mode name => simp [mapSources, sourceNames]
  | case3 symbol mode name hs ih => simp [mapSources, sourceNames, hs, ih]
  | case4 items h ih =>
    rw [mapSources, sourceNames, sourceNames, ih]
    · exact h
    · exact mapSourcesOfItems_shape h
    · exact h
  | case5 => rfl
  | case6 token rest ih ihr => simp [mapSourcesOfItems, sourceNamesOfItems, ih, ihr]

theorem mapSources_congr (t : StreamToken) (h : ∀ name ∈ t.sourceNames, f name = g name) :
    t.mapSources f = t.mapSources g := by
  induction t using mapSources.induct
    (motive_2 := fun items => (∀ name ∈ sourceNamesOfItems items, f name = g name) →
      mapSourcesOfItems f items = mapSourcesOfItems g items) with
  | case1 value => rfl
  | case2 mode name => simp_all [mapSources, sourceNames]
  | case3 symbol mode name hs ih => simp_all [mapSources, sourceNames]
  | case4 items hn ih =>
    rw [sourceNames] at h
    · rw [mapSources, mapSources, ih h] <;> exact hn
    · exact hn
  | case5 _ => rfl
  | case6 token rest ih ihr h =>
    simp only [sourceNamesOfItems, List.mem_append] at h
    simp only [mapSourcesOfItems]
    rw [ih fun name hm => h name (.inl hm), ihr fun name hm => h name (.inr hm)]

theorem mapSources_mapSources (f g : String → String) (t : StreamToken) :
    (t.mapSources f).mapSources g = t.mapSources (g ∘ f) := by
  induction t using mapSources.induct
    (motive_2 := fun items =>
      mapSourcesOfItems g (mapSourcesOfItems f items) = mapSourcesOfItems (g ∘ f) items) with
  | case1 value => rfl
  | case2 mode name => simp [mapSources]
  | case3 symbol mode name hs ih => simp [mapSources, hs, ih]
  | case4 items h ih =>
    rw [mapSources, mapSources, mapSources, ih]
    · exact h
    · exact mapSourcesOfItems_shape h
    · exact h
  | case5 => rfl
  | case6 token rest ih ihr => simp [mapSourcesOfItems, ih, ihr]

theorem mapSources_id (t : StreamToken) : t.mapSources id = t := by
  induction t using mapSources.induct
    (motive_2 := fun items => mapSourcesOfItems id items = items) with
  | case1 value => rfl
  | case2 mode name => simp [mapSources]
  | case3 symbol mode name hs ih => simp [mapSources, hs, ih]
  | case4 items h ih =>
    rw [mapSources, ih]
    exact h
  | case5 => rfl
  | case6 token rest ih ihr => simp [mapSourcesOfItems, ih, ihr]

end StreamToken

-- ---------------------------------------------------------------------------
-- Actions
-- ---------------------------------------------------------------------------

namespace Action

theorem streamNames_mapStreams (f : String → String) (a : Action) :
    (a.mapStreams f).streamNames = a.streamNames.map f := by
  cases a with
  | play p => cases h : p.timestampStream <;> simp [mapStreams, streamNames, h]
  | measure m =>
    cases h : m.timestampStream <;> cases h' : m.stream <;>
      simp [mapStreams, streamNames, h, h']
  | _ => simp [mapStreams, streamNames]

theorem mapStreams_congr (a : Action) (h : ∀ name ∈ a.streamNames, f name = g name) :
    a.mapStreams f = a.mapStreams g := by
  cases a with
  | play p => cases hp : p.timestampStream <;> simp_all [mapStreams, streamNames]
  | measure m =>
    cases hm : m.timestampStream <;> cases hm' : m.stream <;> simp_all [mapStreams, streamNames]
  | save => simp_all [mapStreams, streamNames]
  | _ => rfl

theorem mapStreams_mapStreams (f g : String → String) (a : Action) :
    (a.mapStreams f).mapStreams g = a.mapStreams (g ∘ f) := by
  cases a <;> simp [mapStreams, Function.comp_def]

theorem mapStreams_id (a : Action) : a.mapStreams id = a := by
  cases a <;> simp [mapStreams]

theorem mapExpressions_mapStreams (e : Expression → Expression) (f : String → String)
    (a : Action) : (a.mapStreams f).mapExpressions e = (a.mapExpressions e).mapStreams f := by
  cases a <;> rfl

theorem streamNames_mapExpressions (e : Expression → Expression) (a : Action) :
    (a.mapExpressions e).streamNames = a.streamNames := by
  cases a <;> rfl

end Action

-- ---------------------------------------------------------------------------
-- Blocks
-- ---------------------------------------------------------------------------

namespace Statement

theorem mapBlock_eq_map (f : Action → Action) (g : String → String) (block : List Statement) :
    mapBlock f g block = block.map (map f g) := by
  induction block with
  | nil => rfl
  | cons s block ih => rw [mapBlock, ih, List.map_cons]

mutual
theorem walk_map_names {r : String → String} (g : String → String)
    (h : ∀ a : Action, (f a).streamNames = a.streamNames.map r) : (s : Statement) →
    ((s.map f g).walk.flatMap streamNames) = (s.walk.flatMap streamNames).map r
  | .action a _ => by simp [map, walk, streamNames, h]
  | .conditional _ _ body elifs otherwise _ => by
    simp [map, walk, streamNames, walkBlock_map_names g h body, walkBranches_map_names g h elifs,
      walkOtherwise_map_names g h otherwise]
  | .loop init _ update body _ => by
    simp [map, walk, streamNames, walkBlock_map_names g h init, walkBlock_map_names g h update,
      walkBlock_map_names g h body]
  | .forEach _ body _ => by simp [map, walk, streamNames, walkBlock_map_names g h body]
  | .strictTiming body _ => by simp [map, walk, streamNames, walkBlock_map_names g h body]
theorem walkBlock_map_names {r : String → String} (g : String → String)
    (h : ∀ a : Action, (f a).streamNames = a.streamNames.map r) : (b : List Statement) →
    ((walkBlock (mapBlock f g b)).flatMap streamNames) = ((walkBlock b).flatMap streamNames).map r
  | [] => rfl
  | s :: rest => by
    simp [mapBlock, walkBlock, walk_map_names g h s, walkBlock_map_names g h rest]
theorem walkBranches_map_names {r : String → String} (g : String → String)
    (h : ∀ a : Action, (f a).streamNames = a.streamNames.map r) : (b : List (Branch Statement)) →
    ((walkBranches (mapBranches f g b)).flatMap streamNames) =
      ((walkBranches b).flatMap streamNames).map r
  | [] => rfl
  | ⟨_, body, _⟩ :: rest => by
    simp [mapBranches, walkBranches, walkBlock_map_names g h body, walkBranches_map_names g h rest]
theorem walkOtherwise_map_names {r : String → String} (g : String → String)
    (h : ∀ a : Action, (f a).streamNames = a.streamNames.map r) :
    (b : Option (List Statement)) →
    ((walkOtherwise (mapOtherwise f g b)).flatMap streamNames) =
      ((walkOtherwise b).flatMap streamNames).map r
  | none => rfl
  | some body => by simp [mapOtherwise, walkOtherwise, walkBlock_map_names g h body]
end

/-- Renaming the streams of a block renames the list of their occurrences. -/
theorem blockStreamNames_mapBlock (f g : String → String) (b : List Statement) :
    blockStreamNames (mapBlock (Action.mapStreams f) g b) = (blockStreamNames b).map f :=
  walkBlock_map_names g (Action.streamNames_mapStreams f) b

mutual
theorem map_congr (l : String → String) : (s : Statement) →
    (∀ name ∈ s.walk.flatMap streamNames, f name = g name) →
    s.map (Action.mapStreams f) l = s.map (Action.mapStreams g) l
  | .action a _, h => by
    have ha : a.mapStreams f = a.mapStreams g :=
      a.mapStreams_congr (by simpa [walk, streamNames] using h)
    simp [map, ha]
  | .conditional _ _ body elifs otherwise _, h => by
    simp only [walk, streamNames, List.flatMap_cons, List.flatMap_append, List.mem_append] at h
    simp only [map]
    rw [mapBlock_congr l body fun n hn => h n (by simp [hn]),
      mapBranches_congr l elifs fun n hn => h n (by simp [hn]),
      mapOtherwise_congr l otherwise fun n hn => h n (by simp [hn])]
  | .loop init _ update body _, h => by
    simp only [walk, streamNames, List.flatMap_cons, List.flatMap_append, List.mem_append] at h
    simp only [map]
    rw [mapBlock_congr l init fun n hn => h n (by simp [hn]),
      mapBlock_congr l update fun n hn => h n (by simp [hn]),
      mapBlock_congr l body fun n hn => h n (by simp [hn])]
  | .forEach _ body _, h => by
    simp only [map]
    rw [mapBlock_congr l body fun n hn => h n (by simpa [walk, streamNames] using hn)]
  | .strictTiming body _, h => by
    simp only [map]
    rw [mapBlock_congr l body fun n hn => h n (by simpa [walk, streamNames] using hn)]
theorem mapBlock_congr (l : String → String) : (b : List Statement) →
    (∀ name ∈ (walkBlock b).flatMap streamNames, f name = g name) →
    mapBlock (Action.mapStreams f) l b = mapBlock (Action.mapStreams g) l b
  | [], _ => rfl
  | s :: rest, h => by
    simp only [walkBlock, List.flatMap_append, List.mem_append] at h
    simp only [mapBlock]
    rw [map_congr l s fun n hn => h n (.inl hn), mapBlock_congr l rest fun n hn => h n (.inr hn)]
theorem mapBranches_congr (l : String → String) : (b : List (Branch Statement)) →
    (∀ name ∈ (walkBranches b).flatMap streamNames, f name = g name) →
    mapBranches (Action.mapStreams f) l b = mapBranches (Action.mapStreams g) l b
  | [], _ => rfl
  | ⟨_, body, _⟩ :: rest, h => by
    simp only [walkBranches, List.flatMap_append, List.mem_append] at h
    simp only [mapBranches]
    rw [mapBlock_congr l body fun n hn => h n (.inl hn),
      mapBranches_congr l rest fun n hn => h n (.inr hn)]
theorem mapOtherwise_congr (l : String → String) : (b : Option (List Statement)) →
    (∀ name ∈ (walkOtherwise b).flatMap streamNames, f name = g name) →
    mapOtherwise (Action.mapStreams f) l b = mapOtherwise (Action.mapStreams g) l b
  | none, _ => rfl
  | some body, h => by
    simp only [mapOtherwise]
    rw [mapBlock_congr l body h]
end

mutual
theorem map_map (f f' : Action → Action) (g g' : String → String) : (s : Statement) →
    (s.map f g).map f' g' = s.map (f' ∘ f) (g' ∘ g)
  | .action _ _ => rfl
  | .conditional _ _ body elifs otherwise _ => by
    simp [map, mapBlock_mapBlock f f' g g' body, mapBranches_mapBranches f f' g g' elifs,
      mapOtherwise_mapOtherwise f f' g g' otherwise]
  | .loop init _ update body _ => by
    simp [map, mapBlock_mapBlock f f' g g' init, mapBlock_mapBlock f f' g g' update,
      mapBlock_mapBlock f f' g g' body]
  | .forEach _ body _ => by simp [map, mapBlock_mapBlock f f' g g' body]
  | .strictTiming body _ => by simp [map, mapBlock_mapBlock f f' g g' body]
theorem mapBlock_mapBlock (f f' : Action → Action) (g g' : String → String) :
    (b : List Statement) →
    mapBlock f' g' (mapBlock f g b) = mapBlock (f' ∘ f) (g' ∘ g) b
  | [] => rfl
  | s :: rest => by simp [mapBlock, map_map f f' g g' s, mapBlock_mapBlock f f' g g' rest]
theorem mapBranches_mapBranches (f f' : Action → Action) (g g' : String → String) :
    (b : List (Branch Statement)) →
    mapBranches f' g' (mapBranches f g b) = mapBranches (f' ∘ f) (g' ∘ g) b
  | [] => rfl
  | ⟨_, body, _⟩ :: rest => by
    simp [mapBranches, mapBlock_mapBlock f f' g g' body, mapBranches_mapBranches f f' g g' rest]
theorem mapOtherwise_mapOtherwise (f f' : Action → Action) (g g' : String → String) :
    (b : Option (List Statement)) →
    mapOtherwise f' g' (mapOtherwise f g b) = mapOtherwise (f' ∘ f) (g' ∘ g) b
  | none => rfl
  | some body => by simp [mapOtherwise, mapBlock_mapBlock f f' g g' body]
end

mutual
/-- Taking representatives commutes with every change of actions with which it commutes. -/
theorem represented_map (g : String → String)
    (h : ∀ a : Action, (f a).mapExpressions .represented = f (a.mapExpressions .represented)) :
    (s : Statement) → (s.map f g).represented = s.represented.map f g
  | .action a _ => by simp [map, represented, h]
  | .conditional _ _ body elifs otherwise _ => by
    simp [map, represented, representedBlock_mapBlock g h body,
      representedBranches_mapBranches g h elifs, representedOtherwise_mapOtherwise g h otherwise]
  | .loop init _ update body _ => by
    simp [map, represented, representedBlock_mapBlock g h init,
      representedBlock_mapBlock g h update, representedBlock_mapBlock g h body]
  | .forEach _ body _ => by simp [map, represented, representedBlock_mapBlock g h body]
  | .strictTiming body _ => by simp [map, represented, representedBlock_mapBlock g h body]
theorem representedBlock_mapBlock (g : String → String)
    (h : ∀ a : Action, (f a).mapExpressions .represented = f (a.mapExpressions .represented)) :
    (b : List Statement) → representedBlock (mapBlock f g b) = mapBlock f g (representedBlock b)
  | [] => rfl
  | s :: rest => by
    simp [mapBlock, representedBlock, represented_map g h s, representedBlock_mapBlock g h rest]
theorem representedBranches_mapBranches (g : String → String)
    (h : ∀ a : Action, (f a).mapExpressions .represented = f (a.mapExpressions .represented)) :
    (b : List (Branch Statement)) →
    representedBranches (mapBranches f g b) = mapBranches f g (representedBranches b)
  | [] => rfl
  | ⟨_, body, _⟩ :: rest => by
    simp [mapBranches, representedBranches, representedBlock_mapBlock g h body,
      representedBranches_mapBranches g h rest]
theorem representedOtherwise_mapOtherwise (g : String → String)
    (h : ∀ a : Action, (f a).mapExpressions .represented = f (a.mapExpressions .represented)) :
    (b : Option (List Statement)) →
    representedOtherwise (mapOtherwise f g b) = mapOtherwise f g (representedOtherwise b)
  | none => rfl
  | some body => by
    simp [mapOtherwise, representedOtherwise, representedBlock_mapBlock g h body]
end

mutual
theorem walk_represented_names : (s : Statement) →
    s.represented.walk.flatMap streamNames = s.walk.flatMap streamNames
  | .action a _ => by simp [represented, walk, streamNames, Action.streamNames_mapExpressions]
  | .conditional _ _ body elifs otherwise _ => by
    simp [represented, walk, streamNames, walkBlock_represented_names body,
      walkBranches_represented_names elifs, walkOtherwise_represented_names otherwise]
  | .loop init _ update body _ => by
    simp [represented, walk, streamNames, walkBlock_represented_names init,
      walkBlock_represented_names update, walkBlock_represented_names body]
  | .forEach _ body _ => by simp [represented, walk, streamNames, walkBlock_represented_names body]
  | .strictTiming body _ => by
    simp [represented, walk, streamNames, walkBlock_represented_names body]
theorem walkBlock_represented_names : (b : List Statement) →
    (walkBlock (representedBlock b)).flatMap streamNames = (walkBlock b).flatMap streamNames
  | [] => rfl
  | s :: rest => by
    simp [representedBlock, walkBlock, walk_represented_names s, walkBlock_represented_names rest]
theorem walkBranches_represented_names : (b : List (Branch Statement)) →
    (walkBranches (representedBranches b)).flatMap streamNames = (walkBranches b).flatMap streamNames
  | [] => rfl
  | ⟨_, body, _⟩ :: rest => by
    simp [representedBranches, walkBranches, walkBlock_represented_names body,
      walkBranches_represented_names rest]
theorem walkOtherwise_represented_names : (b : Option (List Statement)) →
    (walkOtherwise (representedOtherwise b)).flatMap streamNames =
      (walkOtherwise b).flatMap streamNames
  | none => rfl
  | some body => by simp [representedOtherwise, walkOtherwise, walkBlock_represented_names body]
end

/-- A representative has the streams of what it represents. -/
theorem blockStreamNames_represented (b : List Statement) :
    blockStreamNames (representedBlock b) = blockStreamNames b :=
  walkBlock_represented_names b

end Statement
end Qua
