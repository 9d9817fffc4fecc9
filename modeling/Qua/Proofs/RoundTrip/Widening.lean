import Qua.Proofs.RoundTrip.Materials
import Qua.Proofs.Build.Shorthands
import Qua.Proofs.Build.Tags
import Qua.Proofs.Replay.Redeclaring

/-!
# What stays declared

A declaration and the stream of a tag stay in a draft once they are there, and every declaration has been
asked for with a value or a size. With names that can be written and arrays that are not empty, the
declarations of a session can all be made again. Main statements: `Session.run_widens`,
`Declaration.shaped_of_proper`.
-/

namespace Qua

open Build (Along Course useTag)
open Text (IsIdentifier)

-- ---------------------------------------------------------------------------
-- Declarations as they are asked for
-- ---------------------------------------------------------------------------

theorem Literal.finite_of_render {l : Literal} {text : String} (h : l.render = .ok text) :
    l.Finite := by
  cases l with
  | int | bool => trivial
  | fixed x =>
    by_contra hn
    have hn : ¬x.isFinite = true := hn
    simp [Literal.render, renderReal, hn] at h

namespace Declaration

/-- The declaration has been asked for with a value or a size. -/
def IsMade (x : Declaration) : Prop :=
  ∃ value size, Build.shape value size = .ok (x.dimension, x.size, x.value)

/-- An array has at least one element, and the name of an input stream consists of letters, digits and
underscores. -/
structure Proper (x : Declaration) : Prop where
  nonempty : x.isArray = true → x.value ≠ [] ∨ x.size ≠ 0
  named : ∀ stream, x.inputStream? = some stream → ∀ c ∈ stream.toList, Text.isNamePart c = true

variable {x : Declaration} {ds : List Declaration}

theorem shaped_of_proper (h : x.IsMade) (hp : x.Proper) : x.Shaped := by
  obtain ⟨value, size, hs⟩ := h
  refine (Build.shape_eq_ok hs ?_).1
  rintro v rfl hnil
  cases v with
  | scalar l => cases hnil
  | array ls =>
    obtain rfl : ls = [] := hnil
    cases size with
    | some n =>
      simp only [Build.shape] at hs
      split at hs <;> cases hs
    | none =>
      simp only [Build.shape, Except.ok.injEq, Prod.mk.injEq] at hs
      obtain ⟨hd, hn, hv⟩ := hs
      have harray : x.isArray = true := by simp [isArray, ← hd]
      obtain hne | hne := hp.nonempty harray
      · exact hne hv.symm
      · exact hne hn.symm

/-- Names of a session are identifiers if those of its input streams can be written. -/
theorem identifier_of_proper (h : Numbered ds) (hx : x ∈ ds) (hp : x.Proper) : IsIdentifier x.name := by
  cases hi : x.isInputStream with
  | true =>
    obtain ⟨stream, hn⟩ := h.inputStream_name hx hi
    have hstream : x.inputStream? = some stream := by
      rw [inputStream?, if_pos hi, hn, Text.withoutPrefix?_append]
    exact hn ▸ isIdentifier_inputStream (hp.named stream hstream)
  | false =>
    obtain ⟨n, -, hn⟩ := h.number_le hx hi
    exact hn ▸ isIdentifier_numbered (stem_mem _) n

/-- A declaration that has a line has finite values. -/
theorem finite_of_render {text : String} (h : x.render = .ok text) : ∀ l ∈ x.value, l.Finite := by
  obtain ⟨value, hvalue, -⟩ := except_bind_eq_ok.mp h
  unfold renderValue at hvalue
  split at hvalue
  · next hv => simp [hv]
  · next l hv =>
    obtain ⟨text, hl, -⟩ := except_bind_eq_ok.mp hvalue
    simpa [hv] using Literal.finite_of_render hl
  · next hv => simp [hv]
  · obtain ⟨texts, hm, -⟩ := except_bind_eq_ok.mp hvalue
    intro l hl
    obtain ⟨text, ht⟩ := except_mapM_ok hm l hl
    exact Literal.finite_of_render ht

/-- What is declared is over the declarations. -/
theorem handle_over (hx : x ∈ ds) (hn : IsIdentifier x.name) : x.handle.Over (handlesOf ds) := by
  have hmem : (x.name, x.handle) ∈ handlesOf ds := List.mem_map.mpr ⟨x, hx, rfl⟩
  have hall {e : Expression} (he : x.handle = e) (hw : e.Writable) (hh : e.handles = [(x.name, e)]) :
      x.handle.Over (handlesOf ds) := by
    rw [he] at hmem ⊢
    exact ⟨hw, by rw [hh]; simpa using hmem⟩
  cases ha : x.isArray with
  | true => exact hall (e := .array x.name) (by simp [handle, ha]) hn rfl
  | false => exact hall (e := .named x.name) (by simp [handle, ha]) hn rfl

end Declaration

-- ---------------------------------------------------------------------------
-- Drafts that follow one another
-- ---------------------------------------------------------------------------

namespace Draft

/-- The names of the declarations, with their variables and arrays. -/
def handles (d : Draft) : List (String × Expression) := handlesOf d.program.declarations

/-- All names of declarations can be written. -/
def Identified (d : Draft) : Prop := ∀ x ∈ d.program.declarations, IsIdentifier x.name

/-- Declarations that have been asked for are added, and tags keep their streams. -/
structure Widens (d t : Draft) : Prop where
  declarations : ∃ more, t.program.declarations = d.program.declarations ++ more ∧ ∀ x ∈ more, x.IsMade
  shorthands : d.shorthands ⊆ t.shorthands

variable {d e t : Draft}

theorem Widens.of_eq (hd : t.program.declarations = d.program.declarations)
    (hs : t.shorthands = d.shorthands) : d.Widens t :=
  ⟨⟨[], by simp [hd]⟩, hs ▸ List.Subset.refl _⟩

theorem Widens.trans (h : d.Widens e) (h' : e.Widens t) : d.Widens t where
  declarations := by
    obtain ⟨more, he, hm⟩ := h.declarations
    obtain ⟨more', ht, hm'⟩ := h'.declarations
    exact ⟨more ++ more', by rw [ht, he, List.append_assoc], List.forall_mem_append.mpr ⟨hm, hm'⟩⟩
  shorthands := List.Subset.trans h.shorthands h'.shorthands

theorem Widens.subset (h : d.Widens t) : d.program.declarations ⊆ t.program.declarations := by
  obtain ⟨more, ht, -⟩ := h.declarations
  exact ht ▸ List.subset_append_left _ _

theorem Widens.handles (h : d.Widens t) : d.handles ⊆ t.handles := List.map_subset _ h.subset

theorem Widens.identified (h : d.Widens t) (ht : t.Identified) : d.Identified := fun x hx => ht x (h.subset hx)

theorem Widens.made (h : d.Widens t) (hd : ∀ x ∈ d.program.declarations, x.IsMade) :
    ∀ x ∈ t.program.declarations, x.IsMade := by
  obtain ⟨more, ht, hm⟩ := h.declarations
  rw [ht]
  exact List.forall_mem_append.mpr ⟨hd, hm⟩

/-- A declaration is added, and what it gives is over the declarations. -/
theorem widens_declareNamed {e : Expression}
    (h : Build.declareNamed scalarType value size inputStream d = .ok (e, t)) :
    d.Widens t ∧ (t.Identified → e.Over t.handles) := by
  obtain ⟨declaration, hadds, -, hshape, -, rfl⟩ := Build.declareNamed_gives h
  have hd := hadds.declarations
  have hs : t.shorthands = d.shorthands := congrArg Registry.shorthands hadds.registry
  refine ⟨⟨⟨[declaration], hd, List.forall_mem_singleton.mpr ⟨value, size, hshape⟩⟩,
    hs ▸ List.Subset.refl _⟩, fun ht => ?_⟩
  have hx : declaration ∈ t.program.declarations := by simp [hd]
  exact declaration.handle_over hx (ht declaration hx)

theorem widens : Course Widens where
  of_eq d t h := by
    have hd := congrArg (fun x : Draft => x.program.declarations) h
    have hs := congrArg (fun x : Draft => x.shorthands) h
    exact .of_eq hd hs
  trans _ _ _ := Widens.trans
  declares _ _ _ _ _ _ _ h := (widens_declareNamed h).1

/-- The stream of a tag is known after its use, and no other stream of a tag is new. -/
theorem useTag_shorthands (role : TagRole) (h : useTag role tag d = .ok (source, t)) :
    (tag, source) ∈ t.shorthands ∧ d.shorthands ⊆ t.shorthands ∧
      (∀ other ∈ t.shorthands, other ∈ d.shorthands ∨ other.2 = source) ∧
        t.program.declarations = d.program.declarations := by
  obtain ⟨r, hu, rfl⟩ := Build.useTag_eq_ok h
  obtain ⟨hl, rfl⟩ | ⟨-, rfl, rfl, -⟩ := Registry.use_eq_ok hu
  · exact ⟨Registry.mem_of_lookup hl, List.Subset.refl _, fun _ ho => .inl ho, rfl⟩
  · refine ⟨List.mem_cons_self, List.subset_cons_self _ _, fun other ho => ?_, rfl⟩
    obtain rfl | ho := List.mem_cons.mp ho
    · exact .inr rfl
    · exact .inl ho

theorem widens_useTag (role : TagRole) (tag : String) : Along Widens (useTag role tag) := by
  intro d source t h
  obtain ⟨-, hs, -, hd⟩ := useTag_shorthands _ h
  exact ⟨⟨[], by simp [hd]⟩, hs⟩

end Draft

theorem Request.widens (asked : Request) : Along Draft.Widens asked.step := by
  cases asked with
  | declareStream isAdcTrace =>
    intro d outcome t h
    obtain ⟨source, rfl, hs⟩ := map_eq_ok.mp h
    rw [Build.declareStream_run] at hs
    obtain ⟨-, rfl⟩ := Prod.mk.inj (Except.ok.inj hs)
    exact .of_eq rfl rfl
  | registerSave kind tag pipeline =>
    intro d outcome t h
    obtain ⟨_, s, hs, h⟩ := Qua.bind_eq_ok.mp h
    obtain ⟨-, rfl⟩ := pure_eq_ok.mp h
    obtain ⟨-, rfl⟩ := Build.addSave_eq_ok hs
    exact .of_eq rfl rfl
  | _ => exact Request.along Draft.widens rfl

theorem Event.widens {event : Event} (h : event.perform s = (answer, s')) : s.draft.Widens s'.draft := by
  have halong := event.along Draft.widens Draft.widens_useTag (fun asked _ _ => asked.widens) s
  rwa [h] at halong

/-- What a session has declared stays declared. -/
theorem Session.run_widens (events : List Event) (s : Session) :
    s.draft.Widens (run events s).2.draft :=
  run_along Draft.widens Draft.widens_useTag Request.widens events s

end Qua
