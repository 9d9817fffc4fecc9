import Qua.Proofs.Build.Operands
import Qua.Proofs.Replay.Blocks
import Qua.Proofs.Replay.Declarations

/-!
# Declarations by themselves

The line of a declaration is a script of its own: replayed as the only line of a program, it declares the
same again, though under the first number. Main statement: `Build.declareNamed_readsBack`.
-/

namespace Qua

open Replay
open Declaration (stem)
open Script (ReadsAll linesOf)

section

variable {value : Option InitialValue} {size : Option Int64} {d : Declaration}

/-- What a value and a size make of a declaration. -/
theorem Build.shape_eq_ok (h : shape value size = .ok (d.dimension, d.size, d.value))
    (hv : ∀ v, value = some v → v.literals ≠ []) :
    d.Shaped ∧ ∀ l ∈ d.value, ∃ v, value = some v ∧ l ∈ v.literals := by
  cases size with
  | some n =>
    simp only [shape] at h
    split at h
    · cases h
    · next hpos =>
      split at h
      · cases h
      · simp only [Except.ok.injEq, Prod.mk.injEq] at h
        obtain ⟨hd, hs, hcells⟩ := h
        have hlt : n.toInt < 2 ^ 63 := Int64.toInt_lt n
        have hsize : d.size.toNat = n.toInt.toNat := by
          rw [← hs, UInt64.toNat_ofNat']
          omega
        exact ⟨.sized hd.symm hcells.symm (by omega) (by omega), by simp [← hcells]⟩
  | none =>
    rcases value with _ | ⟨l⟩ | ⟨ls⟩ <;>
      (simp only [shape, Except.ok.injEq, Prod.mk.injEq] at h; obtain ⟨hd, hs, hcells⟩ := h)
    · exact ⟨.scalar hd.symm hs.symm (by simp [← hcells]), by simp [← hcells]⟩
    · exact ⟨.scalar hd.symm hs.symm (by simp [← hcells]),
        fun l' hl => ⟨_, rfl, by rwa [← hcells] at hl⟩⟩
    · have hne : ls ≠ [] := hv _ rfl
      exact ⟨.cells hd.symm (hcells ▸ hne) (by rw [← hs, hcells]),
        fun l' hl => ⟨_, rfl, by rwa [← hcells] at hl⟩⟩

end

namespace Declaration

/-- The same declaration, but for the number in the name of a variable or an array. -/
structure Renumbers (d d' : Declaration) : Prop where
  rest : d' = { d with name := d'.name }
  inputStream : d.isInputStream = true → d'.name = d.name
  numbered : d.isInputStream = false →
    ∃ n m : Nat, d.name = stem d.isArray ++ toString n ∧ d'.name = stem d.isArray ++ toString m

/-- The declaration as the first one of a program. -/
def first (d : Declaration) : Declaration :=
  if d.isInputStream then d else { d with name := stem d.isArray ++ toString 1 }

theorem first_eq (d : Declaration) : d.first = { d with name := d.first.name } := by
  unfold first
  split <;> rfl

theorem call_first (d : Declaration) : d.first.call = d.call := by
  unfold first
  split
  · rfl
  · next hi =>
    have hi' : d.isInputStream = false := by simpa using hi
    unfold call inputStream? renderValue isArray
    simp only [hi', Bool.false_eq_true, if_false]

section

variable {d : Declaration}

theorem shaped_first (h : d.Shaped) : d.first.Shaped := by
  rw [first_eq]
  cases h with
  | scalar hd hs hv => exact .scalar hd hs hv
  | cells hd hv hs => exact .cells hd hv hs
  | sized hd hv hp hm => exact .sized hd hv hp hm

theorem writable_first (h : d.Writable) : d.first.Writable := by
  unfold first
  split
  · exact h
  · exact ⟨isIdentifier_numbered (stem_mem _) 1, h.finite⟩

/-- The line that binds any name to a declaration of its own declares just that. -/
theorem Follows.alone {text : String} (hf : d.Follows []) (hw : d.Writable) (hd : d.Shaped)
    (hc : d.call = .ok text) (hname : Text.IsIdentifier bound) :
    Program.ofScript (Script.ofLines [bound ++ " = " ++ text]) = .ok { declarations := [d] } := by
  have hst : Standing (handlesOf []) (.declared []) [] [⟨0, .program⟩] State.started := standing_started
  have hline := hst.declares hf hw hd hc
  have hall (stmts) (hreads : ReadsAll [.assign bound text] stmts) : ∃ s,
      statements stmts State.started = .ok ((), s) ∧ s.programs = 1 ∧ s.draft.scopes.length = 1 ∧
        s.draft.program = { declarations := [d] } := by
    cases hreads with
    | cons hreads hnil =>
      cases hnil
      cases hreads with
      | assign line _ ht' =>
        obtain ⟨number, t, ht, hrun⟩ := hline line
        obtain rfl := ht'.unique ht
        exact ⟨_, statements_one (statement_assign line bound hrun), rfl, rfl, rfl⟩
  obtain ⟨-, t, ht, -⟩ := hline 0
  obtain ⟨-, p, hscript, rfl⟩ := ofScript_programLines (P := fun _ p => p = { declarations := [d] })
    (by simp) ⟨_, .cons (.assign 0 hname ht) .nil⟩ hall
  have hlines : linesOf 1 [.assign bound text] =
      [bound ++ " = " ++ text].map fun line => ⟨1, line⟩ := rfl
  rwa [Script.ofLines_eq hlines]

end

end Declaration

namespace Build

variable {declaration : Declaration} {d t : Draft}

theorem Adds.declarations (h : Adds declaration d t) :
    t.program.declarations = d.program.declarations ++ [declaration] := by
  cases h with
  | numbered hi hn => exact congrArg (· ++ [declaration]) (d.declarations_handOut _)
  | inputStream stream hi hn hne hnew => rfl

theorem Adds.follows_first (h : Adds declaration d t) : declaration.first.Follows [] := by
  cases h with
  | numbered hi hn => simp [Declaration.first, Declaration.Follows, Declaration.isArray, hi]
  | inputStream stream hi hn hne hnew => simp [Declaration.first, Declaration.Follows, hi, hn, hne]

theorem Adds.renumbers_first (h : Adds declaration d t) : declaration.Renumbers declaration.first where
  rest := declaration.first_eq
  inputStream hi := by rw [Declaration.first, if_pos hi]
  numbered hi := by
    cases h with
    | numbered hi' hn => exact ⟨_, 1, hn, by simp [Declaration.first, hi]⟩
    | inputStream stream hi' hn hne hnew =>
      rw [hi] at hi'
      nomatch hi'

/-- Declarations read back. A declaration that a session makes, of no value, a size or literals that are
finite and not an empty list, has a line; replayed by itself it declares the same, under the same name if
that is an input stream with characters of a name, and else under another number. -/
theorem declareNamed_readsBack {value : Option InitialValue} {size : Option Int64}
    {inputStream : Option String} (h : declareNamed scalarType value size inputStream d = .ok (e, t))
    (hv : ∀ v, value = some v → v.literals ≠ [] ∧ ∀ l ∈ v.literals, l.Finite)
    (hi : ∀ stream, inputStream = some stream → ∀ c ∈ stream.toList, Text.isNamePart c = true) :
    ∃ declaration line replayed,
      t.program.declarations = d.program.declarations ++ [declaration] ∧ declaration.render = .ok line ∧
      Program.ofScript (Script.ofLines [line]) = .ok { declarations := [replayed] } ∧
      declaration.Renumbers replayed := by
  obtain ⟨declaration, hadds, hinput, hshape, hstream⟩ := declareNamed_eq_ok h
  obtain ⟨hshaped, hliterals⟩ := shape_eq_ok hshape fun v hs => (hv v hs).1
  have hfinite : ∀ l ∈ declaration.value, l.Finite := by
    intro l hl
    obtain ⟨v, hs, hmem⟩ := hliterals l hl
    exact (hv v hs).2 l hmem
  have hname : Text.IsIdentifier declaration.name := by
    cases inputStream with
    | none =>
      cases hadds with
      | numbered hi' hn => exact hn ▸ isIdentifier_numbered (stem_mem _) _
      | inputStream stream hi' hn hne hnew =>
        rw [hi'] at hinput
        nomatch hinput
    | some stream => exact hstream stream rfl ▸ isIdentifier_inputStream (hi stream rfl)
  have hwritable : declaration.Writable := ⟨hname, hfinite⟩
  obtain ⟨text, hcall⟩ := Declaration.call_ok hwritable hshaped
  refine ⟨declaration, _, declaration.first, hadds.declarations, ?_,
    hadds.follows_first.alone (Declaration.writable_first hwritable) (Declaration.shaped_first hshaped)
      (declaration.call_first.trans hcall) hname, hadds.renumbers_first⟩
  rw [Declaration.render_eq, hcall]
  rfl

/-- The line of an empty list gives a size of zero, which no array has. -/
theorem declareNamed_empty_not_readBack : ∃ e t declaration line,
    declareNamed .int (some (.array [])) none none {} = .ok (e, t) ∧
      t.program.declarations = [declaration] ∧ declaration.render = .ok line ∧
      ∀ p, Program.ofScript (Script.ofLines [line]) ≠ .ok p := by
  refine ⟨_, _, _, "a1 = declare(int, size=0)", rfl, rfl, by decide +kernel, fun p hp => ?_⟩
  have hfails : (Program.ofScript (Script.ofLines ["a1 = declare(int, size=0)"])).toBool = false := by
    decide +kernel
  rw [hp] at hfails
  nomatch hfails

/-- An array that is not the first one, and whose cells are not integers. -/
theorem declareNamed_readsBack_cells :
    let value : InitialValue := .array [.fixed (.neg .zero), .fixed (.ofInt 3)]
    let d : Draft := { arrays := 1 }
    (∀ l ∈ value.literals, l.Finite) ∧
    ∃ e t, declareNamed .fixed (some value) none none d = .ok (e, t) ∧
    ∃ declaration line replayed, t.program.declarations = [declaration] ∧ declaration.name = "a2" ∧
      declaration.render = .ok line ∧
      Program.ofScript (Script.ofLines [line]) = .ok { declarations := [replayed] } ∧
      declaration.Renumbers replayed := by
  intro value d
  have hfinite : ∀ l ∈ value.literals, l.Finite := by
    have hthree : (Binary64.ofInt 3).isFinite = true := by decide +kernel
    simp only [value, InitialValue.literals, List.forall_mem_cons]
    exact ⟨rfl, hthree, nofun⟩
  obtain ⟨e, t, h, hnames⟩ : ∃ e t, declareNamed .fixed (some value) none none d = .ok (e, t) ∧
      t.program.declarations.map Declaration.name = ["a2"] := ⟨_, _, rfl, by decide +kernel⟩
  obtain ⟨declaration, line, replayed, hd, hrest⟩ := declareNamed_readsBack h
    (fun v hs => Option.some.inj hs ▸ ⟨List.cons_ne_nil _ _, hfinite⟩) nofun
  rw [hd] at hnames
  exact ⟨hfinite, e, t, h, declaration, line, replayed, hd, List.singleton_inj.mp hnames, hrest⟩

end Build

end Qua
