import Mathlib.Data.List.Forall2
import Qua.Proofs.Run
import Qua.Script.Parser

/-!
# Parsing tokens piece by piece

Tokens stand for a term if they are read as it wherever a token follows that does not go on with it,
given fuel in proportion to their number (`Parses`). Of the tokens only what they are matters, not
where they stand.
-/

namespace Qua.Script

open Qua.Script.Parser

namespace Parser

@[simp] theorem peek_run (l : Located) (ls : List Located) :
    peek (l :: ls) = .ok (l, l :: ls) := rfl
@[simp] theorem next_run (l : Located) (ls : List Located) : next (l :: ls) = .ok (l, ls) := rfl
@[simp] theorem skip_run (l : Located) (ls : List Located) : skip (l :: ls) = .ok ((), ls) := rfl

theorem expect_run {l : Located} (h : l.token = t) (ls : List Located) :
    expect t (l :: ls) = .ok ((), ls) := by
  simp [expect, bind_run, h]

end Parser

-- ---------------------------------------------------------------------------
-- What follows
-- ---------------------------------------------------------------------------

/-- A token that goes on with no operand. -/
def EndsOperand (t : Token) : Prop := t ≠ .leftParen ∧ t ≠ .dot ∧ t ≠ .leftBracket

/-- A token that goes on with no term. -/
def EndsTerm (t : Token) : Prop := EndsOperand t ∧ ∀ op, t ≠ .operator op

/-- The tokens `ts` are read as `a` before any token of `follow`. The fuel grows with them, less the
discount `c` for what a token leaves over. -/
def Parses (p : Nat → Parser α) (c : Nat) (ts : List Token) (a : α) (follow : Token → Prop) : Prop :=
  ∀ (fuel : Nat) (ls rest : List Located), ls.map Located.token = ts →
    (∃ t ∈ rest.head?, follow t.token) → 8 * ts.length ≤ fuel + c → p fuel (ls ++ rest) = .ok (a, rest)

/-- After the term `value`, the tokens `ts` make it the term `w`. -/
def Extends (value : Term) (ts : List Token) (w : Term) : Prop :=
  ∀ (fuel : Nat) (ls rest : List Located), ls.map Located.token = ts →
    (∃ t ∈ rest.head?, EndsOperand t.token) → 8 * ts.length < fuel →
    postfixes value fuel (ls ++ rest) = .ok (w, rest)

/-- The tokens are an operand of the term. -/
abbrev ReadsOperand (ts : List Token) (v : Term) : Prop := Parses operand 6 ts v EndsOperand

/-- The tokens are the term. -/
abbrev ReadsTerm (ts : List Token) (v : Term) : Prop := Parses term 4 ts v EndsTerm

/-- The tokens are the term, and nothing that may follow changes this. -/
abbrev ReadsAtom (ts : List Token) (v : Term) : Prop := Parses atom 7 ts v fun _ => True

theorem Parses.mono (h : Parses p c ts a follow) (hf : ∀ t, follow' t → follow t) :
    Parses p c ts a follow' := by
  rintro fuel ls rest hl ⟨t, ht, hft⟩ hfuel
  exact h fuel ls rest hl ⟨t, ht, hf _ hft⟩ hfuel

/-- Tokens that are read need not be given as located tokens. -/
theorem exists_located (ts : List Token) : ∃ ls : List Located, ls.map Located.token = ts :=
  ⟨ts.map (⟨·, 0, 0⟩), by simp [Function.comp_def]⟩

-- ---------------------------------------------------------------------------
-- Atoms and postfixes
-- ---------------------------------------------------------------------------

/-- A token that is a term by itself. -/
theorem atom_run {l : Located} (h : l.token.atom? = some v) (fuel : Nat) (rest : List Located) :
    atom (fuel + 1) (l :: rest) = .ok (v, rest) := by
  rw [atom, bind_run, next_run]
  simp only
  cases ht : l.token with
  | leftParen | leftBracket | leftBrace =>
    rw [ht] at h
    contradiction
  | _ =>
    rw [ht] at h
    simp only [h]
    rfl

/-- A token that is no term, nor the beginning of one. -/
theorem atom_error {l : Located} (h : l.token.atom? = none) (hp : l.token ≠ .leftParen)
    (hb : l.token ≠ .leftBracket) (hc : l.token ≠ .leftBrace) (fuel : Nat) (rest : List Located) :
    ∃ e, atom (fuel + 1) (l :: rest) = .error e := by
  rw [atom, bind_run, next_run]
  simp only
  cases ht : l.token with
  | leftParen => exact absurd ht hp
  | leftBracket => exact absurd ht hb
  | leftBrace => exact absurd ht hc
  | _ =>
    rw [ht] at h
    simp only [h]
    exact ⟨_, rfl⟩

theorem ReadsAtom.token (h : t.atom? = some v) : ReadsAtom [t] v := by
  rintro fuel ls rest hl - hfuel
  obtain ⟨fuel, rfl⟩ : ∃ n, fuel = n + 1 := ⟨fuel - 1, by simp at hfuel; omega⟩
  obtain ⟨l, ls', rfl, rfl, hn⟩ := List.map_eq_cons_iff.mp hl
  obtain rfl := List.map_eq_nil_iff.mp hn
  exact atom_run h fuel rest

theorem Extends.nil (v : Term) : Extends v [] v := by
  rintro fuel ls rest hl ⟨t, ht, hends⟩ hfuel
  obtain ⟨fuel, rfl⟩ : ∃ n, fuel = n + 1 := ⟨fuel - 1, by omega⟩
  obtain rfl := List.map_eq_nil_iff.mp hl
  cases rest with
  | nil => simp at ht
  | cons r rest =>
    obtain rfl : r = t := by simpa using ht
    rw [List.nil_append, postfixes, bind_run, peek_run]
    obtain ⟨h₁, h₂, h₃⟩ := hends
    cases hr : r.token <;> simp_all

theorem ReadsAtom.not_unary (h : ReadsAtom (t :: ts) v) : t.unary? = none := by
  obtain ⟨ls, hl⟩ := exists_located (t :: ts)
  have hrun := h (8 * (t :: ts).length) ls [⟨.finish, 0, 0⟩] hl ⟨_, rfl, trivial⟩ (by omega)
  obtain ⟨l, ls', rfl, rfl, -⟩ := List.map_eq_cons_iff.mp hl
  rw [List.length_cons, Nat.mul_add] at hrun
  cases ht : l.token with
  | operator op =>
    obtain ⟨e, he⟩ := atom_error (by rw [ht]; rfl) (by simp [ht]) (by simp [ht]) (by simp [ht])
      (8 * ts.length + 7) (ls' ++ [⟨.finish, 0, 0⟩])
    rw [List.cons_append, he] at hrun
    contradiction
  | _ => rfl

/-- An operand is an atom with what follows it. -/
theorem ReadsAtom.operand (h : ReadsAtom ts v) (hp : Extends v ts' w) :
    ReadsOperand (ts ++ ts') w := by
  rintro fuel ls rest hl hrest hfuel
  obtain ⟨ls₁, ls₂, rfl, hl₁, hl₂⟩ := List.map_eq_append_iff.mp hl
  rw [List.length_append] at hfuel
  cases ts with
  | nil =>
    have hrun := h 0 [] [⟨.finish, 0, 0⟩] rfl ⟨_, rfl, trivial⟩ (by simp)
    simp [atom, outOfFuel] at hrun
  | cons t ts =>
    have hu := h.not_unary
    obtain ⟨fuel, rfl⟩ : ∃ n, fuel = n + 1 := ⟨fuel - 1, by simp at hfuel; omega⟩
    simp only [List.length_cons] at hfuel
    have hne : ∃ t ∈ (ls₂ ++ rest).head?, True := by
      obtain ⟨t, ht, -⟩ := hrest
      cases ls₂ with
      | nil => exact ⟨t, ht, trivial⟩
      | cons l ls₂ => exact ⟨l, rfl, trivial⟩
    have hx := hp fuel ls₂ rest hl₂ hrest (by omega)
    obtain ⟨l, ls', rfl, rfl, -⟩ := List.map_eq_cons_iff.mp hl₁
    have ha : atom fuel (l :: (ls' ++ (ls₂ ++ rest))) = .ok (v, ls₂ ++ rest) :=
      h fuel (l :: ls') (ls₂ ++ rest) hl₁ hne (by simp; omega)
    rw [List.append_assoc, Parser.operand, List.cons_append, bind_run, peek_run]
    simp only [hu]
    rw [bind_run, ha]
    exact hx

-- ---------------------------------------------------------------------------
-- First tokens
-- ---------------------------------------------------------------------------

/-- Tokens with which an operand starts. -/
def Token.startsOperand : Token → Bool
  | .leftParen => true
  | .leftBracket => true
  | .leftBrace => true
  | t => t.unary?.isSome || t.atom?.isSome

/-- Tokens with which a term starts. -/
def Token.startsTerm (t : Token) : Bool := t.startsOperand || t = .keyword .not_

theorem Token.not_startsOperand {t : Token} (h : t.startsOperand = false) :
    t.unary? = none ∧ t.atom? = none ∧ t ≠ .leftParen ∧ t ≠ .leftBracket ∧ t ≠ .leftBrace := by
  cases t with
  | leftParen | leftBracket | leftBrace => contradiction
  | _ =>
    simp only [Token.startsOperand, Bool.or_eq_false_iff, Option.isSome_eq_false_iff,
      Option.isNone_iff_eq_none] at h
    exact ⟨h.1, h.2, by simp, by simp, by simp⟩

theorem operand_error {l : Located} (h : l.token.startsOperand = false) (fuel : Nat)
    (rest : List Located) : ∃ e, operand fuel (l :: rest) = .error e := by
  obtain ⟨hu, ha, hp, hb, hc⟩ := Token.not_startsOperand h
  cases fuel with
  | zero => exact ⟨_, rfl⟩
  | succ fuel =>
    rw [operand, bind_run, peek_run]
    simp only [hu]
    rw [bind_run]
    cases fuel with
    | zero => exact ⟨_, rfl⟩
    | succ fuel =>
      obtain ⟨e, he⟩ := atom_error ha hp hb hc fuel rest
      exact ⟨e, by rw [he]⟩

theorem term_error {l : Located} (h : l.token.startsTerm = false) (fuel : Nat)
    (rest : List Located) : ∃ e, term fuel (l :: rest) = .error e := by
  simp only [Token.startsTerm, Bool.or_eq_false_iff, decide_eq_false_iff_not] at h
  cases fuel with
  | zero => exact ⟨_, rfl⟩
  | succ fuel =>
    rw [term, bind_run, peek_run]
    simp only [h.2, if_false]
    cases fuel with
    | zero => exact ⟨_, rfl⟩
    | succ fuel =>
      obtain ⟨e, he⟩ := operand_error h.1 fuel rest
      exact ⟨e, by rw [operation, bind_run, he]⟩

theorem ReadsOperand.starts (h : ReadsOperand ts v) :
    ∃ t ts', ts = t :: ts' ∧ t.startsOperand = true := by
  obtain ⟨ls, hl⟩ := exists_located ts
  have hrun := h (8 * ts.length) ls [⟨.finish, 0, 0⟩] hl
    ⟨_, rfl, by simp [EndsOperand]⟩ (by omega)
  cases ts with
  | nil =>
    obtain rfl := List.map_eq_nil_iff.mp hl
    obtain ⟨e, he⟩ := operand_error (l := ⟨.finish, 0, 0⟩) rfl 0 []
    simp only [List.nil_append, List.length_nil, Nat.mul_zero, he] at hrun
    contradiction
  | cons t ts =>
    refine ⟨t, ts, rfl, ?_⟩
    obtain ⟨l, ls', rfl, rfl, -⟩ := List.map_eq_cons_iff.mp hl
    cases hs : l.token.startsOperand with
    | true => rfl
    | false =>
      obtain ⟨e, he⟩ := operand_error hs (8 * (l.token :: ts).length) (ls' ++ [⟨.finish, 0, 0⟩])
      rw [List.cons_append, he] at hrun
      contradiction

theorem ReadsTerm.starts (h : ReadsTerm ts v) :
    ∃ t ts', ts = t :: ts' ∧ t.startsTerm = true := by
  obtain ⟨ls, hl⟩ := exists_located ts
  have hrun := h (8 * ts.length) ls [⟨.finish, 0, 0⟩] hl
    ⟨_, rfl, by simp [EndsTerm, EndsOperand]⟩ (by omega)
  cases ts with
  | nil =>
    obtain rfl := List.map_eq_nil_iff.mp hl
    obtain ⟨e, he⟩ := term_error (l := ⟨.finish, 0, 0⟩) rfl 0 []
    simp only [List.nil_append, List.length_nil, Nat.mul_zero, he] at hrun
    contradiction
  | cons t ts =>
    refine ⟨t, ts, rfl, ?_⟩
    obtain ⟨l, ls', rfl, rfl, -⟩ := List.map_eq_cons_iff.mp hl
    cases hs : l.token.startsTerm with
    | true => rfl
    | false =>
      obtain ⟨e, he⟩ := term_error hs (8 * (l.token :: ts).length) (ls' ++ [⟨.finish, 0, 0⟩])
      rw [List.cons_append, he] at hrun
      contradiction

-- ---------------------------------------------------------------------------
-- Operations
-- ---------------------------------------------------------------------------

theorem operations_stop {l : Located} (h : ∀ op, l.token ≠ .operator op) (level : Nat) (v : Term)
    (fuel : Nat) (rest : List Located) :
    operations level v (fuel + 1) (l :: rest) = .ok (v, l :: rest) := by
  rw [operations, bind_run, peek_run]
  cases ht : l.token <;> simp_all

theorem operation_of_operand (h : ReadsOperand ts v) (level : Nat) :
    Parses (operation level) 5 ts v EndsTerm := by
  rintro fuel ls rest hl ⟨t, ht, hends⟩ hfuel
  obtain ⟨t₀, ts', rfl, -⟩ := h.starts
  obtain ⟨fuel, rfl⟩ : ∃ n, fuel = n + 2 := ⟨fuel - 2, by simp at hfuel; omega⟩
  have hrun := h (fuel + 1) ls rest hl ⟨t, ht, hends.1⟩ (by omega)
  cases rest with
  | nil => simp at ht
  | cons r rest =>
    obtain rfl : r = t := by simpa using ht
    rw [operation, bind_run, hrun]
    exact operations_stop hends.2 level v fuel rest

/-- An operand is a term. -/
theorem ReadsOperand.term (h : ReadsOperand ts v) : ReadsTerm ts v := by
  rintro fuel ls rest hl hrest hfuel
  obtain ⟨t, ts', rfl, hs⟩ := h.starts
  obtain ⟨fuel, rfl⟩ : ∃ n, fuel = n + 1 := ⟨fuel - 1, by simp at hfuel; omega⟩
  have hrun := operation_of_operand h 0 fuel ls rest hl hrest (by omega)
  obtain ⟨l, ls', rfl, rfl, -⟩ := List.map_eq_cons_iff.mp hl
  rw [Parser.term, List.cons_append, bind_run, peek_run]
  have hn : l.token ≠ .keyword .not_ := by
    intro ht
    rw [ht] at hs
    contradiction
  simp only [hn, if_false]
  exact hrun

/-- Two operands around an operator. -/
theorem ReadsOperand.binary (h : ReadsOperand ts v) (h' : ReadsOperand ts' v')
    (hop : op.level? = some above) (ha : 0 < above) :
    ReadsTerm (ts ++ .operator op :: ts') (.binary op v v') := by
  rintro fuel ls rest hl ⟨t, ht, hends⟩ hfuel
  obtain ⟨ls₁, ls₂, rfl, hl₁, hl₂⟩ := List.map_eq_append_iff.mp hl
  obtain ⟨o, ls₂, rfl, ho, hl₂⟩ := List.map_eq_cons_iff.mp hl₂
  obtain ⟨t₁, ts₁, rfl, hs₁⟩ := h.starts
  simp only [List.length_append, List.length_cons] at hfuel
  obtain ⟨fuel, rfl⟩ : ∃ n, fuel = n + 4 := ⟨fuel - 4, by omega⟩
  have hleft := h (fuel + 2) ls₁ (o :: (ls₂ ++ rest)) hl₁
    ⟨o, rfl, by simp [EndsOperand, ho]⟩ (by simp only [List.length_cons]; omega)
  have hright := operation_of_operand h' above (fuel + 1) ls₂ rest hl₂ ⟨t, ht, hends⟩ (by omega)
  cases rest with
  | nil => simp at ht
  | cons r rest =>
    obtain rfl : r = t := by simpa using ht
    have hstop := operations_stop hends.2 0 (.binary op v v') fuel rest
    have hops : operations 0 v (fuel + 2) (o :: (ls₂ ++ r :: rest)) =
        .ok (.binary op v v', r :: rest) := by
      rw [operations, bind_run, peek_run]
      simp only [ho, hop, ha, if_true]
      rw [bind_run, skip_run]
      simp only
      rw [bind_run, hright]
      exact hstop
    obtain ⟨l, ls', rfl, rfl, -⟩ := List.map_eq_cons_iff.mp hl₁
    have hn : l.token ≠ .keyword .not_ := by
      intro ht
      rw [ht] at hs₁
      contradiction
    rw [List.append_assoc, List.cons_append, List.cons_append, Parser.term, bind_run, peek_run]
    simp only [hn, if_false]
    rw [Parser.operation, bind_run]
    rw [List.cons_append] at hleft
    rw [hleft]
    exact hops

/-- A unary operator before an operand. -/
theorem ReadsOperand.unary (h : ReadsOperand ts v) (hop : t.unary? = some op) :
    ReadsOperand (t :: ts) (.unary op v) := by
  rintro fuel ls rest hl hrest hfuel
  obtain ⟨l, ls, rfl, rfl, hm⟩ := List.map_eq_cons_iff.mp hl
  simp only [List.length_cons] at hfuel
  obtain ⟨fuel, rfl⟩ : ∃ n, fuel = n + 1 := ⟨fuel - 1, by omega⟩
  rw [Parser.operand, List.cons_append, bind_run, peek_run]
  simp only [hop]
  rw [bind_run, skip_run]
  simp only
  rw [bind_run, h fuel ls rest hm hrest (by omega)]
  rfl

-- ---------------------------------------------------------------------------
-- Brackets
-- ---------------------------------------------------------------------------

/-- Brackets that close terms. -/
def IsClosing (t : Token) : Prop := t = .rightParen ∨ t = .rightBracket ∨ t = .rightBrace

theorem IsClosing.endsTerm (h : IsClosing t) : EndsTerm t := by
  obtain rfl | rfl | rfl := h <;> simp [EndsTerm, EndsOperand]

theorem IsClosing.ne_comma (h : IsClosing t) : t ≠ .comma := by
  obtain rfl | rfl | rfl := h <;> simp

theorem IsClosing.not_startsTerm (h : IsClosing t) : t.startsTerm = false := by
  obtain rfl | rfl | rfl := h <;> rfl

/-- Tokens that follow a term in brackets. -/
def Separates (t : Token) : Prop := t = .comma ∨ IsClosing t

theorem Separates.endsTerm (h : Separates t) : EndsTerm t := by
  obtain rfl | h := h
  · simp [EndsTerm, EndsOperand]
  · exact h.endsTerm

theorem Separates.ne_equals (h : Separates t) : t ≠ .equals := by
  obtain rfl | rfl | rfl | rfl := h <;> simp

/-- A term does not start with a closing bracket. -/
theorem ReadsTerm.ne_closing (h : ReadsTerm (t :: ts) v) (hc : IsClosing stop) : t ≠ stop := by
  rintro rfl
  obtain ⟨_, _, ⟨⟩, hs⟩ := h.starts
  rw [hc.not_startsTerm] at hs
  contradiction

/-- A term in parentheses is an atom. -/
theorem ReadsTerm.parenthesized (h : ReadsTerm ts v) :
    ReadsAtom (.leftParen :: ts ++ [.rightParen]) v := by
  rintro fuel ls rest hl - hfuel
  obtain ⟨ls₁, ls₂, rfl, hl₁, hl₂⟩ := List.map_eq_append_iff.mp hl
  obtain ⟨lo, ls, rfl, ho, hm⟩ := List.map_eq_cons_iff.mp hl₁
  obtain ⟨lc, ls', rfl, hc, hn⟩ := List.map_eq_cons_iff.mp hl₂
  obtain rfl := List.map_eq_nil_iff.mp hn
  simp only [List.length_append, List.length_cons, List.length_nil] at hfuel
  obtain ⟨fuel, rfl⟩ : ∃ n, fuel = n + 2 := ⟨fuel - 2, by omega⟩
  have hrun := h fuel ls (lc :: rest) hm ⟨lc, rfl, hc ▸ IsClosing.endsTerm (.inl rfl)⟩ (by omega)
  obtain ⟨t, ts', rfl, -⟩ := h.starts
  obtain ⟨l, ls, rfl, rfl, -⟩ := List.map_eq_cons_iff.mp hm
  have hne : l.token ≠ .rightParen := h.ne_closing (.inl rfl)
  rw [List.append_assoc, List.cons_append, List.singleton_append, atom, bind_run, next_run]
  simp only [ho]
  rw [Parser.parenthesized, List.cons_append, bind_run, peek_run]
  simp only [hne, if_false]
  rw [List.cons_append] at hrun
  rw [bind_run, hrun]
  simp only
  rw [bind_run, next_run]
  simp only [hc]
  rfl

theorem Extends.attribute (h : Extends (.attribute v name) ts w) :
    Extends v (.dot :: .name name :: ts) w := by
  rintro fuel ls rest hl hrest hfuel
  obtain ⟨ld, ls₁, rfl, hd, hl₁⟩ := List.map_eq_cons_iff.mp hl
  obtain ⟨ln, ls₂, rfl, hn, hl₂⟩ := List.map_eq_cons_iff.mp hl₁
  simp only [List.length_cons] at hfuel
  obtain ⟨fuel, rfl⟩ : ∃ n, fuel = n + 1 := ⟨fuel - 1, by omega⟩
  rw [postfixes, List.cons_append, List.cons_append, bind_run, peek_run]
  simp only [hd]
  rw [bind_run, skip_run]
  simp only [takeName]
  rw [bind_run, bind_run, next_run]
  simp only [hn, pure_run]
  exact h fuel ls₂ rest hl₂ hrest (by omega)

theorem Extends.index (hi : ReadsTerm ts i) (h : Extends (.index v i) ts' w) :
    Extends v (.leftBracket :: ts ++ .rightBracket :: ts') w := by
  rintro fuel ls rest hl hrest hfuel
  obtain ⟨ls₁, ls₂, rfl, hl₁, hl₂⟩ := List.map_eq_append_iff.mp hl
  obtain ⟨lo, ls₁, rfl, ho, hm₁⟩ := List.map_eq_cons_iff.mp hl₁
  obtain ⟨lc, ls₂, rfl, hc, hm₂⟩ := List.map_eq_cons_iff.mp hl₂
  simp only [List.length_append, List.length_cons] at hfuel
  obtain ⟨fuel, rfl⟩ : ∃ n, fuel = n + 1 := ⟨fuel - 1, by omega⟩
  have hrun := hi fuel ls₁ (lc :: (ls₂ ++ rest)) hm₁
    ⟨lc, rfl, hc ▸ IsClosing.endsTerm (.inr (.inl rfl))⟩ (by omega)
  rw [postfixes, List.append_assoc, List.cons_append, List.cons_append, bind_run, peek_run]
  simp only [ho]
  rw [bind_run, skip_run]
  simp only
  rw [bind_run, hrun]
  simp only
  rw [bind_run, expect_run hc]
  exact h fuel ls₂ rest hm₂ hrest (by omega)

-- ---------------------------------------------------------------------------
-- Lists of terms
-- ---------------------------------------------------------------------------

/-- The tokens of several terms, with a comma between them. -/
abbrev commas (tss : List (List Token)) : List Token := List.intercalate [.comma] tss

/-- What stands before the closing bracket after the first of several terms. -/
def afterFirst : List (List Token) → List Token
  | [] => []
  | ts :: tss => .comma :: commas (ts :: tss)

theorem commas_cons (ts : List Token) (tss : List (List Token)) :
    commas (ts :: tss) = ts ++ afterFirst tss := by
  cases tss with
  | nil => simp [afterFirst, commas]
  | cons ts' tss => simp [afterFirst, commas, List.intercalate_cons_cons]

theorem length_commas_le (tss : List (List Token)) :
    (commas tss).length ≤ (afterFirst tss).length := by
  cases tss <;> simp [afterFirst]

/-- What stands after a term of a list, and what of it is left for the next: a comma is taken, and the
closing bracket is left. -/
inductive Passes (stop : Token) : List Token → List Token → Prop
  | comma : Passes stop (.comma :: ts) ts
  | closing : Passes stop (stop :: ts) (stop :: ts)

theorem Passes.length_le (h : Passes stop ts ts') : ts'.length ≤ ts.length := by
  cases h <;> simp

theorem Passes.length_pos (h : Passes stop ts ts') : 0 < ts.length := by
  cases h <;> simp

theorem Passes.separator (h : Passes stop ts ts') (hc : IsClosing stop) {ls : List Located}
    (rest : List Located) (hl : ls.map Located.token = ts) :
    ∃ ls', ls'.map Located.token = ts' ∧ separator stop (ls ++ rest) = .ok ((), ls' ++ rest) ∧
      ∃ t ∈ (ls ++ rest).head?, Separates t.token := by
  cases h with
  | comma =>
    obtain ⟨l, ls', rfl, ht, hm⟩ := List.map_eq_cons_iff.mp hl
    refine ⟨ls', hm, ?_, l, rfl, .inl ht⟩
    rw [Parser.separator, List.cons_append, bind_run, peek_run]
    simp [ht]
  | closing =>
    obtain ⟨l, ls', rfl, ht, hm⟩ := List.map_eq_cons_iff.mp hl
    refine ⟨l :: ls', hl, ?_, l, rfl, ht ▸ .inr hc⟩
    rw [Parser.separator, List.cons_append, bind_run, peek_run]
    simp [ht, hc.ne_comma]

theorem passes_afterFirst (stop : Token) (tss : List (List Token)) :
    Passes stop (afterFirst tss ++ [stop]) (commas tss ++ [stop]) := by
  cases tss with
  | nil => exact .closing
  | cons ts tss => exact .comma

/-- Several things up to a closing bracket: a comma stands between them, and one may follow the last. -/
inductive Listed (reads : List Token → α → Prop) (stop : Token) : List Token → List α → Prop
  | nil : Listed reads stop [stop] []
  | cons : reads ts a → Passes stop ts₁ ts₂ → Listed reads stop ts₂ as →
    Listed reads stop (ts ++ ts₁) (a :: as)

theorem Listed.commas {reads : List Token → α → Prop} (h : List.Forall₂ reads tss as)
    (stop : Token) : Listed reads stop (commas tss ++ [stop]) as := by
  induction h with
  | nil => exact .nil
  | @cons ts a tss as ha _ ih =>
    rw [commas_cons, List.append_assoc]
    exact .cons ha (passes_afterFirst stop tss) ih

/-- Nothing is left of a list but its closing bracket. -/
theorem items_stop {l : Located} (h : l.token = stop) (fuel : Nat) (rest : List Located) :
    items stop (fuel + 1) (l :: rest) = .ok ([], rest) := by
  rw [items, bind_run, peek_run]
  simp [h, bind_run]

theorem entries_stop {l : Located} (h : l.token = .rightBrace) (fuel : Nat) (rest : List Located) :
    entries (fuel + 1) (l :: rest) = .ok ([], rest) := by
  rw [entries, bind_run, peek_run]
  simp [h, bind_run]

/-- Terms up to a closing bracket, which is taken. -/
theorem Listed.items (hc : IsClosing stop) (h : Listed ReadsTerm stop ts vs) :
    Parses (items stop) 7 ts vs fun _ => True := by
  induction h with
  | nil =>
    rintro fuel ls rest hl - hfuel
    obtain ⟨l, ls', rfl, ht, hn⟩ := List.map_eq_cons_iff.mp hl
    obtain rfl := List.map_eq_nil_iff.mp hn
    obtain ⟨fuel, rfl⟩ : ∃ n, fuel = n + 1 := ⟨fuel - 1, by simp at hfuel; omega⟩
    exact items_stop ht fuel rest
  | @cons ts v ts₁ ts₂ vs hv hpass _ ih =>
    rintro fuel ls rest hl hrest hfuel
    obtain ⟨ls₁, ls₂, rfl, hl₁, hl₂⟩ := List.map_eq_append_iff.mp hl
    obtain ⟨t, ts, rfl, -⟩ := hv.starts
    have hle := hpass.length_le
    have hpos := hpass.length_pos
    simp only [List.length_append, List.length_cons] at hfuel
    obtain ⟨fuel, rfl⟩ : ∃ n, fuel = n + 1 := ⟨fuel - 1, by omega⟩
    obtain ⟨ls', hl', hsep, l₂, hl₂, hends⟩ := hpass.separator hc rest hl₂
    have hfirst := hv fuel ls₁ (ls₂ ++ rest) hl₁ ⟨l₂, hl₂, hends.endsTerm⟩
      (by simp only [List.length_cons]; omega)
    have hothers := ih fuel ls' rest hl' hrest (by omega)
    obtain ⟨l, ls₁, rfl, rfl, -⟩ := List.map_eq_cons_iff.mp hl₁
    rw [Parser.items, List.append_assoc, List.cons_append, bind_run, peek_run]
    simp only [hv.ne_closing hc, if_false]
    rw [List.cons_append] at hfirst
    rw [bind_run, hfirst]
    simp only
    rw [bind_run, hsep]
    simp only
    rw [bind_run, hothers]
    rfl

/-- A key, a colon and the value of the key. -/
def ReadsEntry (ts : List Token) (entry : Term × Term) : Prop :=
  ∃ ks vs, ts = ks ++ .colon :: vs ∧ ReadsTerm ks entry.1 ∧ ReadsTerm vs entry.2

/-- Entries up to the closing brace, which is taken. -/
theorem Listed.entries (h : Listed ReadsEntry .rightBrace ts es) :
    Parses entries 7 ts es fun _ => True := by
  induction h with
  | nil =>
    rintro fuel ls rest hl - hfuel
    obtain ⟨l, ls', rfl, ht, hn⟩ := List.map_eq_cons_iff.mp hl
    obtain rfl := List.map_eq_nil_iff.mp hn
    obtain ⟨fuel, rfl⟩ : ∃ n, fuel = n + 1 := ⟨fuel - 1, by simp at hfuel; omega⟩
    exact entries_stop ht fuel rest
  | @cons ts entry ts₁ ts₂ es he hpass _ ih =>
    rintro fuel ls rest hl hrest hfuel
    obtain ⟨ks, vs, rfl, hk, hv⟩ := he
    have hc : IsClosing .rightBrace := .inr (.inr rfl)
    obtain ⟨lsₑ, ls₂, rfl, hlₑ, hl₂⟩ := List.map_eq_append_iff.mp hl
    obtain ⟨lsₖ, lsᵥ, rfl, hlₖ, hlᵥ⟩ := List.map_eq_append_iff.mp hlₑ
    obtain ⟨lc, lsᵥ, rfl, hcolon, hlᵥ⟩ := List.map_eq_cons_iff.mp hlᵥ
    obtain ⟨t, ks, rfl, -⟩ := hk.starts
    have hle := hpass.length_le
    have hpos := hpass.length_pos
    simp only [List.length_append, List.length_cons] at hfuel
    obtain ⟨fuel, rfl⟩ : ∃ n, fuel = n + 1 := ⟨fuel - 1, by omega⟩
    obtain ⟨ls', hl', hsep, l₂, hl₂, hends⟩ := hpass.separator hc rest hl₂
    have hkey := hk fuel lsₖ (lc :: (lsᵥ ++ (ls₂ ++ rest))) hlₖ
      ⟨lc, rfl, hcolon ▸ by simp [EndsTerm, EndsOperand]⟩ (by simp only [List.length_cons]; omega)
    have hvalue := hv fuel lsᵥ (ls₂ ++ rest) hlᵥ ⟨l₂, hl₂, hends.endsTerm⟩ (by omega)
    have hothers := ih fuel ls' rest hl' hrest (by omega)
    obtain ⟨l, lsₖ, rfl, rfl, -⟩ := List.map_eq_cons_iff.mp hlₖ
    rw [Parser.entries, List.append_assoc, List.append_assoc, List.cons_append, List.cons_append,
      bind_run, peek_run]
    simp only [hk.ne_closing hc, if_false]
    rw [List.cons_append] at hkey
    rw [bind_run, hkey]
    simp only
    rw [bind_run, expect_run hcolon]
    simp only
    rw [bind_run, hvalue]
    simp only
    rw [bind_run, hsep]
    simp only
    rw [bind_run, hothers]
    rfl

-- ---------------------------------------------------------------------------
-- Calls
-- ---------------------------------------------------------------------------

/-- A term does not start like a keyword argument. -/
theorem ReadsTerm.not_keyword (h : ReadsTerm ts v) (name : String) (ts' : List Token) :
    ts ≠ .name name :: .equals :: ts' := by
  rintro rfl
  obtain ⟨ls, hl⟩ := exists_located (.name name :: .equals :: ts')
  have hrun := h (8 * ts'.length + 16) ls [⟨.finish, 0, 0⟩] hl
    ⟨_, rfl, by simp [EndsTerm, EndsOperand]⟩ (by simp only [List.length_cons]; omega)
  obtain ⟨l₁, ls₁, rfl, h₁, hm₁⟩ := List.map_eq_cons_iff.mp hl
  obtain ⟨l₂, ls₂, rfl, h₂, -⟩ := List.map_eq_cons_iff.mp hm₁
  have hr := operation_of_operand
    ((ReadsAtom.token (t := .name name) rfl).operand (Extends.nil (.name name))) 0
  have hone := hr (8 * ts'.length + 15) [l₁] (l₂ :: ls₂ ++ [⟨.finish, 0, 0⟩]) (by simp [h₁])
    ⟨l₂, rfl, by simp [h₂, EndsTerm, EndsOperand]⟩ (by simp)
  rw [List.cons_append, Parser.term, bind_run, peek_run] at hrun
  simp only [h₁, reduceCtorEq, if_false] at hrun
  rw [List.singleton_append] at hone
  rw [hone] at hrun
  have hlen := congrArg List.length (Prod.mk.inj (Except.ok.inj hrun)).2
  simp at hlen

theorem keywordName_none (h : ReadsTerm ts v) {ls rest : List Located}
    (hl : ls.map Located.token = ts) (hrest : ∃ t ∈ rest.head?, Separates t.token) :
    keywordName? (ls ++ rest) = .ok (none, ls ++ rest) := by
  unfold keywordName?
  split
  · next heq =>
    rename_i name l₁ c₁ l₂ c₂ rest'
    obtain ⟨t, ts', rfl, -⟩ := h.starts
    obtain ⟨l, ls, rfl, rfl, hm⟩ := List.map_eq_cons_iff.mp hl
    rw [List.cons_append] at heq
    obtain ⟨rfl, htail⟩ := List.cons.inj heq
    cases ls with
    | nil =>
      obtain ⟨r, hr, hsep⟩ := hrest
      rw [List.nil_append] at htail
      rw [htail, List.head?_cons, Option.mem_some_iff] at hr
      subst hr
      exact absurd rfl hsep.ne_equals
    | cons l' ls =>
      obtain ⟨rfl, -⟩ := List.cons.inj htail
      exact absurd (by simpa using hm.symm) (h.not_keyword name (ls.map Located.token))
  · rfl

/-- A keyword, its equals sign and the term that it is given. -/
def ReadsKeyword (ts : List Token) (entry : String × Term) : Prop :=
  ∃ ts', ts = .name entry.1 :: .equals :: ts' ∧ ReadsTerm ts' entry.2

theorem reads_keywords (b : Bool) (h : List.Forall₂ ReadsKeyword tss kws) :
    Parses (arguments b) 7 (commas tss ++ [.rightParen]) ([], kws) fun _ => True := by
  induction h generalizing b with
  | nil =>
    rintro fuel ls rest hl - hfuel
    obtain ⟨l, ls', rfl, ht, hn⟩ := List.map_eq_cons_iff.mp hl
    obtain rfl := List.map_eq_nil_iff.mp hn
    obtain ⟨fuel, rfl⟩ : ∃ n, fuel = n + 1 := ⟨fuel - 1, by simp at hfuel; omega⟩
    rw [arguments, List.singleton_append, bind_run, peek_run]
    simp [ht, bind_run]
  | @cons ts entry tss kws hv htail ih =>
    rintro fuel ls rest hl hrest hfuel
    obtain ⟨ts', rfl, hv⟩ := hv
    rw [commas_cons, List.append_assoc] at hl hfuel
    obtain ⟨ls₁, ls₂, rfl, hl₁, hl₂⟩ := List.map_eq_append_iff.mp hl
    obtain ⟨⟨_, line, column⟩, ls₁, rfl, ⟨⟩, hm₁⟩ := List.map_eq_cons_iff.mp hl₁
    obtain ⟨⟨_, line', column'⟩, ls₁, rfl, ⟨⟩, hm₂⟩ := List.map_eq_cons_iff.mp hm₁
    simp only [List.length_append, List.length_cons, List.length_nil] at hfuel
    obtain ⟨fuel, rfl⟩ : ∃ n, fuel = n + 1 := ⟨fuel - 1, by omega⟩
    obtain ⟨ls', hl', hsep, l₂, hl₂, hends⟩ :=
      (passes_afterFirst .rightParen _).separator (.inl rfl) rest hl₂
    have hfirst := hv fuel ls₁ (ls₂ ++ rest) hm₂ ⟨l₂, hl₂, hends.endsTerm⟩ (by omega)
    have hlen := length_commas_le tss
    have hothers := ih true fuel ls' rest hl' hrest
      (by simp only [List.length_append, List.length_cons, List.length_nil]; omega)
    rw [arguments, List.append_assoc, List.cons_append, List.cons_append, bind_run, peek_run]
    simp only [reduceCtorEq, if_false]
    rw [bind_run, keywordName?]
    simp only
    rw [bind_run, skip_run]
    simp only
    rw [bind_run, skip_run]
    simp only
    rw [bind_run, hfirst]
    simp only
    rw [bind_run, hsep]
    simp only
    rw [bind_run, hothers]
    rfl

/-- The arguments of a call up to its parenthesis, which is taken: first those without keywords. -/
theorem reads_arguments (h : List.Forall₂ ReadsTerm tss vs)
    (hk : List.Forall₂ ReadsKeyword kss kws) :
    Parses (arguments false) 7 (commas (tss ++ kss) ++ [.rightParen]) (vs, kws)
      fun _ => True := by
  induction h with
  | nil => exact reads_keywords false hk
  | @cons ts v tss vs hv htail ih =>
    rintro fuel ls rest hl hrest hfuel
    rw [List.cons_append, commas_cons, List.append_assoc] at hl hfuel
    obtain ⟨ls₁, ls₂, rfl, hl₁, hl₂⟩ := List.map_eq_append_iff.mp hl
    obtain ⟨t, ts, rfl, -⟩ := hv.starts
    simp only [List.length_append, List.length_cons, List.length_nil] at hfuel
    obtain ⟨fuel, rfl⟩ : ∃ n, fuel = n + 1 := ⟨fuel - 1, by omega⟩
    obtain ⟨ls', hl', hsep, l₂, hl₂, hends⟩ :=
      (passes_afterFirst .rightParen _).separator (.inl rfl) rest hl₂
    have hname := keywordName_none hv hl₁ ⟨l₂, hl₂, hends⟩
    have hfirst := hv fuel ls₁ (ls₂ ++ rest) hl₁ ⟨l₂, hl₂, hends.endsTerm⟩
      (by simp only [List.length_cons]; omega)
    have hlen := length_commas_le (tss ++ kss)
    have hlength : (commas (tss ++ kss) ++ [Token.rightParen]).length = (commas (tss ++ kss)).length + 1 :=
      List.length_append
    have hothers := ih fuel ls' rest hl' hrest
      (by rw [hlength]; omega)
    obtain ⟨l, ls₁, rfl, rfl, -⟩ := List.map_eq_cons_iff.mp hl₁
    rw [List.cons_append] at hname hfirst
    rw [arguments, List.append_assoc, List.cons_append, bind_run, peek_run]
    simp only [hv.ne_closing (.inl rfl), if_false]
    rw [bind_run, hname]
    simp only [Bool.false_eq_true, if_false]
    rw [bind_run, hfirst]
    simp only
    rw [bind_run, hsep]
    simp only
    rw [bind_run, hothers]
    rfl

theorem Extends.call (h : List.Forall₂ ReadsTerm tss vs) (hk : List.Forall₂ ReadsKeyword kss kws)
    (hx : Extends (.call v vs kws) ts w) :
    Extends v (.leftParen :: (commas (tss ++ kss) ++ .rightParen :: ts)) w := by
  rintro fuel ls rest hl hrest hfuel
  obtain ⟨lo, ls, rfl, ho, hm⟩ := List.map_eq_cons_iff.mp hl
  rw [List.append_cons] at hm
  obtain ⟨ls₁, ls₂, rfl, hl₁, hl₂⟩ := List.map_eq_append_iff.mp hm
  simp only [List.length_append, List.length_cons] at hfuel
  obtain ⟨fuel, rfl⟩ : ∃ n, fuel = n + 1 := ⟨fuel - 1, by omega⟩
  have hne : ∃ t ∈ (ls₂ ++ rest).head?, True := by
    obtain ⟨t, ht, -⟩ := hrest
    cases ls₂ with
    | nil => exact ⟨t, ht, trivial⟩
    | cons l ls₂ => exact ⟨l, rfl, trivial⟩
  have hrun := reads_arguments h hk fuel ls₁ (ls₂ ++ rest) hl₁ hne
    (by simp only [List.length_append, List.length_singleton]; omega)
  rw [postfixes, List.cons_append, bind_run, peek_run]
  simp only [ho]
  rw [bind_run, skip_run]
  simp only
  rw [List.append_assoc, bind_run, hrun]
  exact hx fuel ls₂ rest hl₂ hrest (by omega)

/-- Terms in brackets are an atom. -/
theorem Listed.list (h : Listed ReadsTerm .rightBracket ts vs) :
    ReadsAtom (.leftBracket :: ts) (.list vs) := by
  rintro fuel ls rest hl hrest hfuel
  obtain ⟨lo, ls, rfl, ho, hm⟩ := List.map_eq_cons_iff.mp hl
  simp only [List.length_cons] at hfuel
  obtain ⟨fuel, rfl⟩ : ∃ n, fuel = n + 1 := ⟨fuel - 1, by omega⟩
  have hrun := h.items (.inr (.inl rfl)) fuel ls rest hm hrest (by omega)
  rw [atom, List.cons_append, bind_run, next_run]
  simp only [ho]
  rw [map_run, hrun]

/-- Entries in braces are an atom. -/
theorem Listed.dict (h : Listed ReadsEntry .rightBrace ts es) :
    ReadsAtom (.leftBrace :: ts) (.dict es) := by
  rintro fuel ls rest hl hrest hfuel
  obtain ⟨lo, ls, rfl, ho, hm⟩ := List.map_eq_cons_iff.mp hl
  simp only [List.length_cons] at hfuel
  obtain ⟨fuel, rfl⟩ : ∃ n, fuel = n + 1 := ⟨fuel - 1, by omega⟩
  have hrun := h.entries fuel ls rest hm hrest (by omega)
  rw [atom, List.cons_append, bind_run, next_run]
  simp only [ho]
  rw [map_run, hrun]

/-- A term, a comma and more terms in parentheses are an atom. -/
theorem reads_tuple (h : ReadsTerm ts v) (hs : List.Forall₂ ReadsTerm tss vs) :
    ReadsAtom (.leftParen :: (ts ++ .comma :: (commas tss ++ [.rightParen]))) (.tuple (v :: vs)) := by
  rintro fuel ls rest hl hrest hfuel
  obtain ⟨lo, ls, rfl, ho, hm⟩ := List.map_eq_cons_iff.mp hl
  obtain ⟨ls₁, ls₂, rfl, hl₁, hl₂⟩ := List.map_eq_append_iff.mp hm
  obtain ⟨lc, ls₂, rfl, hc, hl₂⟩ := List.map_eq_cons_iff.mp hl₂
  have hlength : (commas tss ++ [Token.rightParen]).length = (commas tss).length + 1 :=
    List.length_append
  simp only [List.length_append, List.length_cons, hlength] at hfuel
  obtain ⟨fuel, rfl⟩ : ∃ n, fuel = n + 2 := ⟨fuel - 2, by omega⟩
  have hfirst := h fuel ls₁ (lc :: (ls₂ ++ rest)) hl₁
    ⟨lc, rfl, hc ▸ by simp [EndsTerm, EndsOperand]⟩ (by omega)
  have hothers := (Listed.commas hs .rightParen).items (.inl rfl) fuel ls₂ rest hl₂ hrest
    (by rw [hlength]; omega)
  obtain ⟨t, ts', rfl, -⟩ := h.starts
  obtain ⟨l, ls₁, rfl, rfl, -⟩ := List.map_eq_cons_iff.mp hl₁
  have hne : l.token ≠ .rightParen := h.ne_closing (.inl rfl)
  rw [List.cons_append, List.append_assoc, List.cons_append, List.cons_append, atom, bind_run, next_run]
  simp only [ho]
  rw [Parser.parenthesized, bind_run, peek_run]
  simp only [hne, if_false]
  rw [List.cons_append] at hfirst
  rw [bind_run, hfirst]
  simp only
  rw [bind_run, next_run]
  simp only [hc]
  rw [bind_run, hothers]
  rfl

/-- Parentheses around nothing are an atom. -/
theorem reads_unit : ReadsAtom [.leftParen, .rightParen] (.tuple []) := by
  rintro fuel ls rest hl - hfuel
  obtain ⟨lo, ls, rfl, ho, hm⟩ := List.map_eq_cons_iff.mp hl
  obtain ⟨lc, ls, rfl, hc, hn⟩ := List.map_eq_cons_iff.mp hm
  obtain rfl := List.map_eq_nil_iff.mp hn
  obtain ⟨fuel, rfl⟩ : ∃ n, fuel = n + 2 := ⟨fuel - 2, by simp at hfuel; omega⟩
  rw [List.cons_append, List.singleton_append, atom, bind_run, next_run]
  simp only [ho]
  rw [Parser.parenthesized, bind_run, peek_run]
  simp only [hc, if_true]
  rw [bind_run, skip_run]
  rfl

end Qua.Script
