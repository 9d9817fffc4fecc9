import Qua.Proofs.Script.Reading

/-!
# Precedence

The parser climbs through the levels of the binary operators: what it has read so far is the left operand
of whatever operator follows (`Leads`). A term that is printed with no more parentheses than the levels
ask for (`Term.tokens`) is therefore read back as itself, before any token that does not go on with it.
-/

namespace Qua.Script

open Qua.Script.Parser

-- ---------------------------------------------------------------------------
-- Printing
-- ---------------------------------------------------------------------------

/-- The level of the unary operators, above that of every binary one. -/
def unaryLevel : Nat := 8

/-- The level of the atoms, and of calls, attributes and indices. -/
def postfixLevel : Nat := 9

/-- The level of a binary operator; one that is only unary has the least. -/
def Operator.level (op : Operator) : Nat := op.level?.getD 0

theorem Operator.level?_lt {op : Operator} (h : op.level? = some n) : n < unaryLevel := by
  cases op <;> simp [Operator.level?, unaryLevel] at h ⊢ <;> omega

theorem Operator.level?_pos {op : Operator} (h : op.level? = some n) : 0 < n := by
  cases op <;> simp [Operator.level?] at h <;> omega

/-- How tightly a term binds. -/
def Term.level : Term → Nat
  | .binary op _ _ => op.level
  | .unary .not _ => 0
  | .unary _ _ => unaryLevel
  | _ => postfixLevel

/-- The token that writes a unary operator. -/
def UnaryOperator.token : UnaryOperator → Token
  | .minus => .operator .minus
  | .plus => .operator .plus
  | .invert => .operator .tilde
  | .not => .keyword .not_

/-- The tokens of a term of some level where one is needed that binds at least as tightly as `needed`. -/
def atLeast (needed level : Nat) (ts : List Token) : List Token :=
  if level < needed then .leftParen :: ts ++ [.rightParen] else ts

/-- The items of a tuple, where a comma tells one item from a term in parentheses. -/
def tupleItems : List (List Token) → List Token
  | [ts] => ts ++ [.comma]
  | tss => commas tss

namespace Term

mutual

/-- The tokens of a term, with the parentheses that it cannot do without. -/
def tokens : Term → List Token
  | .name text => [.name text]
  | .int value => [.integer value]
  | .float value => [.float value]
  | .string value => [.string value]
  | .bool true => [.keyword .true_]
  | .bool false => [.keyword .false_]
  | .none => [.keyword .none_]
  | .tuple items => .leftParen :: (tupleItems (tokensOfAll items) ++ [.rightParen])
  | .list items => .leftBracket :: (commas (tokensOfAll items) ++ [.rightBracket])
  | .dict entries => .leftBrace :: (commas (tokensOfEntries entries) ++ [.rightBrace])
  | .call function arguments keywords =>
    atLeast postfixLevel function.level function.tokens ++
      (.leftParen :: commas (tokensOfAll arguments ++ tokensOfKeywords keywords) ++ [.rightParen])
  | .attribute value key => atLeast postfixLevel value.level value.tokens ++ [.dot, .name key]
  | .index value position =>
    atLeast postfixLevel value.level value.tokens ++
      (.leftBracket :: position.tokens ++ [.rightBracket])
  | .binary op left right =>
    atLeast op.level left.level left.tokens ++
      .operator op :: atLeast (op.level + 1) right.level right.tokens
  | .unary .not operand => .keyword .not_ :: operand.tokens
  | .unary op operand => op.token :: atLeast unaryLevel operand.level operand.tokens

def tokensOfAll : List Term → List (List Token)
  | [] => []
  | term :: rest => term.tokens :: tokensOfAll rest

def tokensOfEntries : List (Term × Term) → List (List Token)
  | [] => []
  | (key, value) :: rest => (key.tokens ++ .colon :: value.tokens) :: tokensOfEntries rest

def tokensOfKeywords : List (String × Term) → List (List Token)
  | [] => []
  | (key, value) :: rest => (.name key :: .equals :: value.tokens) :: tokensOfKeywords rest

end

mutual

/-- Between two operands stand only operators that have a level there: `~` has none. -/
def Ranked : Term → Prop
  | .tuple items | .list items => AllRanked items
  | .dict entries => EntriesRanked entries
  | .call function arguments keywords =>
    function.Ranked ∧ AllRanked arguments ∧ KeywordsRanked keywords
  | .attribute value _ => value.Ranked
  | .index value position => value.Ranked ∧ position.Ranked
  | .binary op left right => op.level?.isSome ∧ left.Ranked ∧ right.Ranked
  | .unary _ operand => operand.Ranked
  | _ => True

def AllRanked : List Term → Prop
  | [] => True
  | term :: rest => term.Ranked ∧ AllRanked rest

def EntriesRanked : List (Term × Term) → Prop
  | [] => True
  | (key, value) :: rest => (key.Ranked ∧ value.Ranked) ∧ EntriesRanked rest

def KeywordsRanked : List (String × Term) → Prop
  | [] => True
  | (_, value) :: rest => value.Ranked ∧ KeywordsRanked rest

end

end Term

-- ---------------------------------------------------------------------------
-- Left operands
-- ---------------------------------------------------------------------------

/-- A token that goes on with no term of that level: it may be an operator of that level or below. -/
def EndsLevel (k : Nat) (t : Token) : Prop :=
  EndsOperand t ∧ ∀ op n, t = .operator op → op.level? = some n → n ≤ k

theorem EndsLevel.mono (h : EndsLevel k t) (hk : k ≤ k') : EndsLevel k' t :=
  ⟨h.1, fun op n ht hn => Nat.le_trans (h.2 op n ht hn) hk⟩

theorem EndsTerm.endsLevel (h : EndsTerm t) (k : Nat) : EndsLevel k t :=
  ⟨h.1, fun op _ ht => absurd ht (h.2 op)⟩

theorem endsLevel_operator (h : op.level? = some n) : EndsLevel n (.operator op) := by
  refine ⟨by simp [EndsOperand], ?_⟩
  rintro op' n' ⟨⟩ hn
  rw [h] at hn
  exact Nat.le_of_eq (Option.some.inj hn).symm

/-- An operand ends before every operator. -/
theorem EndsOperand.endsLevel (h : EndsOperand t) : EndsLevel unaryLevel t :=
  ⟨h, fun _ _ _ hn => Nat.le_of_lt (Operator.level?_lt hn)⟩

/-- No operator above the level follows. -/
theorem operations_ends {l : Located} (h : EndsLevel level l.token) (v : Term) (fuel : Nat)
    (rest : List Located) : operations level v (fuel + 1) (l :: rest) = .ok (v, l :: rest) := by
  rw [operations, bind_run, peek_run]
  cases ht : l.token with
  | operator op =>
    cases hn : op.level? with
    | none => simp [ht, hn]
    | some n =>
      have hle := h.2 op n ht hn
      simp [ht, hn, Nat.not_lt.mpr hle]
  | _ => simp [ht]

/-- The tokens are the left operand of what follows, where operators above `level` are read, if what
follows does not go on with a term of level `k`. -/
def Leads (level k : Nat) (ts : List Token) (v : Term) : Prop :=
  ∀ (fuel : Nat) (ls rest : List Located), ls.map Located.token = ts →
    (∃ t ∈ rest.head?, EndsLevel k t.token) → 8 * ts.length ≤ fuel + 5 →
    ∃ left, fuel ≤ left + ts.length ∧ operation level fuel (ls ++ rest) = operations level v left rest

theorem ReadsOperand.leads (h : ReadsOperand ts v) (level k : Nat) : Leads level k ts v := by
  rintro fuel ls rest hl ⟨t, ht, hends⟩ hfuel
  obtain ⟨t₀, ts', rfl, -⟩ := h.starts
  simp only [List.length_cons] at hfuel ⊢
  obtain ⟨fuel, rfl⟩ : ∃ n, fuel = n + 1 := ⟨fuel - 1, by omega⟩
  have hrun := h fuel ls rest hl ⟨t, ht, hends.1⟩ (by simp only [List.length_cons]; omega)
  refine ⟨fuel, by omega, ?_⟩
  rw [operation, bind_run, hrun]

/-- A left operand is all that is read if no operator above the level follows. -/
theorem Leads.parses (h : Leads level k ts v) (hne : ts ≠ []) :
    Parses (operation level) 5 ts v fun t => EndsLevel k t ∧ EndsLevel level t := by
  rintro fuel ls rest hl ⟨t, ht, hends⟩ hfuel
  have hpos : 0 < ts.length := List.length_pos_iff.mpr hne
  obtain ⟨left, hleft, hrun⟩ := h fuel ls rest hl ⟨t, ht, hends.1⟩ hfuel
  obtain ⟨left, rfl⟩ : ∃ n, left = n + 1 := ⟨left - 1, by omega⟩
  cases rest with
  | nil => simp at ht
  | cons r rest =>
    obtain rfl : r = t := by simpa using ht
    rw [hrun]
    exact operations_ends hends.2 v left rest

/-- An operator takes what stands to its left, and to its right what binds tighter than itself. -/
theorem Leads.binary (h : Leads level k ts v) (h' : Leads n k' ts' v') (hne : ts ≠ [])
    (hne' : ts' ≠ []) (hop : op.level? = some n) (hlevel : level < n) (hk : n ≤ k) (hk' : n ≤ k') :
    Leads level n (ts ++ .operator op :: ts') (.binary op v v') := by
  rintro fuel ls rest hl ⟨t, ht, hends⟩ hfuel
  obtain ⟨ls₁, ls₂, rfl, hl₁, hl₂⟩ := List.map_eq_append_iff.mp hl
  obtain ⟨o, ls₂, rfl, ho, hl₂⟩ := List.map_eq_cons_iff.mp hl₂
  have hpos : 0 < ts.length := List.length_pos_iff.mpr hne
  simp only [List.length_append, List.length_cons] at hfuel ⊢
  obtain ⟨left, hleft, hrun⟩ := h fuel ls₁ (o :: (ls₂ ++ rest)) hl₁
    ⟨o, rfl, ho ▸ (endsLevel_operator hop).mono hk⟩ (by omega)
  obtain ⟨left, rfl⟩ : ∃ n, left = n + 1 := ⟨left - 1, by omega⟩
  have hright := h'.parses hne' left ls₂ rest hl₂ ⟨t, ht, hends.mono hk', hends⟩ (by omega)
  refine ⟨left, by omega, ?_⟩
  rw [List.append_assoc, List.cons_append, hrun, operations, bind_run, peek_run]
  simp only [ho, hop, hlevel, if_true]
  rw [bind_run, skip_run]
  simp only
  rw [bind_run, hright]

theorem operation_error {l : Located} (h : l.token.startsOperand = false) (level fuel : Nat)
    (rest : List Located) : ∃ e, operation level fuel (l :: rest) = .error e := by
  cases fuel with
  | zero => exact ⟨_, rfl⟩
  | succ fuel =>
    obtain ⟨e, he⟩ := operand_error h fuel rest
    exact ⟨e, by rw [operation, bind_run, he]⟩

theorem Leads.starts (h : Leads level k (t :: ts) v) : t.startsOperand = true := by
  cases hs : t.startsOperand with
  | true => rfl
  | false =>
    obtain ⟨ls, hl⟩ := exists_located (t :: ts)
    have hends : EndsTerm .finish := by simp [EndsTerm, EndsOperand]
    have hrun := h.parses (List.cons_ne_nil t ts) (8 * (t :: ts).length) ls [⟨.finish, 0, 0⟩] hl
      ⟨_, rfl, hends.endsLevel k, hends.endsLevel level⟩ (by omega)
    obtain ⟨l, ls', rfl, rfl, -⟩ := List.map_eq_cons_iff.mp hl
    obtain ⟨e, he⟩ := operation_error hs level (8 * (l.token :: ts).length)
      (ls' ++ [⟨.finish, 0, 0⟩])
    rw [List.cons_append, he] at hrun
    contradiction

/-- What may be a left operand at the lowest level is a term. -/
theorem Leads.term (h : Leads 0 k ts v) (hne : ts ≠ []) : ReadsTerm ts v := by
  rintro fuel ls rest hl ⟨t, ht, hends⟩ hfuel
  obtain ⟨t₀, ts', rfl⟩ := List.exists_cons_of_ne_nil hne
  have hs := h.starts
  obtain ⟨fuel, rfl⟩ : ∃ n, fuel = n + 1 := ⟨fuel - 1, by simp at hfuel; omega⟩
  have hrun := h.parses hne fuel ls rest hl ⟨t, ht, hends.endsLevel k, hends.endsLevel 0⟩ (by omega)
  obtain ⟨l, ls', rfl, rfl, -⟩ := List.map_eq_cons_iff.mp hl
  have hn : l.token ≠ .keyword .not_ := by
    intro ht
    rw [ht] at hs
    contradiction
  rw [Parser.term, List.cons_append, bind_run, peek_run]
  simp only [hn, if_false]
  exact hrun

/-- `not` takes the whole of the term that follows. -/
theorem ReadsTerm.not (h : ReadsTerm ts v) : ReadsTerm (.keyword .not_ :: ts) (.unary .not v) := by
  rintro fuel ls rest hl hrest hfuel
  obtain ⟨l, ls, rfl, ht, hm⟩ := List.map_eq_cons_iff.mp hl
  simp only [List.length_cons] at hfuel
  obtain ⟨fuel, rfl⟩ : ∃ n, fuel = n + 1 := ⟨fuel - 1, by omega⟩
  rw [Parser.term, List.cons_append, bind_run, peek_run]
  simp only [ht, if_true]
  rw [bind_run, skip_run]
  simp only
  rw [bind_run, h fuel ls rest hm hrest (by omega)]
  rfl

-- ---------------------------------------------------------------------------
-- Terms that bind at a level
-- ---------------------------------------------------------------------------

/-- The tokens are read as a term that binds at level `k`. -/
structure ReadsAt (k : Nat) (ts : List Token) (v : Term) : Prop where
  term : ReadsTerm ts v
  leads : ∀ level < k, Leads level k ts v
  operand : unaryLevel ≤ k → ReadsOperand ts v
  primary : postfixLevel ≤ k → ReadsPrimary ts v

namespace ReadsAt

theorem of_primary (h : ReadsPrimary ts v) (k : Nat) : ReadsAt k ts v :=
  ⟨h.operand.term, fun level _ => h.operand.leads level k, fun _ => h.operand, fun _ => h⟩

theorem of_operand (h : ReadsOperand ts v) : ReadsAt unaryLevel ts v :=
  ⟨h.term, fun level _ => h.leads level unaryLevel, fun _ => h, by simp [unaryLevel, postfixLevel]⟩

theorem of_atom (h : ReadsAtom ts v) : ReadsAt postfixLevel ts v := of_primary h.primary _

theorem of_term (h : ReadsTerm ts v) : ReadsAt 0 ts v :=
  ⟨h, by simp, by simp [unaryLevel], by simp [postfixLevel]⟩

theorem ne_nil (h : ReadsAt k ts v) : ts ≠ [] := by
  obtain ⟨t, ts', rfl, -⟩ := h.term.starts
  simp

/-- With parentheses around it where it binds less tightly, a term binds as tightly as is needed. -/
theorem atLeast (h : ReadsAt k ts v) (needed : Nat) :
    ∃ k', needed ≤ k' ∧ ReadsAt k' (atLeast needed k ts) v := by
  unfold Script.atLeast
  split
  · exact ⟨needed, Nat.le_refl _, of_primary h.term.parenthesized.primary needed⟩
  · next hk => exact ⟨k, Nat.not_lt.mp hk, h⟩

theorem as_primary (h : ReadsAt k ts v) : ReadsPrimary (Script.atLeast postfixLevel k ts) v := by
  obtain ⟨k', hk', h'⟩ := h.atLeast postfixLevel
  exact h'.primary hk'

theorem as_operand (h : ReadsAt k ts v) : ReadsOperand (Script.atLeast unaryLevel k ts) v := by
  obtain ⟨k', hk', h'⟩ := h.atLeast unaryLevel
  exact h'.operand hk'

/-- An operator associates to the left: its left operand may bind as it does itself. -/
theorem binary (h : ReadsAt k ts v) (h' : ReadsAt k' ts' v') (hop : op.level? = some n) :
    ReadsAt n (Script.atLeast n k ts ++ .operator op :: Script.atLeast (n + 1) k' ts')
      (.binary op v v') := by
  obtain ⟨kₗ, hkₗ, hₗ⟩ := h.atLeast n
  obtain ⟨kᵣ, hkᵣ, hᵣ⟩ := h'.atLeast (n + 1)
  have hleads : ∀ level < n, Leads level n
      (Script.atLeast n k ts ++ .operator op :: Script.atLeast (n + 1) k' ts') (.binary op v v') := by
    intro level hlevel
    exact (hₗ.leads level (by omega)).binary (hᵣ.leads n (by omega)) hₗ.ne_nil hᵣ.ne_nil hop hlevel
      hkₗ (by omega)
  have hn := Operator.level?_lt hop
  exact ⟨(hleads 0 (Operator.level?_pos hop)).term (by simp), hleads, by omega,
    by simp only [postfixLevel, unaryLevel] at hn ⊢; omega⟩

end ReadsAt

/-- The text is written as a term that binds at level `k`. -/
abbrev IsAt (k : Nat) (text : String) (v : Term) : Prop := Written EndsNumber (ReadsAt k · v) text

theorem IsPrimary.isAt (h : IsPrimary text v) : IsAt postfixLevel text v :=
  h.mono (fun _ hc => hc.1) fun _ ht => .of_primary ht _

theorem IsOperand.isAt (h : IsOperand text v) : IsAt unaryLevel text v :=
  h.mono (fun _ hc => hc) fun _ ht => .of_operand ht

theorem IsAt.term (h : IsAt k text v) : IsTerm text v := h.mono (fun _ hc => hc) fun _ ht => ht.term

/-- Operands are written around an operator with blanks. -/
theorem IsAt.binary (h : IsAt k text v) (h' : IsAt k' text' v') (hop : op.level? = some n)
    (hk : n ≤ k) (hk' : n < k') :
    IsAt n (text ++ (" " ++ op.text ++ " ") ++ text') (.binary op v v') := by
  obtain ⟨ts, hs, hi, ht⟩ := h.tokens
  obtain ⟨ts', hs', hi', ht'⟩ := h'.tokens
  refine ⟨by rw [String.append_assoc]; exact h.starts_append _, ts ++ .operator op :: ts', ?_,
    hi.append ((Inline.token (t := .operator op) rfl).append hi'), ?_⟩
  · have hblank (cs : List Char) (ts : List Token) (hscan : Scans cs ts EndsNumber) :
        Scans (' ' :: cs) ([] ++ ts) EndsNumber :=
      (Scans.blank fun _ => True).append hscan fun _ _ _ _ => trivial
    have hop' : Scans op.text.toList [.operator op] EndsOperator := .operator (by simp [hop])
    have hright : Scans (op.text.toList ++ ' ' :: text'.toList) ([.operator op] ++ ([] ++ ts'))
        EndsNumber := hop'.append_cons (hblank _ _ hs') (by simp [EndsOperator])
    have htext : (text ++ (" " ++ op.text ++ " ") ++ text').toList =
        text.toList ++ ' ' :: (op.text.toList ++ ' ' :: text'.toList) := by simp
    rw [htext]
    exact hs.append_cons (hblank _ _ hright) ⟨by decide, by decide⟩
  · have hread := ht.binary ht' hop
    rwa [Script.atLeast, if_neg (by omega), Script.atLeast, if_neg (by omega)] at hread

theorem reads_tupleItems (h : List.Forall₂ ReadsTerm tss vs) :
    ReadsAtom (.leftParen :: (tupleItems tss ++ [.rightParen])) (.tuple vs) := by
  cases h with
  | nil => exact reads_unit
  | @cons ts v tss vs hv hvs =>
    cases hvs with
    | nil => simpa [tupleItems, commas] using reads_tuple hv .nil
    | @cons ts' v' tss vs hv' hvs =>
      have hread := reads_tuple hv (.cons hv' hvs)
      rwa [tupleItems, commas_cons, afterFirst, List.append_assoc, List.cons_append]
      simp

-- ---------------------------------------------------------------------------
-- Reading what was printed
-- ---------------------------------------------------------------------------

mutual

theorem Term.reads_tokens : (e : Term) → e.Ranked → ReadsAt e.level e.tokens e
  | .name _, _ | .int _, _ | .float _, _ | .string _, _ | .none, _ => .of_atom (.token rfl)
  | .bool true, _ | .bool false, _ => .of_atom (.token rfl)
  | .tuple items, h => by
    rw [Term.tokens]
    exact .of_atom (reads_tupleItems (Term.reads_tokensOfAll items h))
  | .list items, h => by
    rw [Term.tokens]
    exact .of_atom (Listed.commas (Term.reads_tokensOfAll items h) _).list
  | .dict entries, h => by
    rw [Term.tokens]
    exact .of_atom (Listed.commas (Term.reads_tokensOfEntries entries h) _).dict
  | .call function arguments keywords, h => by
    rw [Term.tokens]
    obtain ⟨hf, ha, hk⟩ := h
    exact .of_primary ((Term.reads_tokens function hf).as_primary.call
      (Term.reads_tokensOfAll arguments ha) (Term.reads_tokensOfKeywords keywords hk)) _
  | .attribute value key, h => by
    rw [Term.tokens]
    exact .of_primary ((Term.reads_tokens value h).as_primary.attribute key) _
  | .index value position, h => by
    rw [Term.tokens]
    exact .of_primary ((Term.reads_tokens value h.1).as_primary.index
      (Term.reads_tokens position h.2).term) _
  | .binary op left right, h => by
    rw [Term.tokens, Term.level]
    obtain ⟨n, hn⟩ := Option.isSome_iff_exists.mp h.1
    have hlevel : op.level = n := by simp [Operator.level, hn]
    rw [hlevel]
    exact (Term.reads_tokens left h.2.1).binary (Term.reads_tokens right h.2.2) hn
  | .unary .not operand, h => by
    rw [Term.tokens]
    exact .of_term (Term.reads_tokens operand h).term.not
  | .unary .minus operand, h | .unary .plus operand, h | .unary .invert operand, h => by
    rw [Term.tokens]
    · exact .of_operand ((Term.reads_tokens operand h).as_operand.unary rfl)
    · simp

theorem Term.reads_tokensOfAll :
    (items : List Term) → Term.AllRanked items → List.Forall₂ ReadsTerm (Term.tokensOfAll items) items
  | [], _ => .nil
  | term :: rest, h => .cons (Term.reads_tokens term h.1).term (Term.reads_tokensOfAll rest h.2)

theorem Term.reads_tokensOfEntries :
    (entries : List (Term × Term)) → Term.EntriesRanked entries →
      List.Forall₂ ReadsEntry (Term.tokensOfEntries entries) entries
  | [], _ => .nil
  | (key, value) :: rest, h =>
    .cons ⟨_, _, rfl, (Term.reads_tokens key h.1.1).term, (Term.reads_tokens value h.1.2).term⟩
      (Term.reads_tokensOfEntries rest h.2)

theorem Term.reads_tokensOfKeywords :
    (keywords : List (String × Term)) → Term.KeywordsRanked keywords →
      List.Forall₂ ReadsKeyword (Term.tokensOfKeywords keywords) keywords
  | [], _ => .nil
  | (_, value) :: rest, h =>
    .cons ⟨_, rfl, (Term.reads_tokens value h.1).term⟩ (Term.reads_tokensOfKeywords rest h.2)

end

-- ---------------------------------------------------------------------------
-- What the parser gives
-- ---------------------------------------------------------------------------

/-- A token that is a term by itself has no operators in it. -/
theorem Token.atom_ranked {t : Token} (h : t.atom? = some v) : v.Ranked := by
  cases t with
  | name | integer | float | string =>
    obtain rfl := Option.some.inj h
    trivial
  | keyword k =>
    cases k with
    | true_ | false_ | none_ =>
      obtain rfl := Option.some.inj h
      trivial
    | _ => nomatch h
  | _ => nomatch h

namespace Parser

/-- With that much fuel, the parser only puts operators that have a level between operands. -/
structure GivesRanked (fuel : Nat) : Prop where
  term : Gives Term.Ranked (term fuel)
  operation (level : Nat) : Gives Term.Ranked (operation level fuel)
  operations (level : Nat) (left : Term) (h : left.Ranked) :
    Gives Term.Ranked (operations level left fuel)
  operand : Gives Term.Ranked (operand fuel)
  postfixes (value : Term) (h : value.Ranked) : Gives Term.Ranked (postfixes value fuel)
  atom : Gives Term.Ranked (atom fuel)
  parenthesized : Gives Term.Ranked (parenthesized fuel)
  items (closing : Token) : Gives Term.AllRanked (items closing fuel)
  entries : Gives Term.EntriesRanked (entries fuel)
  arguments (afterKeyword : Bool) :
    Gives (fun found => Term.AllRanked found.1 ∧ Term.KeywordsRanked found.2)
      (arguments afterKeyword fuel)

section
variable (h : GivesRanked fuel)
include h

theorem ranked_term : Gives Term.Ranked (term (fuel + 1)) := by
  refine .after fun t => ?_
  split
  · exact .after fun _ => .bind h.term fun _ hv => .pure hv
  · exact h.operation 0

theorem ranked_operations (level : Nat) (left : Term) (hleft : left.Ranked) :
    Gives Term.Ranked (operations level left (fuel + 1)) := by
  refine .after fun t => ?_
  cases t.token with
  | operator op =>
    cases hop : op.level? with
    | none => simpa [hop] using Gives.pure hleft
    | some above =>
      simp only [hop]
      split
      · refine .after fun _ => .bind (h.operation above) fun right hright => ?_
        exact h.operations level _ ⟨by simp [hop], hleft, hright⟩
      · exact .pure hleft
  | _ => exact .pure hleft

theorem ranked_operand : Gives Term.Ranked (operand (fuel + 1)) := by
  refine .after fun t => ?_
  split
  · exact .after fun _ => .bind h.operand fun _ hv => .pure hv
  · exact .bind h.atom fun value hv => h.postfixes value hv

theorem ranked_postfixes (value : Term) (hv : value.Ranked) :
    Gives Term.Ranked (postfixes value (fuel + 1)) := by
  refine .after fun t => ?_
  cases t.token with
  | leftParen =>
    exact .after fun _ => .bind (h.arguments false) fun found hfound => h.postfixes _ ⟨hv, hfound⟩
  | dot => exact .after fun _ => .after fun _ => h.postfixes _ hv
  | leftBracket =>
    exact .after fun _ => .bind h.term fun index hi => .after fun _ => h.postfixes _ ⟨hv, hi⟩
  | _ => exact .pure hv

theorem ranked_atom : Gives Term.Ranked (atom (fuel + 1)) := by
  refine .after fun t => ?_
  cases ht : t.token with
  | leftParen => exact h.parenthesized
  | leftBracket =>
    simp only [map_eq_pure_bind]
    exact .bind (h.items .rightBracket) fun _ hv => .pure hv
  | leftBrace =>
    simp only [map_eq_pure_bind]
    exact .bind h.entries fun _ hv => .pure hv
  | _ =>
    simp only
    split
    · next value hv => exact .pure (Token.atom_ranked hv)
    · exact .throw _

theorem ranked_parenthesized : Gives Term.Ranked (parenthesized (fuel + 1)) := by
  refine .after fun t => ?_
  split
  · exact .after fun _ => .pure trivial
  · refine .bind h.term fun item hitem => .after fun t => ?_
    split
    · exact .pure hitem
    · exact .bind (h.items .rightParen) fun rest hrest => .pure ⟨hitem, hrest⟩
    · exact .throw _

theorem ranked_items (closing : Token) : Gives Term.AllRanked (items closing (fuel + 1)) := by
  refine .after fun t => ?_
  split
  · exact .after fun _ => .pure trivial
  · refine .bind h.term fun item hitem => .after fun _ => ?_
    exact .bind (h.items closing) fun rest hrest => .pure ⟨hitem, hrest⟩

theorem ranked_entries : Gives Term.EntriesRanked (entries (fuel + 1)) := by
  refine .after fun t => ?_
  split
  · exact .after fun _ => .pure trivial
  · refine .bind h.term fun key hkey => .after fun _ => .bind h.term fun value hvalue => ?_
    exact .after fun _ => .bind h.entries fun rest hrest => .pure ⟨⟨hkey, hvalue⟩, hrest⟩

theorem ranked_arguments (afterKeyword : Bool) :
    Gives (fun found => Term.AllRanked found.1 ∧ Term.KeywordsRanked found.2)
      (arguments afterKeyword (fuel + 1)) := by
  refine .after fun t => ?_
  split
  · exact .after fun _ => .pure ⟨trivial, trivial⟩
  · refine .after fun name => ?_
    split
    · refine .after fun _ => .after fun _ => .bind h.term fun value hvalue => .after fun _ => ?_
      exact .bind (h.arguments true) fun found hfound => .pure ⟨hfound.1, hvalue, hfound.2⟩
    · split
      · exact .throw _
      · refine .bind h.term fun value hvalue => .after fun _ => ?_
        exact .bind (h.arguments false) fun found hfound => .pure ⟨⟨hvalue, hfound.1⟩, hfound.2⟩

end

theorem givesRanked (fuel : Nat) : GivesRanked fuel := by
  induction fuel with
  | zero =>
    have hnone {α : Type} {P : α → Prop} : Gives P (outOfFuel : Parser α) := .throw _
    constructor
    all_goals intros; exact hnone
  | succ fuel ih =>
    exact {
      term := ranked_term ih
      operation level := .bind ih.operand fun left hleft => ih.operations level left hleft
      operations := ranked_operations ih
      operand := ranked_operand ih
      postfixes := ranked_postfixes ih
      atom := ranked_atom ih
      parenthesized := ranked_parenthesized ih
      items := ranked_items ih
      entries := ranked_entries ih
      arguments := ranked_arguments ih }

end Parser

-- ---------------------------------------------------------------------------
-- The round trip
-- ---------------------------------------------------------------------------

/-- A term is read back from its tokens, whatever token follows that goes on with no term; the terms
that are not are those that no script has, where `~` stands between two operands. -/
theorem expression_tokens (e : Term) :
    e.Ranked ↔ ∀ (ls : List Located) (next : Located) (rest : List Located),
      ls.map Located.token = e.tokens → EndsTerm next.token →
        expression (ls ++ next :: rest) = .ok (e, next :: rest) := by
  constructor
  · intro h ls next rest hl hends
    have hlength : ls.length = e.tokens.length := by rw [← hl, List.length_map]
    refine (Term.reads_tokens e h).term _ ls (next :: rest) hl ⟨next, rfl, hends⟩ ?_
    simp only [List.length_append]
    omega
  · intro h
    obtain ⟨ls, hl⟩ := exists_located e.tokens
    have hread := h ls ⟨.finish, 0, 0⟩ [] hl (by simp [EndsTerm, EndsOperand])
    exact (givesRanked _).term hread

/-- Parentheses stand where the levels ask for them, and nowhere else. -/
example : (Term.binary .star (.binary .plus (.name "a") (.name "b"))
      (.unary .minus (.attribute (.name "c") "d"))).tokens =
    [.leftParen, .name "a", .operator .plus, .name "b", .rightParen, .operator .star,
      .operator .minus, .name "c", .dot, .name "d"] := rfl

end Qua.Script
