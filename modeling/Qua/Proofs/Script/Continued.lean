import Qua.Proofs.Script.Appended
import Qua.Proofs.Script.Spread

/-!
# Scripts that go on

A script that is parsed is parsed in the same way as a part of a longer one: after comments and blank
lines, and before more of them and another statement. All functions of the parser but that for the end
of the script see no difference between the end and a name at the beginning of a line. Main statement:
`parse_continued`.
-/

namespace Qua.Script

open Qua.Script.Parser

mutual

/-- The same statement at another line. -/
inductive Alike : Stmt → Stmt → Prop
  | block (h : AllAlike body body') :
    Alike (.block line context target body) (.block line' context target body')
  | assign : Alike (.assign line target value) (.assign line' target value)
  | term : Alike (.term line t) (.term line' t)
  | pass : Alike (.pass line) (.pass line')
  | importing : Alike (.importing line module names) (.importing line' module names)

inductive AllAlike : List Stmt → List Stmt → Prop
  | nil : AllAlike [] []
  | cons (h : Alike s s') (hs : AllAlike ss ss') : AllAlike (s :: ss) (s' :: ss')

end

mutual

theorem Alike.refl : (s : Stmt) → Alike s s
  | .block _ _ _ body => .block (AllAlike.refl body)
  | .assign .. => .assign
  | .term .. => .term
  | .pass _ => .pass
  | .importing .. => .importing

theorem AllAlike.refl : (ss : List Stmt) → AllAlike ss ss
  | [] => .nil
  | s :: ss => .cons (Alike.refl s) (AllAlike.refl ss)

end

namespace Parser

-- ---------------------------------------------------------------------------
-- Tokens with others in place of the end
-- ---------------------------------------------------------------------------

/-- The same tokens, with `after` in place of the end of the script. -/
inductive Continues (after : List Located) : List Located → List Located → Prop
  | finish (h : l.token = .finish) : Continues after [l] after
  | cons (ht : l'.token = l.token) (hf : l.token ≠ .finish) (h : Continues after ls ls') :
    Continues after (l :: ls) (l' :: ls')

variable {c : Located} {after : List Located}

theorem Continues.length_le (h : Continues (c :: after) ls ls') : ls.length ≤ ls'.length := by
  induction h with
  | finish => simp
  | cons _ _ _ ih => simpa using ih

/-- What a parser makes of the tokens, another one makes of the other tokens too. -/
def Carries (after : List Located) (R : α → β → Prop) (p : Parser α) (q : Parser β)
    (ls ls' : List Located) : Prop :=
  ∀ a left, p ls = .ok (a, left) → ∃ b left', q ls' = .ok (b, left') ∧ R a b ∧
    Continues after left left'

/-- A parser gives the same with other tokens in place of the end. -/
abbrev Keeps (after : List Located) (p q : Parser α) : Prop :=
  ∀ ⦃ls ls' : List Located⦄, Continues after ls ls' → Carries after Eq p q ls ls'

variable {R : α → β → Prop} {S : γ → δ → Prop} {ls ls' : List Located}

theorem Carries.pure (h : Continues after ls ls') (hr : R a b) :
    Carries after R (Pure.pure a) (Pure.pure b) ls ls' := by
  rintro _ _ ⟨⟩
  exact ⟨b, ls', rfl, hr, h⟩

theorem Carries.throw (e : ParseError) (q : Parser β) :
    Carries after R (MonadExcept.throw e : Parser α) q ls ls' := by
  rintro _ _ ⟨⟩

theorem Carries.outOfFuel (q : Parser β) : Carries after R (outOfFuel : Parser α) q ls ls' :=
  .throw _ q

theorem Carries.bind {f : α → Parser γ} {g : β → Parser δ} (h : Carries after R p q ls ls')
    (hf : ∀ a b left left', R a b → Continues after left left' →
      Carries after S (f a) (g b) left left') : Carries after S (p >>= f) (q >>= g) ls ls' := by
  intro d left hd
  obtain ⟨a, mid, ha, hd⟩ := bind_eq_ok.mp hd
  obtain ⟨b, mid', hb, hr, hm⟩ := h a mid ha
  obtain ⟨d', left', hd', hs, hl⟩ := hf a b mid mid' hr hm d left hd
  exact ⟨d', left', bind_eq_ok.mpr ⟨b, mid', hb, hd'⟩, hs, hl⟩

/-- A parser that gives the same is followed by one that depends on what it gives. -/
theorem Keeps.bind {p q : Parser α} {f : α → Parser γ} {g : α → Parser δ} (hp : Keeps after p q)
    (h : Continues after ls ls')
    (hf : ∀ a left left', Continues after left left' → Carries after S (f a) (g a) left left') :
    Carries after S (p >>= f) (q >>= g) ls ls' :=
  (hp h).bind fun a _ left left' hr hl => hr ▸ hf a left left' hl

theorem Keeps.map {p q : Parser α} (hp : Keeps after p q) (f : α → β) :
    Keeps after (f <$> p) (f <$> q) := by
  intro ls ls' h
  rw [map_eq_pure_bind, map_eq_pure_bind]
  exact hp.bind h fun a left left' hl => .pure hl rfl

theorem Carries.skip {f : Unit → Parser α} {g : Unit → Parser β}
    (h : Carries after R (f ()) (g ()) ls ls') :
    Carries after R (skip >>= f) (skip >>= g) (l :: ls) (l' :: ls') := by
  intro a left ha
  rw [bind_run, skip_run] at ha ⊢
  exact h a left ha

/-- The next token is the same one, or a name in place of the end. -/
theorem Carries.peek {f : Located → Parser α} {g : Located → Parser β}
    (h : Continues (c :: after) ls ls')
    (hsame : ∀ l l' rest rest', l'.token = l.token → l.token ≠ .finish →
      Continues (c :: after) rest rest' → Carries (c :: after) R (f l) (g l') (l :: rest) (l' :: rest'))
    (hend : ∀ l, l.token = .finish → Carries (c :: after) R (f l) (g c) [l] (c :: after)) :
    Carries (c :: after) R (peek >>= f) (peek >>= g) ls ls' := by
  intro a left ha
  cases h with
  | finish hl =>
    rw [bind_run, peek_run] at ha ⊢
    exact hend _ hl a left ha
  | cons ht hf h =>
    rw [bind_run, peek_run] at ha ⊢
    exact hsame _ _ _ _ ht hf h a left ha

/-- A token is taken that cannot be the end. -/
theorem Carries.next {f : Located → Parser α} {g : Located → Parser β}
    (h : Continues (c :: after) ls ls')
    (hsame : ∀ l l' rest rest', l'.token = l.token → l.token ≠ .finish →
      Continues (c :: after) rest rest' → Carries (c :: after) R (f l) (g l') rest rest')
    (hend : ∀ l a left, l.token = .finish → f l [] ≠ .ok (a, left)) :
    Carries (c :: after) R (next >>= f) (next >>= g) ls ls' := by
  intro a left ha
  cases h with
  | finish hl =>
    rw [bind_run, next_run] at ha
    exact absurd ha (hend _ a left hl)
  | cons ht hf h =>
    rw [bind_run, next_run] at ha ⊢
    exact hsame _ _ _ _ ht hf h a left ha

theorem keeps_expect {t : Token} (ht : t ≠ .finish) : Keeps (c :: after) (expect t) (expect t) := by
  intro ls ls' h
  refine .next h (fun l l' rest rest' hl hf hr => ?_) fun l a left hl ha => ?_
  · rw [hl]
    split
    · exact .pure hr rfl
    · exact .throw _ _
  · rw [hl, if_neg ht.symm] at ha
    nomatch ha

theorem keeps_takeName (what : String) : Keeps (c :: after) (takeName what) (takeName what) := by
  intro ls ls' h
  refine .next h (fun l l' rest rest' hl hf hr => ?_) fun l a left hl ha => ?_
  · rw [hl]
    split
    · exact .pure hr rfl
    · exact .throw _ _
  · rw [hl] at ha
    nomatch ha

theorem keeps_separator {closing : Token} (hf : closing ≠ .finish) :
    Keeps (c :: after) (separator closing) (separator closing) := by
  intro ls ls' h
  refine .peek h (fun l l' rest rest' hl hne hr => ?_) fun l hl => ?_
  · rw [hl]
    split
    · have hskip : Carries (c :: after) Eq (skip >>= Pure.pure) (skip >>= Pure.pure) (l :: rest)
          (l' :: rest') := .skip (.pure hr rfl)
      rwa [bind_pure] at hskip
    · split
      · exact .pure (.cons hl hne hr) rfl
      · exact .throw _ _
  · simp only [hl, reduceCtorEq, if_false, hf.symm]
    exact .throw _ _

/-- Up to a token that is neither the end nor a name. -/
theorem Carries.unless {p f : Located → Parser α} {q g : Located → Parser β} {stop : Token}
    (hc : c.token = .name name) (h : Continues (c :: after) ls ls') (hf : stop ≠ .finish)
    (hn : ∀ name, stop ≠ .name name)
    (hstop : ∀ l l' rest rest', Continues (c :: after) rest rest' →
      Carries (c :: after) R (p l) (q l') rest rest')
    (hgo : ∀ l l' : Located, (∀ t, (∀ name, t ≠ .name name) → l.token ≠ t → l'.token ≠ t) →
      Carries (c :: after) R (f l) (g l') ls ls') :
    Carries (c :: after) R
      (Parser.peek >>= fun t => if t.token = stop then Parser.skip >>= fun _ => p t else f t)
      (Parser.peek >>= fun t => if t.token = stop then Parser.skip >>= fun _ => q t else g t)
      ls ls' := by
  cases h with
  | finish hl =>
    intro a left ha
    rw [bind_run, peek_run] at ha ⊢
    simp only [hl, hc, hf.symm, (hn _).symm, if_false] at ha ⊢
    exact hgo _ _ (fun t ht _ h => ht _ (h.symm.trans hc)) a left ha
  | cons ht hl h =>
    intro a left ha
    rw [bind_run, peek_run] at ha ⊢
    simp only [ht] at ha ⊢
    split at ha
    · next hs =>
      rw [if_pos hs]
      exact Carries.skip (hstop _ _ _ _ h) a left ha
    · next hs =>
      rw [if_neg hs]
      exact hgo _ _ (fun t _ hne h => hne (ht.symm.trans h)) a left ha

-- ---------------------------------------------------------------------------
-- Terms
-- ---------------------------------------------------------------------------

/-- With more fuel, the functions that read terms give the same. -/
structure KeepsTerms (after : List Located) (fuel fuel' : Nat) : Prop where
  term : Keeps after (term fuel) (term fuel')
  operation (level : Nat) : Keeps after (operation level fuel) (operation level fuel')
  operations (level : Nat) (left : Term) :
    Keeps after (operations level left fuel) (operations level left fuel')
  operand : Keeps after (operand fuel) (operand fuel')
  postfixes (value : Term) : Keeps after (postfixes value fuel) (postfixes value fuel')
  atom : Keeps after (atom fuel) (atom fuel')
  parenthesized : Keeps after (parenthesized fuel) (parenthesized fuel')
  items {closing : Token} (hc : closing ≠ .finish) (hn : ∀ name, closing ≠ .name name) :
    Keeps after (items closing fuel) (items closing fuel')
  entries : Keeps after (entries fuel) (entries fuel')
  arguments (afterKeyword : Bool) :
    Keeps after (arguments afterKeyword fuel) (arguments afterKeyword fuel')

section Terms

variable (h : KeepsTerms (c :: after) fuel fuel') (hc : c.token = .name name)
include h hc

theorem keeps_term : Keeps (c :: after) (term (fuel + 1)) (term (fuel' + 1)) := fun _ _ hls =>
  .unless hc hls (by decide) (by simp) (fun _ _ _ _ hr => h.term.bind hr fun _ _ _ hleft => .pure hleft rfl)
    fun _ _ _ => h.operation 0 hls

omit hc in
theorem keeps_operation (level : Nat) :
    Keeps (c :: after) (operation level (fuel + 1)) (operation level (fuel' + 1)) :=
  fun _ _ hls => h.operand.bind hls fun value _ _ hleft => h.operations level value hleft

theorem keeps_operations (level : Nat) (value : Term) :
    Keeps (c :: after) (operations level value (fuel + 1)) (operations level value (fuel' + 1)) := by
  intro ls ls' hls
  refine .peek hls (fun l l' rest rest' hl hf hr => ?_) fun l hl => ?_
  · rw [hl]
    have hstop : Carries (c :: after) Eq (pure value) (pure value) (l :: rest) (l' :: rest') :=
      .pure (.cons hl hf hr) rfl
    cases ht : l.token with
    | operator op =>
      simp only
      cases op.level? with
      | none => exact hstop
      | some above =>
        simp only
        split
        · exact .skip ((h.operation above).bind hr fun _ _ _ hleft => h.operations level _ hleft)
        · exact hstop
    | _ => exact hstop
  · simp only [hl, hc]
    exact .pure (.finish hl) rfl

theorem keeps_operand : Keeps (c :: after) (operand (fuel + 1)) (operand (fuel' + 1)) := by
  intro ls ls' hls
  refine .peek hls (fun l l' rest rest' hl hf hr => ?_) fun l hl => ?_
  · rw [hl]
    cases l.token.unary? with
    | some op => exact .skip (h.operand.bind hr fun _ _ _ hleft => .pure hleft rfl)
    | none => exact h.atom.bind (.cons hl hf hr) fun _ _ _ hleft => h.postfixes _ hleft
  · simp only [hl, hc, Token.unary?]
    exact h.atom.bind (.finish hl) fun _ _ _ hleft => h.postfixes _ hleft

theorem keeps_postfixes (value : Term) :
    Keeps (c :: after) (postfixes value (fuel + 1)) (postfixes value (fuel' + 1)) := by
  intro ls ls' hls
  refine .peek hls (fun l l' rest rest' hl hf hr => ?_) fun l hl => ?_
  · rw [hl]
    cases ht : l.token with
    | leftParen =>
      exact .skip ((h.arguments false).bind hr fun (_, _) _ _ hleft => h.postfixes _ hleft)
    | dot => exact .skip ((keeps_takeName _).bind hr fun _ _ _ hleft => h.postfixes _ hleft)
    | leftBracket =>
      exact .skip (h.term.bind hr fun _ _ _ hleft =>
        (keeps_expect (by decide)).bind hleft fun _ _ _ hleft => h.postfixes _ hleft)
    | _ => exact .pure (.cons hl hf hr) rfl
  · simp only [hl, hc]
    exact .pure (.finish hl) rfl

omit hc in
theorem keeps_atom : Keeps (c :: after) (atom (fuel + 1)) (atom (fuel' + 1)) := by
  intro ls ls' hls
  refine .next hls (fun l l' rest rest' hl hf hr => ?_) fun l a left hl ha => ?_
  · rw [hl]
    cases ht : l.token with
    | leftParen => exact h.parenthesized hr
    | leftBracket => exact (h.items (by decide) (by simp)).map _ hr
    | leftBrace => exact h.entries.map _ hr
    | _ =>
      simp only
      split
      · exact .pure hr rfl
      · exact .throw _ _
  · rw [hl] at ha
    nomatch ha

theorem keeps_parenthesized :
    Keeps (c :: after) (parenthesized (fuel + 1)) (parenthesized (fuel' + 1)) := by
  intro ls ls' hls
  refine .unless hc hls (by decide) (by simp) (fun _ _ _ _ hr => .pure hr rfl) fun _ _ _ =>
    h.term.bind hls fun item left left' hleft =>
      .next hleft (fun l l' rest rest' hl hf hr => ?_) fun l a left hl ha => ?_
  · rw [hl]
    cases ht : l.token with
    | rightParen => exact .pure hr rfl
    | comma => exact (h.items (by decide) (by simp)).bind hr fun _ _ _ hleft => .pure hleft rfl
    | _ => exact .throw _ _
  · rw [hl] at ha
    nomatch ha

theorem keeps_items {closing : Token} (hf : closing ≠ .finish) (hn : ∀ name, closing ≠ .name name) :
    Keeps (c :: after) (items closing (fuel + 1)) (items closing (fuel' + 1)) := fun _ _ hls =>
  .unless hc hls hf hn (fun _ _ _ _ hr => .pure hr rfl) fun _ _ _ =>
    h.term.bind hls fun _ _ _ hleft => (keeps_separator hf).bind hleft fun _ _ _ hleft =>
      (h.items hf hn).bind hleft fun _ _ _ hleft => .pure hleft rfl

theorem keeps_entries : Keeps (c :: after) (entries (fuel + 1)) (entries (fuel' + 1)) := fun _ _ hls =>
  .unless hc hls (by decide) (by simp) (fun _ _ _ _ hr => .pure hr rfl) fun _ _ _ =>
    h.term.bind hls fun _ _ _ hleft => (keeps_expect (by decide)).bind hleft fun _ _ _ hleft =>
      h.term.bind hleft fun _ _ _ hleft => (keeps_separator (by decide)).bind hleft fun _ _ _ hleft =>
        h.entries.bind hleft fun _ _ _ hleft => .pure hleft rfl

omit h hc in
/-- Whether a keyword argument comes is seen from two tokens. -/
theorem keywordName_congr {l l' m m' : Located} (hl : l'.token = l.token) (hm : m'.token = m.token)
    (rest rest' : List Located) : ∃ found,
      keywordName? (l :: m :: rest) = .ok (found, l :: m :: rest) ∧
        keywordName? (l' :: m' :: rest') = .ok (found, l' :: m' :: rest') := by
  obtain ⟨_, line, column⟩ := l
  obtain ⟨_, line', column'⟩ := m
  obtain ⟨t, line₁, column₁⟩ := l'
  obtain ⟨u, line₂, column₂⟩ := m'
  subst hl hm
  by_cases hk : ∃ text, t = .name text ∧ u = .equals
  · obtain ⟨text, rfl, rfl⟩ := hk
    exact ⟨some text, rfl, rfl⟩
  · refine ⟨none, ?_, ?_⟩ <;>
    · unfold keywordName?
      split
      · next heq =>
        simp only [List.cons.injEq, Located.mk.injEq] at heq
        exact absurd ⟨_, heq.1.1, heq.2.1.1⟩ hk
      · rfl

omit h hc in
/-- No keyword argument comes without an equals sign. -/
theorem keywordName_no_equals (l : Located) {rest : List Located}
    (hne : ∀ m ∈ rest.head?, m.token ≠ .equals) :
    keywordName? (l :: rest) = .ok (none, l :: rest) := by
  unfold keywordName?
  split
  · next heq =>
    obtain ⟨-, rfl⟩ := List.cons.inj heq
    exact absurd rfl (hne _ rfl)
  · rfl

theorem keeps_arguments (afterKeyword : Bool) :
    Keeps (c :: after) (arguments afterKeyword (fuel + 1)) (arguments afterKeyword (fuel' + 1)) := by
  intro ls ls' hls
  refine .unless hc hls (by decide) (by simp) (fun _ _ _ _ hr => .pure hr rfl) fun t t' _ => ?_
  -- what follows where no keyword argument comes
  have hpositional : Carries (c :: after) Eq
      (if afterKeyword then throw (.expected t "a keyword argument") else do
        let value ← Parser.term fuel
        separator .rightParen
        let others ← Parser.arguments false fuel
        return (value :: others.1, others.2))
      (if afterKeyword then throw (.expected t' "a keyword argument") else do
        let value ← Parser.term fuel'
        separator .rightParen
        let others ← Parser.arguments false fuel'
        return (value :: others.1, others.2)) ls ls' := by
    split
    · exact .throw _ _
    · exact h.term.bind hls fun _ _ _ hleft => (keeps_separator (by decide)).bind hleft fun _ _ _ hleft =>
        (h.arguments false).bind hleft fun _ _ _ hleft => .pure hleft rfl
  -- a keyword argument, where the tokens are the same two
  have hkeyword {l m l' m' : Located} {rest rest' : List Located} (text : String)
      (hr : Continues (c :: after) rest rest') :
      Carries (c :: after) Eq
        (do skip
            skip
            let value ← Parser.term fuel
            separator .rightParen
            let others ← Parser.arguments true fuel
            return (others.1, (text, value) :: others.2))
        (do skip
            skip
            let value ← Parser.term fuel'
            separator .rightParen
            let others ← Parser.arguments true fuel'
            return (others.1, (text, value) :: others.2)) (l :: m :: rest) (l' :: m' :: rest') :=
    .skip (.skip (h.term.bind hr fun _ _ _ hleft =>
      (keeps_separator (by decide)).bind hleft fun _ _ _ hleft =>
        (h.arguments true).bind hleft fun _ _ _ hleft => .pure hleft rfl))
  intro a left ha
  cases hls with
  | finish hl =>
    rw [bind_run, keywordName_no_equals _ (by simp)] at ha
    simp only at ha
    split at ha
    · cases ha
    · obtain ⟨value, left, hvalue, -⟩ := bind_eq_ok.mp ha
      obtain ⟨e, he⟩ := term_error (by rw [hl]; rfl) fuel []
      rw [he] at hvalue
      cases hvalue
  | cons ht hf hr =>
    cases hr with
    | finish hm =>
      rw [bind_run, keywordName_no_equals _ (by simp [hm])] at ha
      rw [bind_run, keywordName_no_equals _ (by simp [hc])]
      exact hpositional a left ha
    | cons hm hf' hr =>
      obtain ⟨found, hfound, hfound'⟩ := keywordName_congr ht hm _ _
      rw [bind_run, hfound] at ha
      rw [bind_run, hfound']
      cases found with
      | none => exact hpositional a left ha
      | some text => exact hkeyword text hr a left ha

end Terms

theorem keepsTerms (hc : c.token = .name name) (hle : fuel ≤ fuel') :
    KeepsTerms (c :: after) fuel fuel' := by
  induction fuel generalizing fuel' with
  | zero =>
    have hnone {α : Type} {q : Parser α} : Keeps (c :: after) outOfFuel q := fun _ _ _ => .outOfFuel q
    exact ⟨hnone, fun _ => hnone, fun _ _ => hnone, hnone, fun _ => hnone, hnone, hnone,
      fun _ _ => hnone, hnone, fun _ => hnone⟩
  | succ fuel ih =>
    obtain ⟨fuel', rfl⟩ : ∃ m, fuel' = m + 1 := ⟨fuel' - 1, by omega⟩
    have h : KeepsTerms (c :: after) fuel fuel' := ih (by omega)
    exact ⟨keeps_term h hc, keeps_operation h, keeps_operations h hc, keeps_operand h hc,
      keeps_postfixes h hc, keeps_atom h, keeps_parenthesized h hc, keeps_items h hc,
      keeps_entries h hc, keeps_arguments h hc⟩

-- ---------------------------------------------------------------------------
-- Statements
-- ---------------------------------------------------------------------------

theorem dottedTail_run (fuel : Nat) (text : String) (l : Located) (rest : List Located) :
    dottedTail (fuel + 1) text (l :: rest) = if l.token = .dot then (do
        let part ← takeName "a name"
        dottedTail fuel (text ++ "." ++ part)) rest
      else .ok (text, l :: rest) := by
  obtain ⟨t, line, column⟩ := l
  cases t <;> rfl

theorem importTail_run (fuel : Nat) (l : Located) (rest : List Located) :
    importTail (fuel + 1) (l :: rest) = if l.token = .comma then (do
        let name ← takeName "a name"
        let names ← importTail fuel
        return name :: names) rest
      else .ok ([], l :: rest) := by
  obtain ⟨t, line, column⟩ := l
  cases t <;> rfl

section Statements

variable (hc : c.token = .name name)
include hc

theorem keeps_expression : Keeps (c :: after) expression expression := by
  intro ls ls' hls
  have hle : 8 * ls.length + 8 ≤ 8 * ls'.length + 8 := by
    have := hls.length_le
    omega
  have h : KeepsTerms (c :: after) _ _ := keepsTerms hc hle
  exact fun a left ha => h.term hls a left ha

/-- Parts of a name go on with a token that is neither the end nor a name. -/
theorem Carries.goesOn {p q : Parser α} {b : α} {link : Token} {p' q' : Parser α}
    (hls : Continues (c :: after) ls ls') (hf : link ≠ .finish) (hn : ∀ name, link ≠ .name name)
    (hp : ∀ l rest, p (l :: rest) = if l.token = link then p' rest else .ok (b, l :: rest))
    (hq : ∀ l rest, q (l :: rest) = if l.token = link then q' rest else .ok (b, l :: rest))
    (h : Keeps (c :: after) p' q') : Carries (c :: after) Eq p q ls ls' := by
  intro a left ha
  cases hls with
  | finish hl =>
    rw [hp, hl, if_neg hf.symm] at ha
    obtain ⟨rfl, rfl⟩ := Prod.mk.inj (Except.ok.inj ha)
    exact ⟨_, _, by rw [hq, hc, if_neg (hn _).symm], rfl, .finish hl⟩
  | cons ht hl hr =>
    rw [hp] at ha
    rw [hq, ht]
    split at ha
    · next hs =>
      rw [if_pos hs]
      exact h hr a left ha
    · next hs =>
      obtain ⟨rfl, rfl⟩ := Prod.mk.inj (Except.ok.inj ha)
      exact ⟨_, _, by rw [if_neg hs], rfl, .cons ht hl hr⟩

theorem keeps_dottedTail (hle : fuel ≤ fuel') (text : String) :
    Keeps (c :: after) (dottedTail fuel text) (dottedTail fuel' text) := by
  induction fuel generalizing fuel' text with
  | zero => exact fun _ _ _ => .outOfFuel _
  | succ fuel ih =>
    obtain ⟨fuel', rfl⟩ : ∃ m, fuel' = m + 1 := ⟨fuel' - 1, by omega⟩
    exact fun _ _ hls => .goesOn hc hls (by decide) (by simp) (dottedTail_run fuel text)
      (dottedTail_run fuel' text) fun _ _ hr =>
        (keeps_takeName _).bind hr fun _ _ _ hleft => ih (by omega) _ hleft

theorem keeps_importTail (hle : fuel ≤ fuel') :
    Keeps (c :: after) (importTail fuel) (importTail fuel') := by
  induction fuel generalizing fuel' with
  | zero => exact fun _ _ _ => .outOfFuel _
  | succ fuel ih =>
    obtain ⟨fuel', rfl⟩ : ∃ m, fuel' = m + 1 := ⟨fuel' - 1, by omega⟩
    exact fun _ _ hls => .goesOn hc hls (by decide) (by simp) (importTail_run fuel)
      (importTail_run fuel') fun _ _ hr =>
        (keeps_takeName _).bind hr fun _ _ _ hleft =>
          Keeps.bind (ih (by omega)) hleft fun _ _ _ hleft => .pure hleft rfl

theorem keeps_dottedName : Keeps (c :: after) dottedName dottedName := by
  intro ls ls' hls
  refine (keeps_takeName _).bind hls fun text left left' hleft => ?_
  have hle := hleft.length_le
  exact fun a left ha => keeps_dottedTail hc (by omega) text hleft a left ha

theorem keeps_importNames : Keeps (c :: after) importNames importNames := by
  intro ls ls' hls
  refine .unless hc hls (by decide) (by simp) (fun _ _ _ _ hr => .pure hr rfl) fun _ _ _ =>
    (keeps_takeName _).bind hls fun name left left' hleft => ?_
  have hle := hleft.length_le
  refine .bind (R := Eq) (fun a left ha => keeps_importTail hc (by omega) hleft a left ha) ?_
  rintro names _ left left' rfl hleft
  exact .pure hleft rfl

/-- Parsers that give the same statement at other lines. -/
abbrev KeepsStatement (after : List Located) (p q : Parser Stmt) : Prop :=
  ∀ ⦃ls ls' : List Located⦄, Continues after ls ls' → Carries after Alike p q ls ls'

theorem keeps_simpleContent : KeepsStatement (c :: after) simpleContent simpleContent := by
  intro ls ls' hls
  -- a statement that starts with a term
  have hterm {l l' : Located} {ls ls'} (hls : Continues (c :: after) ls ls') :
      Carries (c :: after) Alike
        (do let target ← expression
            let next ← Parser.peek
            if next.token = .equals then
              skip
              let value ← expression
              return Stmt.assign l.line target value
            else return Stmt.term l.line target)
        (do let target ← expression
            let next ← Parser.peek
            if next.token = .equals then
              skip
              let value ← expression
              return Stmt.assign l'.line target value
            else return Stmt.term l'.line target) ls ls' :=
    (keeps_expression hc).bind hls fun _ _ _ hleft =>
      .unless hc hleft (by decide) (by simp)
        (fun _ _ _ _ hr => (keeps_expression hc).bind hr fun _ _ _ hleft => .pure hleft .assign)
        fun _ _ _ => .pure hleft .term
  refine .peek hls (fun l l' rest rest' hl hf hr => ?_) fun l hl => ?_
  · rw [hl]
    split
    · exact .skip (.pure hr .pass)
    · exact .skip ((keeps_dottedName hc).bind hr fun _ _ _ hleft => .pure hleft .importing)
    · exact .skip ((keeps_dottedName hc).bind hr fun _ _ _ hleft =>
        (keeps_expect (by decide)).bind hleft fun _ _ _ hleft =>
          (keeps_importNames hc).bind hleft fun _ _ _ hleft => .pure hleft .importing)
    · exact hterm (.cons hl hf hr)
  · simp only [hl, hc]
    exact hterm (.finish hl)

theorem keeps_simple : KeepsStatement (c :: after) simple simple := fun _ _ hls =>
  (keeps_simpleContent hc hls).bind fun _ _ _ _ hs hleft =>
    (keeps_expect (by decide)).bind hleft fun _ _ _ hleft => .pure hleft hs

theorem keeps_blockTarget : Keeps (c :: after) blockTarget blockTarget := fun _ _ hls =>
  .unless hc hls (by decide) (by simp) (fun _ _ _ _ hr => (keeps_takeName _).map _ hr) fun _ _ _ =>
    .pure hls rfl

/-- With more fuel, the functions that read blocks give the same at other lines. -/
structure KeepsBlocks (after : List Located) (fuel fuel' : Nat) : Prop where
  block ⦃ls ls' : List Located⦄ (h : Continues after ls ls') :
    Carries after AllAlike (block .dedent fuel) (block .dedent fuel') ls ls'
  statement : KeepsStatement after (statement fuel) (statement fuel')
  suite ⦃ls ls' : List Located⦄ (h : Continues after ls ls') :
    Carries after AllAlike (suite fuel) (suite fuel') ls ls'

theorem keepsBlocks (hle : fuel ≤ fuel') : KeepsBlocks (c :: after) fuel fuel' := by
  induction fuel generalizing fuel' with
  | zero => exact ⟨fun _ _ _ => .outOfFuel _, fun _ _ _ => .outOfFuel _, fun _ _ _ => .outOfFuel _⟩
  | succ fuel ih =>
    obtain ⟨fuel', rfl⟩ : ∃ m, fuel' = m + 1 := ⟨fuel' - 1, by omega⟩
    have h : KeepsBlocks (c :: after) fuel fuel' := ih (by omega)
    refine ⟨fun ls ls' hls => ?_, fun ls ls' hls => ?_, fun ls ls' hls => ?_⟩
    · refine .unless hc hls (by decide) (by simp) (fun _ _ _ _ hr => .pure hr .nil) fun l l' hother => ?_
      split
      · exact .throw _ _
      · next hne =>
        rw [if_neg (hother _ (by simp) hne)]
        exact (h.statement hls).bind fun _ _ _ _ hs hleft => (h.block hleft).bind fun _ _ _ _ hss hleft =>
          .pure hleft (.cons hs hss)
    · exact .unless hc hls (by decide) (by simp)
        (fun _ _ _ _ hr => (keeps_expression hc).bind hr fun _ _ _ hleft =>
          (keeps_blockTarget hc).bind hleft fun _ _ _ hleft => (keeps_expect (by decide)).bind hleft
            fun _ _ _ hleft => (h.suite hleft).bind fun _ _ _ _ hss hleft => .pure hleft (.block hss))
        fun _ _ _ => keeps_simple hc hls
    · exact .unless hc hls (by decide) (by simp)
        (fun _ _ _ _ hr => (keeps_expect (by decide)).bind hr fun _ _ _ hleft => h.block hleft)
        fun _ _ _ => (keeps_simple hc hls).bind fun _ _ _ _ hs hleft => .pure hleft (.cons hs .nil)

/-- In place of the end come the statements that the other tokens are. -/
theorem block_continues {last : List Stmt}
    (hlast : ∀ fuel, n ≤ fuel → block .finish fuel (c :: after) = .ok (last, []))
    (hls : Continues (c :: after) ls ls') (hle : fuel + n ≤ fuel')
    (h : block .finish fuel ls = .ok (ss, left)) :
    ∃ ss', AllAlike ss ss' ∧ block .finish fuel' ls' = .ok (ss' ++ last, []) := by
  induction fuel generalizing fuel' ls ls' ss with
  | zero => cases h
  | succ fuel ih =>
    obtain ⟨fuel', rfl⟩ : ∃ m, fuel' = m + 1 := ⟨fuel' - 1, by omega⟩
    have hblocks : KeepsBlocks (c :: after) fuel fuel' := keepsBlocks hc (by omega)
    have hstatement := hblocks.statement hls
    cases hls with
    | finish hl =>
      rw [block, bind_run, peek_run] at h
      simp only [hl, if_true] at h
      rw [bind_run, skip_run] at h
      obtain ⟨rfl, rfl⟩ := pure_eq_ok.mp h
      exact ⟨[], .nil, hlast _ (by omega)⟩
    | cons ht hf hr =>
      rw [block, bind_run, peek_run] at h
      rw [block, bind_run, peek_run]
      simp only [hf, ht, if_false] at h ⊢
      split at h
      · cases h
      · next hi =>
        obtain ⟨s, mid, hs, h⟩ := bind_eq_ok.mp h
        obtain ⟨ss, left, hss, h⟩ := bind_eq_ok.mp h
        obtain ⟨rfl, rfl⟩ := pure_eq_ok.mp h
        obtain ⟨s', mid', hs', hsame, hmid⟩ := hstatement s mid hs
        have hle : fuel + n ≤ fuel' := by omega
        obtain ⟨ss', hall, hss'⟩ := ih hmid hle hss
        refine ⟨s' :: ss', .cons hsame hall, ?_⟩
        rw [if_neg hi, bind_run, hs']
        simp only
        rw [bind_run, hss']
        rfl

end Statements

end Parser

-- ---------------------------------------------------------------------------
-- Layout
-- ---------------------------------------------------------------------------

/-- The levels of blocks: lines outside of all blocks start at the first column. -/
inductive IsLevels : List Nat → Prop
  | base : IsLevels [1]
  | deeper (h : 1 < level) (hs : IsLevels levels) : IsLevels (level :: levels)

theorem IsLevels.ne_nil (h : IsLevels levels) : levels ≠ [] := by
  cases h <;> simp

theorem IsLevels.closeLevels (h : IsLevels levels) (hne : (closeLevels column levels).2 ≠ []) :
    IsLevels (closeLevels column levels).2 := by
  induction h with
  | base =>
    rw [Script.closeLevels] at hne ⊢
    split
    · simp_all [Script.closeLevels]
    · exact .base
  | deeper hl hs ih =>
    rw [Script.closeLevels] at hne ⊢
    split
    · next hlt =>
      rw [if_pos hlt] at hne
      exact ih hne
    · exact .deeper hl hs

theorem IsLevels.indentLine (h : IsLevels levels) (hi : indentLine levels l = .ok (marks, levels')) :
    IsLevels levels' := by
  rw [Script.indentLine] at hi
  split at hi
  · next hd =>
    obtain ⟨-, rfl⟩ := Prod.mk.inj (Except.ok.inj hi)
    refine .deeper ?_ h
    cases h with
    | base => simpa using hd
    | deeper hl _ => exact Nat.lt_trans hl (by simpa using hd)
  · simp only at hi
    split at hi
    · next hh =>
      obtain ⟨-, rfl⟩ := Prod.mk.inj (Except.ok.inj hi)
      refine h.closeLevels ?_
      intro hn
      rw [hn] at hh
      cases hh
    · cases hi

theorem IsLevels.closeLevels_one (h : IsLevels levels) :
    Script.closeLevels 1 levels = (levels.length - 1, [1]) := by
  induction h with
  | base => rfl
  | deeper hl hs ih =>
    rw [Script.closeLevels, if_pos hl, ih]
    have := List.length_pos_iff.mpr hs.ne_nil
    simp only [List.length_cons, Prod.mk.injEq, and_true]
    omega

theorem IsLevels.indentLine_one (h : IsLevels levels) (hc : l.column = 1) :
    Script.indentLine levels l = .ok (List.replicate (levels.length - 1) (l.with .dedent), [1]) := by
  have hd : levels.head?.any (· < l.column) = false := by
    cases h with
    | base => simp [hc]
    | deeper hl _ => simp only [List.head?_cons, Option.any_some, decide_eq_false_iff_not]; omega
  rw [Script.indentLine, hd, hc, h.closeLevels_one]
  rfl

/-- A line outside of all blocks closes those that are open. -/
theorem layoutFrom_dedents (h : IsLevels levels) {l : Located} (hn : l.token ≠ .newLine)
    (hf : l.token ≠ .finish) (hc : l.column = 1) (rest : List Located) :
    layoutFrom levels 0 true (l :: rest) =
      (List.replicate (levels.length - 1) (l.with .dedent) ++ ·) <$> layoutFrom [1] 0 true (l :: rest) := by
  rw [layoutFrom_token hn hf, layoutFrom_token hn hf]
  simp only [if_true, h.indentLine_one hc, IsLevels.base.indentLine_one hc, bind, Except.bind]
  cases bracketDepth 0 l with
  | error e => rfl
  | ok depth =>
    simp only
    cases layoutFrom [1] depth false rest <;> rfl

/-- Lines without tokens leave no trace. -/
theorem layoutFrom_blank (hb : ∀ l ∈ blank, l.token = .newLine) (levels : List Nat) (rest : List Located) :
    layoutFrom levels 0 true (blank ++ rest) = layoutFrom levels 0 true rest := by
  induction blank with
  | nil => rfl
  | cons l blank ih =>
    rw [List.cons_append, layoutFrom, hb l List.mem_cons_self]
    exact ih fun l hl => hb l (List.mem_cons_of_mem _ hl)

theorem bracketDepth_congr {l l' : Located} (h : l'.token = l.token)
    (hd : bracketDepth depth l = .ok depth') : bracketDepth depth l' = .ok depth' := by
  rw [bracketDepth] at hd ⊢
  rw [h]
  by_cases h0 : depth = 0
  · split at hd <;> simp_all
  · simpa [h0] using hd

theorem indentLine_congr {l l' : Located} (h : l'.column = l.column)
    (hi : indentLine levels l = .ok (marks, levels')) :
    ∃ marks', indentLine levels l' = .ok (marks', levels') ∧ List.Forall₂ Located.Alike marks marks' := by
  rw [indentLine] at hi ⊢
  rw [h]
  split at hi
  · next hd =>
    obtain ⟨rfl, rfl⟩ := Prod.mk.inj (Except.ok.inj hi)
    rw [if_pos hd]
    exact ⟨_, rfl, .cons ⟨rfl, h⟩ .nil⟩
  · next hd =>
    rw [if_neg hd]
    simp only at hi ⊢
    split at hi
    · next hh =>
      obtain ⟨rfl, rfl⟩ := Prod.mk.inj (Except.ok.inj hi)
      rw [if_pos hh]
      exact ⟨_, rfl, List.forall₂_iff_get.mpr ⟨by simp, by simp [Located.Alike, Located.with, h]⟩⟩
    · cases hi

/-- The marks before a token and the levels after them. -/
def marksOf (levels : List Nat) (atLineStart : Bool) (l : Located) :
    Except ParseError (List Located × List Nat) :=
  if atLineStart then indentLine levels l else .ok ([], levels)

theorem layoutFrom_token_eq_ok {l : Located} (hn : l.token ≠ .newLine) (hf : l.token ≠ .finish) :
    layoutFrom levels depth start (l :: rest) = .ok laid ↔ ∃ marks levels₁ depth₁ laid₁,
      marksOf levels start l = .ok (marks, levels₁) ∧ bracketDepth depth l = .ok depth₁ ∧
        layoutFrom levels₁ depth₁ false rest = .ok laid₁ ∧ laid = marks ++ l :: laid₁ := by
  have h : layoutFrom levels depth start (l :: rest) = marksOf levels start l >>= fun marked =>
      bracketDepth depth l >>= fun depth => layoutFrom marked.2 depth false rest >>= fun rest =>
        .ok (marked.1 ++ l :: rest) := by
    rw [layoutFrom_token hn hf, marksOf]
    cases start <;> rfl
  simp only [h, except_bind_eq_ok, Prod.exists, Except.ok.injEq, eq_comm (a := laid), exists_and_left]

theorem marksOf_congr {l l' : Located} (h : l'.column = l.column)
    (hm : marksOf levels start l = .ok (marks, levels')) :
    ∃ marks', marksOf levels start l' = .ok (marks', levels') ∧ List.Forall₂ Located.Alike marks marks' := by
  cases start with
  | true => exact indentLine_congr h hm
  | false =>
    obtain ⟨rfl, rfl⟩ := Prod.mk.inj (Except.ok.inj hm)
    exact ⟨[], rfl, .nil⟩

theorem indentLine_marks (h : indentLine levels l = .ok (marks, levels')) :
    ∀ m ∈ marks, m.token = .indent ∨ m.token = .dedent := by
  intro m hm
  rw [indentLine] at h
  split at h
  · obtain ⟨rfl, -⟩ := Prod.mk.inj (Except.ok.inj h)
    exact .inl (by rw [List.mem_singleton.mp hm]; rfl)
  · simp only at h
    split at h
    · obtain ⟨rfl, -⟩ := Prod.mk.inj (Except.ok.inj h)
      exact .inr (by rw [List.eq_of_mem_replicate hm]; rfl)
    · cases h

theorem IsLevels.marksOf (h : IsLevels levels) (hm : Script.marksOf levels start l = .ok (marks, levels')) :
    IsLevels levels' ∧ ∀ m ∈ marks, m.token ≠ .finish := by
  cases start with
  | true =>
    refine ⟨h.indentLine hm, fun m hmem => ?_⟩
    obtain hi | hd := indentLine_marks hm m hmem
    · simp [hi]
    · simp [hd]
  | false =>
    obtain ⟨rfl, rfl⟩ := Prod.mk.inj (Except.ok.inj hm)
    exact ⟨h, by simp⟩

/-- The layout of tokens that end a line goes on with what follows, at the levels that are open then. -/
theorem layoutFrom_append (h : layoutFrom levels depth start (front ++ [finish]) = .ok laid)
    (hfinish : finish.token = .finish) (hfront : ∀ l ∈ front, l.token ≠ .finish)
    (hlast : ∀ l ∈ front.getLast?, l.token = .newLine) (hnil : front = [] → start = true ∨ 0 < depth)
    (hl : IsLevels levels) : ∃ laid₁ levels', IsLevels levels' ∧
      laid = laid₁ ++ (List.replicate (levels'.length - 1) (finish.with .dedent) ++ [finish]) ∧
      (∀ l ∈ laid₁, l.token ≠ .finish) ∧ ∀ front', List.Forall₂ Located.Alike front front' →
        ∃ laid₁', List.Forall₂ Located.Alike laid₁ laid₁' ∧ ∀ tail laid',
          layoutFrom levels' 0 true tail = .ok laid' →
            layoutFrom levels depth start (front' ++ tail) = .ok (laid₁' ++ laid') := by
  induction front generalizing levels depth start laid with
  | nil =>
    rw [List.nil_append, layoutFrom, hfinish] at h
    simp only at h
    split at h
    · cases h
    · next hd =>
      obtain rfl : start = true := (hnil rfl).resolve_right hd
      obtain rfl := Except.ok.inj h
      obtain rfl : depth = 0 := by omega
      refine ⟨[], levels, hl, by simp [closing], by simp, ?_⟩
      rintro _ ⟨⟩
      exact ⟨[], .nil, fun tail laid' htail => htail⟩
  | cons l front ih =>
    have hfront' : ∀ l ∈ front, l.token ≠ .finish := fun l hl => hfront l (List.mem_cons_of_mem _ hl)
    have hlast' : ∀ l ∈ front.getLast?, l.token = .newLine := by
      intro m hm
      refine hlast m ?_
      rw [Option.mem_def] at hm ⊢
      rw [List.getLast?_cons, hm]
      rfl
    rw [List.cons_append] at h
    by_cases hn : l.token = .newLine
    · rw [layoutFrom, hn] at h
      simp only at h
      split at h
      · next hd =>
        obtain ⟨rest, hrest, h⟩ := except_bind_eq_ok.mp h
        obtain rfl := Except.ok.inj h
        obtain ⟨laid₁, levels', hl', rfl, hne, hall⟩ := ih hrest hfront' hlast' (fun _ => .inl rfl) hl
        refine ⟨l :: laid₁, levels', hl', rfl, List.forall_mem_cons.mpr ⟨by simp [hn], hne⟩, ?_⟩
        rintro _ (_ | ⟨hlike, hfronts⟩)
        obtain ⟨laid₁', hlaid, hrun⟩ := hall _ hfronts
        refine ⟨_ :: laid₁', .cons hlike hlaid, fun tail laid' htail => ?_⟩
        rw [List.cons_append, layoutFrom, hlike.1, hn]
        simp only [hd, if_true, hrun tail laid' htail]
        rfl
      · next hd =>
        have hnil' : front = [] → start = true ∨ 0 < depth := by
          intro _
          cases start with
          | true => exact .inl rfl
          | false => exact .inr (by simpa [Nat.pos_iff_ne_zero] using hd)
        obtain ⟨laid₁, levels', hl', rfl, hne, hall⟩ := ih h hfront' hlast' hnil' hl
        refine ⟨laid₁, levels', hl', rfl, hne, ?_⟩
        rintro _ (_ | ⟨hlike, hfronts⟩)
        obtain ⟨laid₁', hlaid, hrun⟩ := hall _ hfronts
        refine ⟨laid₁', hlaid, fun tail laid' htail => ?_⟩
        rw [List.cons_append, layoutFrom, hlike.1, hn]
        simp only [hd, hrun tail laid' htail]
        rfl
    · have hf := hfront l List.mem_cons_self
      obtain ⟨marks, levels₁, depth₁, rest, hmarks, hdepth, hrest, rfl⟩ :=
        (layoutFrom_token_eq_ok hn hf).mp h
      obtain ⟨hl₁, hmf⟩ := hl.marksOf hmarks
      obtain ⟨laid₁, levels', hl', rfl, hne, hall⟩ := ih hrest hfront' hlast'
        (by rintro rfl; exact absurd (hlast l rfl) hn) hl₁
      refine ⟨marks ++ l :: laid₁, levels', hl', by simp, ?_, ?_⟩
      · exact List.forall_mem_append.mpr ⟨hmf, List.forall_mem_cons.mpr ⟨hf, hne⟩⟩
      · rintro _ (_ | ⟨hlike, hfronts⟩)
        obtain ⟨laid₁', hlaid, hrun⟩ := hall _ hfronts
        obtain ⟨marks', hmarks', hmlike⟩ := marksOf_congr hlike.2 hmarks
        refine ⟨marks' ++ _ :: laid₁', List.rel_append hmlike (.cons hlike hlaid), ?_⟩
        intro tail laid' htail
        rw [List.cons_append, layoutFrom_token_eq_ok (hlike.1 ▸ hn) (hlike.1 ▸ hf)]
        exact ⟨marks', levels₁, depth₁, _, hmarks', bracketDepth_congr hlike.1 hdepth,
          hrun tail laid' htail, by simp⟩

theorem Parser.Continues.append (hlike : List.Forall₂ (fun l l' => l'.token = l.token) xs xs')
    (hne : ∀ l ∈ xs, l.token ≠ .finish) (h : Continues after ls ls') :
    Continues after (xs ++ ls) (xs' ++ ls') := by
  induction hlike with
  | nil => exact h
  | cons hl _ ih =>
    obtain ⟨hf, hne⟩ := List.forall_mem_cons.mp hne
    exact .cons hl hf (ih hne)

-- ---------------------------------------------------------------------------
-- Comments
-- ---------------------------------------------------------------------------

/-- The text is of lines without tokens. -/
def Blank (text : String) : Prop := ScansLines text fun _ _ ls => ∀ l ∈ ls, l.token = .newLine

theorem Blank.append (h : Blank text) (h' : Blank text') : Blank (text ++ text') :=
  ScansLines.append h h' fun _ _ _ _ _ hl hl' => List.forall_mem_append.mpr ⟨hl, hl'⟩

theorem blank_empty : Blank "" := by
  intro fuel p rest hp hfuel
  exact ⟨fuel, p, hfuel, hp, fun tail htail => ⟨[], by simp, htail⟩⟩

theorem blank_newLine : Blank "\n" :=
  scansLines_blank.mono fun _ _ _ ⟨n, hl, hn, _⟩ => by simpa [hl] using hn

/-- A comment reaches up to the end of its line. -/
theorem skipTrivia_comment (h : '\n' ∉ text) (p : Position) (rest : List Char) :
    ∃ q, skipTrivia true p (text ++ '\n' :: rest) = (q, '\n' :: rest) := by
  induction text generalizing p with
  | nil => exact ⟨p, by simp [skipTrivia]⟩
  | cons c text ih =>
    rw [List.mem_cons, not_or] at h
    rw [List.cons_append, skipTrivia.eq_def]
    split
    · contradiction
    · next heq =>
      obtain ⟨-, hl⟩ := List.cons.inj heq
      cases text with
      | nil =>
        obtain ⟨-, rfl⟩ := List.cons.inj hl
        exact ⟨_, rfl⟩
      | cons d text =>
        obtain ⟨rfl, -⟩ := List.cons.inj hl
        exact absurd List.mem_cons_self h.2
    · next heq =>
      obtain ⟨-, hl⟩ := List.cons.inj heq
      cases text with
      | nil => simp at hl
      | cons d text =>
        obtain ⟨rfl, ht⟩ := List.cons.inj hl
        cases text with
        | nil =>
          obtain ⟨-, rfl⟩ := List.cons.inj ht
          exact ⟨_, rfl⟩
        | cons e text =>
          obtain ⟨rfl, -⟩ := List.cons.inj ht
          simp at h
    · next heq =>
      obtain ⟨rfl, rfl⟩ := List.cons.inj heq
      rw [if_pos rfl, if_neg (Ne.symm h.1)]
      exact ih h.2 _

theorem blank_comment (h : '\n' ∉ text.toList) : Blank ("#" ++ text ++ "\n") := by
  intro fuel p rest hp hfuel
  have htext : ("#" ++ text ++ "\n").toList ++ rest = '#' :: (text.toList ++ '\n' :: rest) := by simp
  rw [htext] at hfuel ⊢
  obtain ⟨fuel, rfl⟩ : ∃ m, fuel = m + 1 := ⟨fuel - 1, by simp at hfuel; omega⟩
  obtain ⟨q, hq⟩ := skipTrivia_comment h (p.next '#') rest
  have hskip : skipTrivia false p ('#' :: (text.toList ++ '\n' :: rest)) = (q, '\n' :: rest) := by
    rw [← hq, skipTrivia] <;> simp
  refine ⟨fuel, q.after ['\n'], by simp at hfuel; omega, after_newLine q [], fun tail htail => ?_⟩
  refine ⟨[⟨.newLine, q.line, q.column⟩], by simp, ?_⟩
  have hlexeme : lexeme ('\n' :: rest) = .ok ⟨.newLine, ['\n'], rest⟩ := rfl
  rw [scanFrom, hskip]
  simp only [List.isEmpty_cons, Bool.false_eq_true, if_false, hlexeme, htail]
  rfl

theorem Blank.join (h : ∀ text ∈ texts, Blank text) : Blank (String.join texts) := by
  induction texts with
  | nil => exact blank_empty
  | cons text texts ih =>
    obtain ⟨ht, h⟩ := List.forall_mem_cons.mp h
    rw [String.join_cons]
    exact ht.append (ih h)

-- ---------------------------------------------------------------------------
-- Whole scripts
-- ---------------------------------------------------------------------------

theorem ScansLines.append_exists (h : ScansLines text P) (h' : ScansLines text' P') :
    ScansLines (text ++ text') fun first last ls => ∃ next before after, ls = before ++ after ∧
      P first next before ∧ P' next last after :=
  h.append h' fun _ next _ before after hb ha => ⟨next, before, after, rfl, hb, ha⟩

/-- A line outside of all blocks, which may go over several lines inside brackets, and the end after
it. -/
theorem layoutFrom_lastLine (h : Aligned 0 number (t :: raw) line n) (hlays : Lays 0 (t :: raw) ts)
    (hn : t ≠ .newLine) (hf : t ≠ .finish) (hl : IsLevels levels) (hfinish : finish.token = .finish) :
    ∃ (d : Located) (laid : List Located), d.token = .dedent ∧ laid.map Located.token = ts ∧
      layoutFrom levels 0 true (line ++ [n] ++ [finish]) =
        .ok (List.replicate (levels.length - 1) d ++ (laid ++ n :: [finish])) := by
  obtain ⟨m, line, rfl, hm, hline⟩ := List.map_eq_cons_iff.mp h.tokens
  obtain ⟨m', hhead, -, hc⟩ := h.starts
  obtain rfl : m = m' := by simpa using hhead
  have hcolumn : m.column = 1 := hc
  have hend : layoutFrom [1] 0 false (n :: [finish]) = .ok [n, finish] := by
    rw [layoutFrom, h.newLine]
    simp only [decide_true, Bool.not_false, Bool.and_self, if_true]
    rw [layoutFrom, hfinish]
    rfl
  obtain ⟨laid, hlaid, hrun⟩ := hlays [1] 0 (m :: line) (n :: [finish]) (Nat.zero_le _) h.tokens
  refine ⟨m.with .dedent, laid, rfl, hlaid, ?_⟩
  rw [hend] at hrun
  rw [List.append_assoc, List.singleton_append, List.cons_append,
    layoutFrom_dedents hl (hm ▸ hn) (hm ▸ hf) hcolumn,
    layoutFrom_lineStart (hm ▸ hn) (hm ▸ hf) hcolumn, ← List.cons_append, hrun]
  rfl

/-- The end of a script that is one statement. -/
theorem block_lastLine (hs : ReadsStatement line n stmt) (hfinish : finish.token = .finish) :
    ∃ number, ∀ fuel, 2 ≤ fuel →
      Parser.block .finish fuel (line ++ n :: [finish]) = .ok ([stmt number], []) := by
  obtain ⟨l, hhead, -, hf, hi, -, hrun⟩ := hs
  refine ⟨l.line, fun fuel hfuel => ?_⟩
  obtain ⟨fuel, rfl⟩ : ∃ m, fuel = m + 2 := ⟨fuel - 2, by omega⟩
  have hend : Parser.block .finish (fuel + 1) [finish] = .ok ([], []) := by
    rw [block, bind_run, peek_run]
    simp only [hfinish, if_true]
    rw [bind_run, skip_run]
    rfl
  cases line with
  | nil => contradiction
  | cons m line =>
    obtain rfl := Option.some.inj hhead
    rw [block, List.cons_append, bind_run, peek_run]
    simp only [hf, hi, if_false]
    rw [bind_run, ← List.cons_append, hrun]
    simp only
    rw [bind_run, hend]
    rfl

/-- A script is parsed in the same way after and before lines without tokens, and before an
assignment. -/
theorem parse_continued (h : parse text = .ok ss) (he : Text.Ended text.toList) (hb : Blank before)
    (hb' : Blank comment) (hn : Text.IsIdentifier name) (ht : Spread (ReadsTerm · t) value) :
    ∃ ss' number, AllAlike ss ss' ∧
      parse (before ++ (text ++ (comment ++ Line.render ⟨0, name ++ " = " ++ value⟩))) =
        .ok (ss' ++ [.assign number (.name name) t]) := by
  obtain ⟨laid, hlex, h⟩ := except_bind_eq_ok.mp h
  obtain ⟨⟨ss, left⟩, hblock, h⟩ := except_bind_eq_ok.mp h
  obtain rfl := Except.ok.inj h
  obtain ⟨raw, hscan, hlayout⟩ := except_bind_eq_ok.mp hlex
  obtain ⟨front, finish, rfl, hfinish, hends, hscans⟩ := scansLines_of_scan hscan he
  -- the tokens of the longer script
  obtain ⟨rawValue, ts, hvalue, hlays, hreads⟩ := ht
  have hstarts : ∃ c cs, (name ++ " = " ++ value).toList = c :: cs ∧ startsToken c = true := by
    obtain ⟨c, cs, htext, hstart, -⟩ := (IsPrimary.name hn).starts_append (" = " ++ value)
    exact ⟨c, cs, by rw [String.append_assoc, htext], hstart⟩
  have hassign := scansLines_tokens (hvalue.assign hn) hstarts (by simp) 0
  have hlays : Lays 0 (.name name :: .equals :: rawValue) (.name name :: .equals :: ts) :=
    ((Inline.token (t := .name name) rfl).lays 0).append
      (((Inline.token (t := .equals) rfl).lays 0).append hlays)
  obtain ⟨fuel, p, hfuel, -, hall⟩ := hb.append_exists (hscans.append_exists
    (hb'.append_exists hassign)) _ {} [] rfl (Nat.lt_succ_self _)
  obtain ⟨fuel, rfl⟩ : ∃ m, fuel = m + 1 := ⟨fuel - 1, by omega⟩
  let finish' : Located := ⟨.finish, p.line, p.column⟩
  have hfinish' : finish'.token = .finish := rfl
  obtain ⟨_, ⟨_, blank, _, rfl, hblank, _, front', _, rfl, hfront, _, blank', _, rfl, hblank', line, n, rfl,
    hline, -⟩, hscan'⟩ := hall [finish'] rfl
  -- their layout
  obtain ⟨newLine, hlastLine, hnewLine⟩ := hends.last
  obtain ⟨laid₁, levels, hlevels, rfl, hlaid, hgo⟩ := layoutFrom_append hlayout hfinish hends.tokens
    (fun l hl => by rwa [Option.some.inj ((Option.mem_def.mp hl).symm.trans hlastLine)])
    (by rintro rfl; contradiction) .base
  obtain ⟨d, laid, hd, hlaidTokens, hlast⟩ := layoutFrom_lastLine hline hlays (by simp) (by simp) hlevels
    hfinish'
  have hstatement : ReadsStatement laid n (.assign · (.name name) t) :=
    readsStatement_assign (hlaidTokens ▸ ⟨ts, rfl, hreads⟩) hline.newLine
  obtain ⟨laid₁', hlike, hgo⟩ := hgo front' hfront
  have hlayout' := hgo (blank' ++ (line ++ [n] ++ [finish'])) _ (by rw [layoutFrom_blank hblank', hlast])
  have hlex' : lex (before ++ (text ++ (comment ++ Line.render ⟨0, name ++ " = " ++ value⟩))) =
      .ok (laid₁' ++ (List.replicate (levels.length - 1) d ++ (laid ++ n :: [finish']))) := by
    have hlist : blank ++ (front' ++ (blank' ++ (line ++ [n]))) ++ [finish'] =
        blank ++ (front' ++ (blank' ++ (line ++ [n] ++ [finish']))) := by simp
    rw [List.append_nil, hlist] at hscan'
    rw [lex, scan]
    simp only [hscan']
    exact (layoutFrom_blank hblank [1] _).trans hlayout'
  -- their statements
  obtain ⟨number, hblockLine⟩ := block_lastLine hstatement hfinish'
  obtain ⟨c, rest, rfl, hname, -⟩ := List.map_eq_cons_iff.mp hlaidTokens
  rw [List.cons_append] at hlex' hblockLine
  have hcontinues : Continues (c :: (rest ++ n :: [finish']))
      (laid₁ ++ (List.replicate (levels.length - 1) (finish.with .dedent) ++ [finish]))
      (laid₁' ++ (List.replicate (levels.length - 1) d ++ c :: (rest ++ n :: [finish']))) := by
    have hdedents : List.Forall₂ (fun l l' => l'.token = l.token)
        (List.replicate (levels.length - 1) (finish.with .dedent)) (List.replicate (levels.length - 1) d) :=
      List.forall₂_iff_get.mpr ⟨by simp, by simp [hd, Located.with]⟩
    refine .append (hlike.imp fun _ _ h => h.1) hlaid (.append hdedents (fun l hl => ?_) (.finish hfinish))
    rw [List.eq_of_mem_replicate hl]
    exact Token.noConfusion
  have hfuel : ∀ laid : List Located, 3 * (laid₁ ++
      (List.replicate (levels.length - 1) (finish.with .dedent) ++ [finish])).length + 3 + 2 ≤
        3 * (laid₁' ++ (List.replicate (levels.length - 1) d ++ c :: (rest ++ n :: laid))).length + 3 := by
    intro laid
    simp only [List.length_append, List.length_cons, List.length_replicate, List.length_nil,
      ← hlike.length_eq]
    omega
  obtain ⟨ss', hall, hrun⟩ := block_continues hname hblockLine hcontinues (hfuel [finish']) hblock
  refine ⟨ss', number, hall, ?_⟩
  rw [parse, hlex']
  simp only [bind, Except.bind, hrun]
  rfl

end Qua.Script
