import Qua.Proofs.Script.WellNested

/-!
# What is left of a script

A function that reads a part of a script takes tokens off the front, at least one, and never the end of
the script. So the loops of the parser terminate: fuel for all of the tokens is enough, and the tokens do
not run out. Only the outermost block takes the end. Main statement: `parser_progresses`.
-/

namespace Qua.Script

open Qua.Script.Parser

-- ---------------------------------------------------------------------------
-- Tokens are taken off the front
-- ---------------------------------------------------------------------------

/-- Tokens before the end of the script. -/
def Inside (ls : List Located) : Prop := ∀ l ∈ ls, l.token ≠ .finish

/-- The end of the script is still to come. -/
def HasFinish (ls : List Located) : Prop := ∃ l ∈ ls, l.token = .finish

/-- An error at a token or a text, and not that there is none. -/
def ParseError.IsLocated (e : ParseError) : Prop := e.kind ≠ .unexpectedEnd

theorem HasFinish.of_append (h : HasFinish (taken ++ rest)) (ht : Inside taken) : HasFinish rest := by
  obtain ⟨l, hl, hf⟩ := h
  exact ⟨l, (List.mem_append.mp hl).resolve_left fun hin => ht l hin hf, hf⟩

/-- What ends once ends where that is the end. -/
theorem Ends.eq_nil_of_append (h : Ends (taken ++ rest)) (ht : Ends taken) : rest = [] := by
  obtain ⟨front, finish, hsplit, -, hfront⟩ := h
  obtain ⟨before, finish', rfl, hf, -⟩ := ht
  by_contra hrest
  -- otherwise the first end is before the last token
  have hmem : finish' ∈ front := by
    rw [← List.dropLast_append_getLast hrest, ← List.append_assoc] at hsplit
    rw [← (List.append_inj' hsplit rfl).1]
    simp
  exact hfront finish' hmem hf

theorem Ends.hasFinish (h : Ends ls) : HasFinish ls := by
  obtain ⟨front, finish, rfl, hf, -⟩ := h
  exact ⟨finish, by simp, hf⟩

theorem isLocated_atToken (l : Located) (hk : kind ≠ .unexpectedEnd) :
    (ParseError.atToken l kind).IsLocated := hk

theorem isLocated_expected (l : Located) (what : String) : (ParseError.expected l what).IsLocated := by
  simp [ParseError.IsLocated, ParseError.expected, ParseError.atToken]

namespace Parser

/-- Tokens that are `T` are taken off the front. Where no fuel is missing the other parser, which has
more, does the same, and an error is one at a token. -/
structure Reads (T : List Located → Prop) (missing : Nat) (p q : Parser α) (ls : List Located) :
    Prop where
  taken (a : α) (rest : List Located) (h : p ls = .ok (a, rest)) : ∃ taken, ls = taken ++ rest ∧ T taken
  same (h : missing = 0) : p ls = q ls
  located (h : missing = 0) (hf : HasFinish ls) (e : ParseError) (he : p ls = .error e) : e.IsLocated

/-- At least `n` tokens, and not the end of the script. -/
def Takes (n : Nat) (taken : List Located) : Prop := n ≤ taken.length ∧ Inside taken

/-- At least `n` tokens are taken off the front, and not the end of the script. -/
abbrev Advances (n : Nat) : Nat → Parser α → Parser α → List Located → Prop := Reads (Takes n)

variable {T U V : List Located → Prop} {n i missing : Nat} {ls rest : List Located} {l : Located}

theorem Reads.error {p q : Parser α} (hp : p ls = .error e) (hq : q ls = .error e)
    (he : HasFinish ls → e.IsLocated) : Reads T missing p q ls where
  taken a rest ha := by
    rw [hp] at ha
    nomatch ha
  same _ := by rw [hp, hq]
  located _ hf e' he' := by
    rw [hp] at he'
    exact Except.error.inj he' ▸ he hf

theorem Reads.throw (h : e.IsLocated) :
    Reads T missing (MonadExcept.throw e : Parser α) (MonadExcept.throw e) ls :=
  .error rfl rfl fun _ => h

/-- The tokens have run out before the end of the script. -/
theorem Reads.nil {p q : Parser α} (hp : p [] = .error e) (hq : q [] = .error e) :
    Reads T missing p q [] :=
  .error hp hq fun ⟨_, hl, _⟩ => nomatch hl

theorem Reads.outOfFuel {q : Parser α} (h : missing ≠ 0) : Reads T missing Parser.outOfFuel q ls where
  taken := by rintro _ _ ⟨⟩
  same hm := absurd hm h
  located hm := absurd hm h

theorem Reads.peek {f g : Located → Parser α}
    (h : ∀ l rest, ls = l :: rest → Reads T missing (f l) (g l) (l :: rest)) :
    Reads T missing (peek >>= f) (peek >>= g) ls := by
  cases ls with
  | nil => exact .nil rfl rfl
  | cons l rest => exact ⟨(h l rest rfl).taken, (h l rest rfl).same, (h l rest rfl).located⟩

/-- After what takes no token. -/
theorem Reads.after {p q : Parser α} {f g : α → Parser β} (hp : p ls = .ok (a, ls))
    (hq : q ls = .ok (a, ls)) (h : Reads T missing (f a) (g a) ls) :
    Reads T missing (p >>= f) (q >>= g) ls := by
  have hf : (p >>= f) ls = f a ls := by simp only [bind_run, hp]
  have hg : (q >>= g) ls = g a ls := by simp only [bind_run, hq]
  exact ⟨fun b rest hb => h.taken b rest (hf ▸ hb), fun hm => by rw [hf, hg, h.same hm],
    fun hm hfinish e he => h.located hm hfinish e (hf ▸ he)⟩

theorem Reads.bindTo {p q : Parser α} {f g : α → Parser β} (h : Reads T missing p q ls)
    (hin : ∀ taken, T taken → Inside taken)
    (hf : ∀ a taken rest, ls = taken ++ rest → T taken → Reads U missing (f a) (g a) rest)
    (hboth : ∀ first second, T first → U second → V (first ++ second)) :
    Reads V missing (p >>= f) (q >>= g) ls := by
  refine ⟨fun b rest hb => ?_, fun hm => ?_, fun hm hfinish e he => ?_⟩
  · obtain ⟨a, mid, ha, hb⟩ := bind_eq_ok.mp hb
    obtain ⟨first, hls, hfirst⟩ := h.taken a mid ha
    obtain ⟨second, rfl, hsecond⟩ := (hf a first mid hls hfirst).taken b rest hb
    exact ⟨first ++ second, hls ▸ (List.append_assoc ..).symm, hboth first second hfirst hsecond⟩
  · rw [bind_run, bind_run, ← h.same hm]
    cases ha : p ls with
    | error e => rfl
    | ok result =>
      obtain ⟨first, hls, hfirst⟩ := h.taken _ _ ha
      exact (hf _ first _ hls hfirst).same hm
  · rw [bind_run] at he
    cases ha : p ls with
    | error e' =>
      rw [ha] at he
      exact Except.error.inj he ▸ h.located hm hfinish e' ha
    | ok result =>
      rw [ha] at he
      obtain ⟨first, hls, hfirst⟩ := h.taken _ _ ha
      exact (hf _ first _ hls hfirst).located hm ((hls ▸ hfinish).of_append (hin first hfirst)) e he

theorem Reads.bind {p q : Parser α} {f g : α → Parser β} (h : Advances i missing p q ls)
    (hf : ∀ a rest, rest.length + i ≤ ls.length → Advances (n - i) missing (f a) (g a) rest) :
    Advances n missing (p >>= f) (q >>= g) ls := by
  refine Reads.bindTo h (fun _ => And.right) (fun a taken rest hls ht => hf a rest ?_) ?_
  · rw [hls, List.length_append]
    have := ht.1
    omega
  · rintro first second ⟨hfirst, hin⟩ ⟨hsecond, hin'⟩
    exact ⟨by rw [List.length_append]; omega, List.forall_mem_append.mpr ⟨hin, hin'⟩⟩

/-- Tokens are taken, however many. -/
theorem Reads.any {p q : Parser α} (h : Advances n missing p q ls) : Advances 0 missing p q ls where
  taken a rest ha := by
    obtain ⟨taken, hls, -, hin⟩ := h.taken a rest ha
    exact ⟨taken, hls, Nat.zero_le _, hin⟩
  same := h.same
  located := h.located

/-- No token is taken. -/
theorem Reads.none {p q : Parser α} (hp : p ls = .ok (a, ls)) (hq : q ls = .ok (a, ls)) :
    Advances 0 missing p q ls where
  taken b rest hb := by
    obtain ⟨-, rfl⟩ := Prod.mk.inj (Except.ok.inj (hp.symm.trans hb))
    exact ⟨[], rfl, Nat.le_refl 0, by simp [Inside]⟩
  same _ := by rw [hp, hq]
  located _ _ e he := by
    rw [hp] at he
    nomatch he

theorem Reads.pure (a : α) : Advances 0 missing (Pure.pure a : Parser α) (Pure.pure a) ls :=
  .none rfl rfl

theorem Reads.map {p q : Parser α} (h : Reads T missing p q ls) (f : α → β) :
    Reads T missing (f <$> p) (f <$> q) ls where
  taken b rest hb := by
    obtain ⟨a, -, ha⟩ := map_eq_ok.mp hb
    exact h.taken a rest ha
  same hm := by rw [map_run, map_run, h.same hm]
  located hm hf e he := by
    rw [map_run] at he
    cases hp : p ls with
    | error e' =>
      rw [hp] at he
      exact Except.error.inj he ▸ h.located hm hf e' hp
    | ok result =>
      rw [hp] at he
      nomatch he

/-- A token is taken before the others. -/
theorem Reads.cons {p q p' q' : Parser α} (hp : p (l :: rest) = p' rest)
    (hq : q (l :: rest) = q' rest) (hl : l.token ≠ .finish)
    (h : Advances (n - 1) missing p' q' rest) : Advances n missing p q (l :: rest) where
  taken a left ha := by
    obtain ⟨taken, rfl, hn, hin⟩ := h.taken a left (hp ▸ ha)
    exact ⟨l :: taken, rfl, by rw [List.length_cons]; omega, List.forall_mem_cons.mpr ⟨hl, hin⟩⟩
  same hm := by rw [hp, hq, h.same hm]
  located hm hfinish e he := by
    have hone : Inside [l] := by simpa [Inside] using hl
    exact h.located hm (HasFinish.of_append hfinish hone) e (hp ▸ he)

theorem Reads.skip {f g : Unit → Parser α} (hl : l.token ≠ .finish)
    (h : Advances (n - 1) missing (f ()) (g ()) rest) :
    Advances n missing (skip >>= f) (skip >>= g) (l :: rest) :=
  .cons (by rw [bind_run, skip_run]) (by rw [bind_run, skip_run]) hl h

/-- A token is taken, and it is an error if it is the end. -/
theorem Reads.next {f g : Located → Parser α}
    (h : ∀ l rest, ls = l :: rest → Advances (n - 1) missing (f l) (g l) rest)
    (hend : ∀ l rest, l.token = .finish →
      ∃ e : ParseError, e.IsLocated ∧ f l rest = .error e ∧ g l rest = .error e) :
    Advances n missing (next >>= f) (next >>= g) ls := by
  cases ls with
  | nil => exact .nil rfl rfl
  | cons l rest =>
    by_cases hl : l.token = .finish
    · obtain ⟨e, he, hf, hg⟩ := hend l rest hl
      exact .error (by simp only [bind_run, next_run, hf]) (by simp only [bind_run, next_run, hg])
        fun _ => he
    · exact .cons (by rw [bind_run, next_run]) (by rw [bind_run, next_run]) hl (h l rest rfl)

/-- Up to a token that is not the end. -/
theorem Reads.unless {p f q g : Located → Parser α} {stop : Token} (hf : stop ≠ .finish)
    (hstop : ∀ l rest, rest.length + 1 = ls.length → Advances (n - 1) missing (p l) (q l) rest)
    (hgo : ∀ l, Advances n missing (f l) (g l) ls) :
    Advances n missing
      (Parser.peek >>= fun t => if t.token = stop then Parser.skip >>= fun _ => p t else f t)
      (Parser.peek >>= fun t => if t.token = stop then Parser.skip >>= fun _ => q t else g t) ls := by
  refine .peek fun l rest hls => ?_
  split
  · next hl => exact .skip (hl ▸ hf) (hstop l rest (by rw [hls]; rfl))
  · exact hls ▸ hgo l

theorem advances_expect {t : Token} (ht : t ≠ .finish) :
    Advances 1 missing (expect t) (expect t) ls := by
  refine .next (fun l rest _ => ?_) fun l rest hl => ?_
  · split
    · exact .pure ()
    · exact .throw (isLocated_expected l _)
  · rw [hl, if_neg ht.symm]
    exact ⟨_, isLocated_expected l _, rfl, rfl⟩

theorem advances_takeName (what : String) : Advances 1 missing (takeName what) (takeName what) ls := by
  refine .next (fun l rest _ => ?_) fun l rest hl => ?_
  · split
    · exact .pure _
    · exact .throw (isLocated_expected l _)
  · rw [hl]
    exact ⟨_, isLocated_expected l _, rfl, rfl⟩

theorem advances_separator (closing : Token) :
    Advances 0 missing (separator closing) (separator closing) ls := by
  refine .peek fun l rest _ => ?_
  split
  · next hl =>
    have hskip : Advances 0 missing (skip >>= Pure.pure) (skip >>= Pure.pure) (l :: rest) :=
      .skip (by simp [hl]) (.pure ())
    rwa [bind_pure] at hskip
  · split
    · exact .pure ()
    · exact .throw (isLocated_expected l _)

/-- A keyword argument starts with a name and an equals sign. -/
theorem keywordName_run (ls : List Located) :
    (∃ text l m rest, ls = l :: m :: rest ∧ l.token = .name text ∧ m.token = .equals ∧
      keywordName? ls = .ok (some text, ls)) ∨ keywordName? ls = .ok (none, ls) := by
  unfold keywordName?
  split
  · exact .inl ⟨_, _, _, _, rfl, rfl, rfl, rfl⟩
  · exact .inr rfl

-- ---------------------------------------------------------------------------
-- Terms
-- ---------------------------------------------------------------------------

/-- The functions that read terms take tokens, each with enough fuel for those that are left. -/
structure TermsAdvance (fuel fuel' : Nat) : Prop where
  term {missing : Nat} {ls : List Located} (h : 8 * ls.length + 4 ≤ fuel + missing) :
    Advances 1 missing (term fuel) (term fuel') ls
  operation {missing : Nat} {ls : List Located} (level : Nat)
      (h : 8 * ls.length + 3 ≤ fuel + missing) :
    Advances 1 missing (operation level fuel) (operation level fuel') ls
  operations {missing : Nat} {ls : List Located} (level : Nat) (left : Term)
      (h : 8 * ls.length + 5 ≤ fuel + missing) :
    Advances 0 missing (operations level left fuel) (operations level left fuel') ls
  operand {missing : Nat} {ls : List Located} (h : 8 * ls.length + 2 ≤ fuel + missing) :
    Advances 1 missing (operand fuel) (operand fuel') ls
  postfixes {missing : Nat} {ls : List Located} (value : Term)
      (h : 8 * ls.length + 5 ≤ fuel + missing) :
    Advances 0 missing (postfixes value fuel) (postfixes value fuel') ls
  atom {missing : Nat} {ls : List Located} (h : 8 * ls.length + 1 ≤ fuel + missing) :
    Advances 1 missing (atom fuel) (atom fuel') ls
  parenthesized {missing : Nat} {ls : List Located} (h : 8 * ls.length + 5 ≤ fuel + missing) :
    Advances 1 missing (parenthesized fuel) (parenthesized fuel') ls
  items {missing : Nat} {ls : List Located} {closing : Token} (hc : closing ≠ .finish)
      (h : 8 * ls.length + 5 ≤ fuel + missing) :
    Advances 1 missing (items closing fuel) (items closing fuel') ls
  entries {missing : Nat} {ls : List Located} (h : 8 * ls.length + 5 ≤ fuel + missing) :
    Advances 1 missing (entries fuel) (entries fuel') ls
  arguments {missing : Nat} {ls : List Located} (afterKeyword : Bool)
      (h : 8 * ls.length + 5 ≤ fuel + missing) :
    Advances 1 missing (arguments afterKeyword fuel) (arguments afterKeyword fuel') ls

section Terms

variable {fuel fuel' : Nat} (h : TermsAdvance fuel fuel')
include h

theorem advances_term (hf : 8 * ls.length + 4 ≤ fuel + 1 + missing) :
    Advances 1 missing (term (fuel + 1)) (term (fuel' + 1)) ls :=
  .unless (by decide) (fun _ _ _ => (h.term (by omega)).bind fun _ _ _ => .pure _)
    fun _ => h.operation 0 (by omega)

theorem advances_operation (level : Nat) (hf : 8 * ls.length + 3 ≤ fuel + 1 + missing) :
    Advances 1 missing (operation level (fuel + 1)) (operation level (fuel' + 1)) ls :=
  (h.operand (by omega)).bind fun _ _ _ => h.operations level _ (by omega)

theorem advances_operations (level : Nat) (left : Term)
    (hf : 8 * ls.length + 5 ≤ fuel + 1 + missing) :
    Advances 0 missing (operations level left (fuel + 1)) (operations level left (fuel' + 1)) ls := by
  refine .peek fun l rest hls => ?_
  rw [hls, List.length_cons] at hf
  split
  · next op hl =>
    split
    · split
      · exact .skip (by simp [hl]) ((h.operation _ (by omega)).bind fun _ _ _ =>
          h.operations level _ (by omega))
      · exact .pure left
    · exact .pure left
  · exact .pure left

theorem advances_operand (hf : 8 * ls.length + 2 ≤ fuel + 1 + missing) :
    Advances 1 missing (operand (fuel + 1)) (operand (fuel' + 1)) ls := by
  refine .peek fun l rest hls => ?_
  split
  · next op hl =>
    rw [hls, List.length_cons] at hf
    refine .skip (fun hfinish => ?_) ((h.operand (by omega)).bind fun _ _ _ => .pure _)
    rw [hfinish] at hl
    nomatch hl
  · rw [← hls]
    exact (h.atom (by omega)).bind fun _ _ _ => h.postfixes _ (by omega)

theorem advances_postfixes (value : Term) (hf : 8 * ls.length + 5 ≤ fuel + 1 + missing) :
    Advances 0 missing (postfixes value (fuel + 1)) (postfixes value (fuel' + 1)) ls := by
  refine .peek fun l rest hls => ?_
  rw [hls, List.length_cons] at hf
  split
  · next hl =>
    exact .skip (by simp [hl]) ((h.arguments false (by omega)).bind fun _ _ _ =>
      h.postfixes _ (by omega))
  · next hl =>
    exact .skip (by simp [hl]) ((advances_takeName _).bind fun _ _ _ => h.postfixes _ (by omega))
  · next hl =>
    exact .skip (by simp [hl]) ((h.term (by omega)).bind fun _ _ _ =>
      (advances_expect (by decide)).bind fun _ _ _ => h.postfixes _ (by omega))
  · exact .pure value

theorem advances_atom (hf : 8 * ls.length + 1 ≤ fuel + 1 + missing) :
    Advances 1 missing (atom (fuel + 1)) (atom (fuel' + 1)) ls := by
  refine .next (fun l rest hls => ?_) fun l rest hl => ?_
  · rw [hls, List.length_cons] at hf
    split
    · exact (h.parenthesized (by omega)).any
    · exact (h.items (by decide) (by omega)).any.map _
    · exact (h.entries (by omega)).any.map _
    · split
      · exact .pure _
      · exact .throw (isLocated_expected l _)
  · rw [hl]
    exact ⟨_, isLocated_expected l _, rfl, rfl⟩

theorem advances_parenthesized (hf : 8 * ls.length + 5 ≤ fuel + 1 + missing) :
    Advances 1 missing (parenthesized (fuel + 1)) (parenthesized (fuel' + 1)) ls := by
  refine .unless (by decide) (fun _ _ _ => .pure _) fun _ =>
    (h.term (by omega)).bind fun item left hlen => .next (fun l rest hls => ?_) fun l rest hl => ?_
  · rw [hls, List.length_cons] at hlen
    split
    · exact .pure item
    · exact (h.items (by decide) (by omega)).bind fun _ _ _ => .pure _
    · exact .throw (isLocated_expected l _)
  · rw [hl]
    exact ⟨_, isLocated_expected l _, rfl, rfl⟩

theorem advances_items {closing : Token} (hc : closing ≠ .finish)
    (hf : 8 * ls.length + 5 ≤ fuel + 1 + missing) :
    Advances 1 missing (items closing (fuel + 1)) (items closing (fuel' + 1)) ls :=
  .unless hc (fun _ _ _ => .pure _) fun _ => (h.term (by omega)).bind fun _ _ _ =>
    (advances_separator closing).bind fun _ _ _ => (h.items hc (by omega)).any.bind fun _ _ _ => .pure _

theorem advances_entries (hf : 8 * ls.length + 5 ≤ fuel + 1 + missing) :
    Advances 1 missing (entries (fuel + 1)) (entries (fuel' + 1)) ls :=
  .unless (by decide) (fun _ _ _ => .pure _) fun _ => (h.term (by omega)).bind fun _ _ _ =>
    (advances_expect (by decide)).bind fun _ _ _ => (h.term (by omega)).bind fun _ _ _ =>
      (advances_separator _).bind fun _ _ _ => (h.entries (by omega)).bind fun _ _ _ => .pure _

theorem advances_arguments (afterKeyword : Bool) (hf : 8 * ls.length + 5 ≤ fuel + 1 + missing) :
    Advances 1 missing (arguments afterKeyword (fuel + 1)) (arguments afterKeyword (fuel' + 1)) ls := by
  refine .unless (by decide) (fun _ _ _ => .pure _) fun t => ?_
  obtain ⟨text, l, m, rest, hls, hl, hm, hname⟩ | hname := keywordName_run ls
  · -- the name and the equals sign are not the end
    refine .after hname hname ?_
    simp only
    rw [hls, List.length_cons, List.length_cons] at hf
    rw [hls]
    exact .skip (by simp [hl]) (.skip (by simp [hm]) ((h.term (by omega)).bind fun _ _ _ =>
      (advances_separator _).bind fun _ _ _ => (h.arguments true (by omega)).any.bind fun _ _ _ =>
        .pure _))
  · refine .after hname hname ?_
    simp only
    split
    · exact .throw (isLocated_expected t _)
    · exact (h.term (by omega)).bind fun _ _ _ => (advances_separator _).bind fun _ _ _ =>
        (h.arguments false (by omega)).any.bind fun _ _ _ => .pure _

end Terms

theorem termsAdvance (hle : fuel ≤ fuel') : TermsAdvance fuel fuel' := by
  induction fuel generalizing fuel' with
  | zero =>
    exact ⟨fun _ => .outOfFuel (by omega), fun _ _ => .outOfFuel (by omega),
      fun _ _ _ => .outOfFuel (by omega), fun _ => .outOfFuel (by omega),
      fun _ _ => .outOfFuel (by omega), fun _ => .outOfFuel (by omega), fun _ => .outOfFuel (by omega),
      fun _ _ => .outOfFuel (by omega), fun _ => .outOfFuel (by omega),
      fun _ _ => .outOfFuel (by omega)⟩
  | succ fuel ih =>
    obtain ⟨fuel', rfl⟩ : ∃ m, fuel' = m + 1 := ⟨fuel' - 1, by omega⟩
    have h : TermsAdvance fuel fuel' := ih (by omega)
    exact ⟨advances_term h, advances_operation h, advances_operations h, advances_operand h,
      advances_postfixes h, advances_atom h, advances_parenthesized h, advances_items h,
      advances_entries h, advances_arguments h⟩

-- ---------------------------------------------------------------------------
-- Statements
-- ---------------------------------------------------------------------------

theorem advances_expression : Advances 1 missing expression expression ls := by
  have h : Advances 1 missing (term (8 * ls.length + 8)) (term (8 * ls.length + 8)) ls :=
    (termsAdvance (Nat.le_refl _)).term (by omega)
  exact ⟨h.taken, h.same, h.located⟩

/-- Names that go on after a token that is not the end. -/
theorem Reads.goesOn {p q p' q' : Parser α} {b : α} {link : Token} (hf : link ≠ .finish)
    (hp : ∀ l rest, p (l :: rest) = if l.token = link then p' rest else .ok (b, l :: rest))
    (hq : ∀ l rest, q (l :: rest) = if l.token = link then q' rest else .ok (b, l :: rest))
    (hp' : p [] = .ok (b, [])) (hq' : q [] = .ok (b, []))
    (h : ∀ l rest, ls = l :: rest → Advances 0 missing p' q' rest) : Advances 0 missing p q ls := by
  cases ls with
  | nil => exact .none hp' hq'
  | cons l rest =>
    by_cases hl : l.token = link
    · exact .cons (by rw [hp, if_pos hl]) (by rw [hq, if_pos hl]) (hl ▸ hf) (h l rest rfl)
    · exact .none (by rw [hp, if_neg hl]) (by rw [hq, if_neg hl])

theorem advances_dottedTail (hle : fuel ≤ fuel') (text : String)
    (hf : ls.length + 1 ≤ fuel + missing) :
    Advances 0 missing (dottedTail fuel text) (dottedTail fuel' text) ls := by
  induction fuel generalizing fuel' text ls with
  | zero => exact .outOfFuel (by omega)
  | succ fuel ih =>
    obtain ⟨fuel', rfl⟩ : ∃ m, fuel' = m + 1 := ⟨fuel' - 1, by omega⟩
    refine .goesOn (by decide) (dottedTail_run fuel text) (dottedTail_run fuel' text) rfl rfl
      fun l rest hls => ?_
    rw [hls, List.length_cons] at hf
    exact (advances_takeName _).bind fun _ _ _ => ih (by omega) _ (by omega)

theorem advances_importTail (hle : fuel ≤ fuel') (hf : ls.length + 1 ≤ fuel + missing) :
    Advances 0 missing (importTail fuel) (importTail fuel') ls := by
  induction fuel generalizing fuel' ls with
  | zero => exact .outOfFuel (by omega)
  | succ fuel ih =>
    obtain ⟨fuel', rfl⟩ : ∃ m, fuel' = m + 1 := ⟨fuel' - 1, by omega⟩
    refine .goesOn (by decide) (importTail_run fuel) (importTail_run fuel') rfl rfl fun l rest hls => ?_
    rw [hls, List.length_cons] at hf
    exact (advances_takeName _).bind fun _ _ _ =>
      Reads.bind (ih (by omega) (by omega)) fun _ _ _ => .pure _

theorem advances_dottedName : Advances 1 missing dottedName dottedName ls :=
  (advances_takeName _).bind fun text rest _ =>
    have h : Advances 0 missing (dottedTail (rest.length + 1) text)
      (dottedTail (rest.length + 1) text) rest := advances_dottedTail (Nat.le_refl _) text (by omega)
    ⟨h.taken, h.same, h.located⟩

theorem advances_importNames : Advances 1 missing importNames importNames ls := by
  refine .unless (by decide) (fun _ _ _ => .pure _) fun _ =>
    (advances_takeName _).bind fun name rest _ => ?_
  have h : Advances 0 missing (importTail (rest.length + 1)) (importTail (rest.length + 1)) rest :=
    advances_importTail (Nat.le_refl _) (by omega)
  have htail : Advances 0 missing (fun tokens => importTail (tokens.length + 1) tokens)
      (fun tokens => importTail (tokens.length + 1) tokens) rest := ⟨h.taken, h.same, h.located⟩
  exact htail.bind fun _ _ _ => .pure _

theorem advances_simpleContent : Advances 1 missing simpleContent simpleContent ls := by
  refine .peek fun l rest _ => ?_
  split
  · next hl => exact .skip (by simp [hl]) (.pure _)
  · next hl => exact .skip (by simp [hl]) (advances_dottedName.any.bind fun _ _ _ => .pure _)
  · next hl =>
    exact .skip (by simp [hl]) (advances_dottedName.any.bind fun _ _ _ =>
      (advances_expect (by decide)).any.bind fun _ _ _ => advances_importNames.any.bind fun _ _ _ =>
        .pure _)
  · exact advances_expression.bind fun _ _ _ =>
      .unless (by decide) (fun _ _ _ => advances_expression.any.bind fun _ _ _ => .pure _)
        fun _ => .pure _

theorem advances_simple : Advances 1 missing simple simple ls :=
  advances_simpleContent.bind fun _ _ _ => (advances_expect (by decide)).any.bind fun _ _ _ => .pure _

theorem advances_blockTarget : Advances 0 missing blockTarget blockTarget ls :=
  .unless (by decide) (fun _ _ _ => (advances_takeName _).any.map _) fun _ => .pure _

/-- The functions that read blocks take tokens. -/
structure BlocksAdvance (fuel fuel' : Nat) : Prop where
  block {missing : Nat} {ls : List Located} {terminator : Token} (ht : terminator ≠ .finish)
    (h : 3 * ls.length + 2 ≤ fuel + missing) :
    Advances 1 missing (block terminator fuel) (block terminator fuel') ls
  statement {missing : Nat} {ls : List Located} (h : 3 * ls.length + 1 ≤ fuel + missing) :
    Advances 1 missing (statement fuel) (statement fuel') ls
  suite {missing : Nat} {ls : List Located} (h : 3 * ls.length + 1 ≤ fuel + missing) :
    Advances 1 missing (suite fuel) (suite fuel') ls

theorem blocksAdvance (hle : fuel ≤ fuel') : BlocksAdvance fuel fuel' := by
  induction fuel generalizing fuel' with
  | zero =>
    exact ⟨fun _ _ => .outOfFuel (by omega), fun _ => .outOfFuel (by omega),
      fun _ => .outOfFuel (by omega)⟩
  | succ fuel ih =>
    obtain ⟨fuel', rfl⟩ : ∃ m, fuel' = m + 1 := ⟨fuel' - 1, by omega⟩
    have h : BlocksAdvance fuel fuel' := ih (by omega)
    refine ⟨fun ht hf => .unless ht (fun _ _ _ => .pure _) fun l => ?_,
      fun hf => .unless (by decide) (fun _ _ _ => ?_) fun _ => advances_simple,
      fun hf => .unless (by decide) (fun _ _ _ => ?_) fun _ => advances_simple.bind fun _ _ _ => .pure _⟩
    · split
      · exact .throw (isLocated_atToken l (by simp))
      · exact (h.statement (by omega)).bind fun _ _ _ =>
          (h.block ht (by omega)).any.bind fun _ _ _ => .pure _
    · exact advances_expression.any.bind fun _ _ _ => advances_blockTarget.bind fun _ _ _ =>
        (advances_expect (by decide)).any.bind fun _ _ _ =>
          (h.suite (by omega)).any.bind fun _ _ _ => .pure _
    · exact (advances_expect (by decide)).any.bind fun _ _ _ => (h.block (by decide) (by omega)).any

/-- The outermost block takes the tokens up to the end of the script. -/
theorem reads_outermost (hle : fuel ≤ fuel') (hf : 3 * ls.length + 2 ≤ fuel + missing) :
    Reads Ends missing (block .finish fuel) (block .finish fuel') ls := by
  induction fuel generalizing fuel' ls with
  | zero => exact .outOfFuel (by omega)
  | succ fuel ih =>
    obtain ⟨fuel', rfl⟩ : ∃ m, fuel' = m + 1 := ⟨fuel' - 1, by omega⟩
    refine .peek fun l rest hls => ?_
    split
    · next hl =>
      refine ⟨?_, fun _ => rfl, by rintro _ _ _ ⟨⟩⟩
      rintro _ _ ⟨⟩
      exact ⟨[l], rfl, [], l, rfl, hl, by simp⟩
    · split
      · exact .throw (isLocated_atToken l (by simp))
      · rw [← hls]
        have hstatement : Advances 1 missing (statement fuel) (statement fuel') ls :=
          (blocksAdvance (by omega)).statement (by omega)
        refine hstatement.bindTo (fun _ => And.right) (fun first taken rest hls ht => ?_)
          fun _ _ ht hleft => Ends.append hleft ht.2
        have hlen := ht.1
        rw [hls, List.length_append] at hf
        rw [bind_pure_comp, bind_pure_comp]
        exact (ih (by omega) (by omega)).map _

-- ---------------------------------------------------------------------------
-- Progress
-- ---------------------------------------------------------------------------

/-- What it takes off the front is `T`, `k` steps for each token and `k` more are enough, and the tokens
do not run out before the end of the script. -/
structure Progresses (T : List Located → Prop) (k : Nat) (p : Nat → Parser α) : Prop where
  taken (fuel : Nat) (ls : List Located) (a : α) (rest : List Located) (h : p fuel ls = .ok (a, rest)) :
    ∃ taken, ls = taken ++ rest ∧ T taken
  terminates (fuel : Nat) (ls : List Located) (h : k * ls.length + k ≤ fuel) :
    p (k * ls.length + k) ls = p fuel ls
  located (fuel : Nat) (ls : List Located) (h : k * ls.length + k ≤ fuel) (hf : HasFinish ls)
    (e : ParseError) (he : p fuel ls = .error e) : e.IsLocated

theorem progresses {k : Nat} {p : Nat → Parser α} (h : ∀ fuel fuel' missing (ls : List Located),
    fuel ≤ fuel' → k * ls.length + k ≤ fuel + missing → Reads T missing (p fuel) (p fuel') ls) :
    Progresses T k p where
  taken fuel ls := (h fuel fuel (k * ls.length + k) ls (Nat.le_refl _) (by omega)).taken
  terminates fuel ls hle := (h _ fuel 0 ls hle (by omega)).same rfl
  located fuel ls hle := (h fuel fuel 0 ls (Nat.le_refl _) (by omega)).located rfl

end Parser

theorem isLocated_lexeme (h : lexeme text = .error kind) : kind ≠ .unexpectedEnd := by
  cases text with
  | nil =>
    obtain rfl := Except.error.inj h
    simp
  | cons c text =>
    unfold lexeme stringLexeme numberLexeme at h
    grind

theorem isLocated_scanFrom (h : scanFrom fuel p text = .error e) : e.IsLocated := by
  induction fuel generalizing p text with
  | zero => cases h
  | succ fuel ih =>
    rw [scanFrom] at h
    generalize skipTrivia false p text = skipped at h
    obtain ⟨q, rest⟩ := skipped
    simp only at h
    split at h
    · cases h
    · split at h
      · next kind hkind =>
        obtain rfl := Except.error.inj h
        exact isLocated_lexeme hkind
      · obtain htail | ⟨ls, -, h⟩ := except_bind_eq_error.mp h
        · exact ih htail
        · cases h

theorem isLocated_indentLine (h : indentLine levels l = .error e) : e.IsLocated := by
  unfold indentLine at h
  split at h
  · nomatch h
  · simp only at h
    split at h
    · nomatch h
    · obtain rfl := Except.error.inj h
      exact isLocated_atToken l (by simp)

theorem isLocated_bracketDepth (h : bracketDepth depth l = .error e) : e.IsLocated := by
  unfold bracketDepth at h
  split at h
  case h_4 | h_5 | h_6 =>
    split at h
    · obtain rfl := Except.error.inj h
      exact isLocated_atToken l (by simp)
    · nomatch h
  all_goals nomatch h

theorem isLocated_layoutFrom (h : layoutFrom levels depth atLineStart ls = .error e) :
    e.IsLocated := by
  induction ls generalizing levels depth atLineStart with
  | nil => cases h
  | cons l ls ih =>
    by_cases hn : l.token = .newLine
    · rw [layoutFrom, hn] at h
      simp only at h
      split at h
      · obtain htail | ⟨tail, -, h⟩ := except_bind_eq_error.mp h
        · exact ih htail
        · cases h
      · exact ih h
    · by_cases hf : l.token = .finish
      · rw [layoutFrom, hf] at h
        simp only at h
        split at h
        · obtain rfl := Except.error.inj h
          exact isLocated_atToken l (by simp)
        · cases h
      · rw [layoutFrom_token hn hf] at h
        have hrest {marks levels} (h : (do
            let depth ← bracketDepth depth l
            let rest ← layoutFrom levels depth false ls
            return marks ++ l :: rest) = .error e) : e.IsLocated := by
          obtain hdepth | ⟨depth', -, h⟩ := except_bind_eq_error.mp h
          · exact isLocated_bracketDepth hdepth
          · obtain htail | ⟨tail, -, h⟩ := except_bind_eq_error.mp h
            · exact ih htail
            · cases h
        cases atLineStart with
        | true =>
          obtain hmarks | ⟨⟨marks, levels'⟩, -, h⟩ := except_bind_eq_error.mp h
          · exact isLocated_indentLine hmarks
          · exact hrest h
        | false => exact hrest h

theorem isLocated_lex (h : lex script = .error e) : e.IsLocated := by
  obtain hscan | ⟨raw, -, h⟩ := except_bind_eq_error.mp h
  · exact isLocated_scanFrom hscan
  · exact isLocated_layoutFrom h

/-- The functions that read a script take tokens off its front, and only the outermost block its end;
a script is parsed, or there is an error at one of its tokens. -/
theorem parser_progresses :
    Progresses (Takes 1) 8 term ∧
      (∀ level, Progresses (Takes 1) 8 (operation level)) ∧
      (∀ level left, Progresses (Takes 0) 8 (operations level left)) ∧
      Progresses (Takes 1) 8 operand ∧
      Progresses (Takes 1) 8 (fun fuel => atom fuel >>= (postfixes · fuel)) ∧
      (∀ value, Progresses (Takes 0) 8 (postfixes value)) ∧
      Progresses (Takes 1) 8 parenthesized ∧
      (∀ closing, closing ≠ .finish → Progresses (Takes 1) 8 (items closing)) ∧
      Progresses (Takes 1) 8 entries ∧
      (∀ afterKeyword, Progresses (Takes 1) 8 (arguments afterKeyword)) ∧
      Progresses (Takes 1) 3 statement ∧
      Progresses (Takes 1) 3 suite ∧
      (∀ terminator, terminator ≠ .finish → Progresses (Takes 1) 3 (block terminator)) ∧
      Progresses Ends 3 (block .finish) ∧
      (∀ script ls statements rest, lex script = .ok ls →
        block .finish (3 * ls.length + 3) ls = .ok (statements, rest) → rest = []) ∧
      ∀ script e, parse script = .error e → e.IsLocated := by
  have hterms {fuel fuel' : Nat} (hle : fuel ≤ fuel') := termsAdvance hle
  have hblocks {fuel fuel' : Nat} (hle : fuel ≤ fuel') := blocksAdvance hle
  have houter : Progresses Ends 3 (block .finish) :=
    progresses fun _ _ _ _ hle hf => reads_outermost hle (by omega)
  refine ⟨progresses fun _ _ _ _ hle hf => (hterms hle).term (by omega),
    fun level => progresses fun _ _ _ _ hle hf => (hterms hle).operation level (by omega),
    fun level left => progresses fun _ _ _ _ hle hf => (hterms hle).operations level left (by omega),
    progresses fun _ _ _ _ hle hf => (hterms hle).operand (by omega),
    progresses fun _ _ _ _ hle hf => ((hterms hle).atom (by omega)).bind fun _ _ _ =>
      (hterms hle).postfixes _ (by omega),
    fun value => progresses fun _ _ _ _ hle hf => (hterms hle).postfixes value (by omega),
    progresses fun _ _ _ _ hle hf => (hterms hle).parenthesized (by omega),
    fun closing hc => progresses fun _ _ _ _ hle hf => (hterms hle).items hc (by omega),
    progresses fun _ _ _ _ hle hf => (hterms hle).entries (by omega),
    fun afterKeyword => progresses fun _ _ _ _ hle hf => (hterms hle).arguments afterKeyword (by omega),
    progresses fun _ _ _ _ hle hf => (hblocks hle).statement (by omega),
    progresses fun _ _ _ _ hle hf => (hblocks hle).suite (by omega),
    fun terminator ht => progresses fun _ _ _ _ hle hf => (hblocks hle).block ht (by omega),
    houter, fun script ls statements rest hlex hrun => ?_, fun script e he => ?_⟩
  · obtain ⟨raw, -, hnested⟩ := lex_wellNested hlex
    obtain ⟨taken, rfl, htaken⟩ := houter.taken _ ls _ rest hrun
    exact hnested.ends.eq_nil_of_append htaken
  · obtain hlex | ⟨ls, hlex, he⟩ := except_bind_eq_error.mp he
    · exact isLocated_lex hlex
    · obtain ⟨raw, -, hnested⟩ := lex_wellNested hlex
      obtain hblock | ⟨_, -, he⟩ := except_bind_eq_error.mp he
      · exact houter.located _ ls (Nat.le_refl _) hnested.ends.hasFinish e hblock
      · nomatch he

/-- A block without its body is an error at the end of the script. -/
theorem parser_progresses_openBlock : ∃ e, parse "with a:" = .error e ∧ e.IsLocated := by
  have hfails : (parse "with a:").toBool = false := by decide +kernel
  obtain ⟨-, -, -, -, -, -, -, -, -, -, -, -, -, -, -, hlocated⟩ := parser_progresses
  cases h : parse "with a:" with
  | error e => exact ⟨e, rfl, hlocated _ e h⟩
  | ok statements =>
    rw [h] at hfails
    nomatch hfails

end Qua.Script
