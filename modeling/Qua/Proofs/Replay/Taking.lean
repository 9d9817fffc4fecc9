import Qua.Proofs.Run
import Qua.Replay.Evaluate

/-!
# Taking arguments

What a call gets from its arguments, one rule for each way to take one, and that none of them is left.
-/

namespace Qua.Replay

open Taking

-- ---------------------------------------------------------------------------
-- Lists
-- ---------------------------------------------------------------------------

theorem liftM_run {x : Faulty α} (h : x = .ok b) (a : Arguments) : (liftM x : Taking α) a = .ok (b, a) := by
  rw [h]
  rfl

theorem mapM_liftM_run {f : Value → Faulty β} {values : List Value} {bs : List β}
    (h : values.mapM f = .ok bs) (a : Arguments) :
    (values.mapM fun value => (liftM (f value) : Taking β)) a = .ok (bs, a) := by
  induction values generalizing bs with
  | nil =>
    obtain rfl := Except.ok.inj h
    rfl
  | cons value values ih =>
    rw [List.mapM_cons] at h
    cases hf : f value with
    | error e =>
      rw [hf] at h
      contradiction
    | ok b =>
      cases hfs : values.mapM f with
      | error e =>
        rw [hf, hfs] at h
        contradiction
      | ok cs =>
        rw [hf, hfs] at h
        obtain rfl := Except.ok.inj h
        rw [List.mapM_cons, bind_run, liftM_run hf]
        simp only
        rw [bind_run, ih hfs]
        rfl

/-- Values that are taken as what they were made of. -/
theorem mapM_map_ok {f : Value → Faulty β} {v : β → Value} (h : ∀ b, f (v b) = .ok b)
    (bs : List β) : (bs.map v).mapM f = .ok bs := by
  induction bs with
  | nil => rfl
  | cons b bs ih =>
    rw [List.map_cons, List.mapM_cons, h, ih]
    rfl

-- ---------------------------------------------------------------------------
-- Calls
-- ---------------------------------------------------------------------------

/-- The arguments of a call after the first ones have been taken by position. -/
def Arguments.after (function : String) (taken : Nat) (rest : List Value)
    (keywords : List (String × Option Value)) : Arguments :=
  ⟨function, List.replicate taken none ++ rest.map some, keywords⟩

theorem Arguments.of_eq (function : String) (values : List Value) (keywords : List (String × Value)) :
    Arguments.of function values keywords =
      .after function 0 values (keywords.map fun (name, value) => (name, some value)) := rfl

/-- The call takes all of its arguments and gives the result. -/
def Takes (call : Taking α) (arguments : Arguments) (result : α) : Prop :=
  ∃ left, call arguments = .ok (result, left) ∧ unexpected? left = none

/-- A call whose step succeeds. -/
theorem Takes.perform {call : Taking (Build α)} {step : Build α} {a : α}
    (h : Takes call arguments step) (hs : step s.draft = .ok (a, d)) :
    perform call arguments s = .ok (a, { s with draft := d }) := by
  obtain ⟨left, hc, hl⟩ := h
  have hrun : liftFaulty (call.run arguments) s = .ok ((step, left), s) := by
    rw [StateT.run, hc]
    rfl
  have hbuild : build step s = .ok (a, { s with draft := d }) := by
    rw [build]
    simp only [hs]
  have hfinish (s : State) : liftFaulty (finish left) s = .ok ((), s) := by
    rw [finish, hl]
    rfl
  rw [Replay.perform, bind_run, hrun]
  simp only
  rw [bind_run, hbuild]
  simp only
  rw [bind_run, hfinish]
  rfl

namespace Takes

variable {function name : String} {n : Nat} {value : Value} {rest : List Value}
  {keywords keywords' : List (String × Option Value)}

theorem bind {m : Taking β} {f : β → Taking α} {a a' : Arguments} {b : β} (hm : m a = .ok (b, a'))
    (h : Takes (f b) a' r) : Takes (m >>= f) a r := by
  obtain ⟨left, hf, hl⟩ := h
  refine ⟨left, ?_, hl⟩
  rw [bind_run, hm]
  exact hf

theorem map {m : Taking β} (f : β → α) (h : Takes m a b) : Takes (f <$> m) a (f b) := by
  obtain ⟨left, hm, hl⟩ := h
  refine ⟨left, ?_, hl⟩
  rw [map_run, hm]

theorem of_lift {x : Faulty β} {f : β → Taking α} {b : β} (hx : x = .ok b) (h : Takes (f b) a r) :
    Takes ((liftM x : Taking β) >>= f) a r :=
  .bind (liftM_run hx a) h

theorem unexpected_eq_none {a : Arguments} :
    unexpected? a = none ↔ (∀ value ∈ a.positional, value = none) ∧ ∀ k ∈ a.keywords, k.2 = none := by
  rw [unexpected?]
  cases hp : a.positional.findIdx? Option.isSome with
  | some position =>
    obtain ⟨h, hsome, -⟩ := List.findIdx?_eq_some_iff_getElem.mp hp
    simp only [reduceCtorEq, false_iff, not_and]
    intro hall
    rw [hall _ (List.getElem_mem h)] at hsome
    contradiction
  | none =>
    rw [List.findIdx?_eq_none_iff] at hp
    simp only [Option.map_eq_none_iff, List.find?_eq_none, Option.not_isSome_iff_eq_none]
    refine ⟨fun hk => ⟨fun value hv => ?_, hk⟩, And.right⟩
    simpa using hp value hv

/-- Nothing is left to take. -/
theorem done (r : α) (hk : ∀ k ∈ keywords, k.2 = none) :
    Takes (pure r) (.after function n [] keywords) r := by
  refine ⟨_, rfl, unexpected_eq_none.mpr ⟨fun value hv => ?_, hk⟩⟩
  rw [Arguments.after, List.map_nil, List.append_nil] at hv
  exact (List.mem_replicate.mp hv).2

theorem done_lift {x : Faulty α} (hx : x = .ok r) (hk : ∀ k ∈ keywords, k.2 = none) :
    Takes (liftM x) (.after function n [] keywords) r := by
  rw [hx]
  exact .done r hk

-- ---------------------------------------------------------------------------
-- Positions
-- ---------------------------------------------------------------------------

/-- The argument after those that have been taken. -/
theorem takeAt_run (n : Nat) :
    takeAt n (.after function n (value :: rest) keywords) =
      .ok (some value, .after function (n + 1) rest keywords) := by
  have hget : (List.replicate n none ++ some value :: rest.map some)[n]? = some (some value) := by
    rw [List.getElem?_append_right (by simp), List.length_replicate, Nat.sub_self]
    rfl
  have hset : (List.replicate n none ++ some value :: rest.map some).set n none =
      List.replicate (n + 1) none ++ rest.map some := by
    rw [List.set_append_right _ _ (by simp), List.length_replicate, Nat.sub_self,
      List.replicate_succ']
    simp
  rw [takeAt, bind_run, get_run]
  simp only [Arguments.after, List.map_cons, hget]
  rw [bind_run, set_run, hset]
  rfl

theorem required_run (n : Nat) (name : String) :
    Taking.required n name (.after function n (value :: rest) keywords) =
      .ok (value, .after function (n + 1) rest keywords) := by
  rw [Taking.required, bind_run, take?, bind_run, takeAt_run]
  rfl

theorem required {f : Value → Taking α}
    (h : Takes (f value) (.after function (n + 1) rest keywords) r) :
    Takes (Taking.required n name >>= f) (.after function n (value :: rest) keywords) r :=
  .bind (required_run n name) h

/-- An argument that is read as it is taken. -/
theorem reading_run {read : Value → Faulty β} (n : Nat) (name : String) (hv : read value = .ok b) :
    (Taking.required n name >>= fun value => (liftM (read value) : Taking β))
      (.after function n (value :: rest) keywords) =
        .ok (b, .after function (n + 1) rest keywords) := by
  rw [bind_run, required_run]
  exact liftM_run hv _

theorem text {f : String → Taking α} {text : String}
    (h : Takes (f text) (.after function (n + 1) rest keywords) r) :
    Takes (Taking.text n name >>= f) (.after function n (.string text :: rest) keywords) r :=
  .bind (reading_run n name rfl) h

theorem expression {f : Expression → Taking α} {e : Expression}
    (hv : value.toExpression = .ok e)
    (h : Takes (f e) (.after function (n + 1) rest keywords) r) :
    Takes (Taking.expression n name >>= f) (.after function n (value :: rest) keywords) r :=
  .bind (reading_run n name hv) h

theorem int {f : Int64 → Taking α} {i : Int64}
    (h : Takes (f i) (.after function (n + 1) rest keywords) r) :
    Takes (Taking.int n name >>= f) (.after function n (.int i :: rest) keywords) r :=
  .bind (reading_run n name rfl) h

/-- An optional argument that is given by its position. -/
theorem optional {f : Option Value → Taking α} (hv : value.isNone = false)
    (h : Takes (f (some value)) (.after function (n + 1) rest keywords) r) :
    Takes (Taking.optional n name >>= f) (.after function n (value :: rest) keywords) r := by
  refine .bind ?_ h
  rw [Taking.optional, bind_run, take?, bind_run, takeAt_run]
  simp [hv]

/-- The same, read at once. -/
theorem given {read : Value → Faulty β} {f : Option β → Taking α} (hr : read value = .ok b)
    (hv : value.isNone = false) (h : Takes (f (some b)) (.after function (n + 1) rest keywords) r) :
    Takes (Taking.optional n name >>= fun v => optionalAs read v >>= f)
      (.after function n (value :: rest) keywords) r := by
  refine .optional hv (.bind ?_ h)
  rw [optionalAs, Option.mapM_some, map_run, liftM_run hr]

/-- An optional argument whose position holds `None`. -/
theorem given_none {read : Value → Faulty β} {f : Option β → Taking α}
    (h : Takes (f none) (.after function (n + 1) rest keywords) r) :
    Takes (Taking.optional n name >>= fun v => optionalAs read v >>= f)
      (.after function n (.none :: rest) keywords) r := by
  refine .bind (b := none) ?_ (.bind (b := none) rfl h)
  rw [Taking.optional, bind_run, take?, bind_run, takeAt_run]
  rfl

/-- The name of a choice. -/
theorem choice {f : Option β → Taking α} {ofName? : String → Option β} {text : String}
    (hc : ofName? text = some c)
    (h : Takes (f (some c)) (.after function (n + 1) rest keywords) r) :
    Takes (Taking.choice ofName? n name >>= f)
      (.after function n (.string text :: rest) keywords) r := by
  refine .bind ?_ h
  rw [Taking.choice, bind_run, Taking.optional, bind_run, take?, bind_run, takeAt_run]
  simp only [Option.filter, Value.isNone, Bool.not_false, if_true, pure_run]
  rw [bind_run, liftM_run (show (Value.string text).toText = .ok text from rfl)]
  simp only [hc]
  rfl

/-- All arguments from a position on. -/
theorem rest_run (n : Nat) :
    Taking.rest n (.after function n rest keywords) =
      .ok (rest, .after function (n + rest.length) [] keywords) := by
  have hmap : rest.map ((fun _ => none) ∘ some) = List.replicate rest.length (none : Option Value) :=
    List.map_const' ..
  rw [Taking.rest, bind_run, get_run]
  simp only
  rw [bind_run, set_run]
  simp [Arguments.after, hmap]

theorem allRest {f : List Value → Taking α}
    (h : Takes (f rest) (.after function (n + rest.length) [] keywords) r) :
    Takes (Taking.rest n >>= f) (.after function n rest keywords) r :=
  .bind (rest_run n) h

theorem texts {f : List String → Taking α} {strings : List String}
    (h : Takes (f strings) (.after function (n + strings.length) [] keywords) r) :
    Takes (Taking.texts n >>= f) (.after function n (strings.map .string) keywords) r := by
  have hl : (strings.map Value.string).length = strings.length := List.length_map ..
  refine .bind ?_ (hl ▸ h)
  rw [Taking.texts, bind_run, rest_run]
  exact mapM_liftM_run (mapM_map_ok (v := Value.string) (fun _ => rfl) strings) _

theorem mapped {read : Value → Faulty β} {bs : List β} {f : List β → Taking α} {values : List Value}
    (hv : values.mapM read = .ok bs) (h : Takes (f bs) a r) :
    Takes ((values.mapM fun value => (liftM (read value) : Taking β)) >>= f) a r :=
  .bind (mapM_liftM_run hv a) h

-- ---------------------------------------------------------------------------
-- Keywords
-- ---------------------------------------------------------------------------

theorem takeAt_missing (hn : taken + rest.length ≤ n) :
    takeAt n (.after function taken rest keywords) =
      .ok (none, .after function taken rest keywords) := by
  have hget : (List.replicate taken none ++ rest.map some)[n]? = (none : Option (Option Value)) := by
    rw [List.getElem?_eq_none_iff]
    simpa using hn
  rw [takeAt, bind_run, get_run]
  simp only [Arguments.after, hget]
  rfl

/-- An optional argument that is given by its keyword, or not at all. -/
theorem optional_keyword {f : Option Value → Taking α} (hn : taken + rest.length ≤ n)
    (h : Takes (f ((splitKeyword name keywords).1.filter fun v => !v.isNone))
      (.after function taken rest (splitKeyword name keywords).2) r) :
    Takes (Taking.optional n name >>= f) (.after function taken rest keywords) r := by
  refine .bind ?_ h
  rw [Taking.optional, bind_run, take?, bind_run, takeAt_missing hn]
  rfl

theorem keyword {f : Option Value → Taking α}
    (h : Takes (f ((splitKeyword name keywords).1.filter fun v => !v.isNone))
      (.after function taken rest (splitKeyword name keywords).2) r) :
    Takes (Taking.keyword name >>= f) (.after function taken rest keywords) r :=
  .bind rfl h

/-- A flag that is given by its keyword if it is set. -/
theorem flag_keyword {f : Bool → Taking α} {b : Bool} (hn : taken + rest.length ≤ n)
    (hk : (splitKeyword name keywords).1 = if b then some (.bool true) else none)
    (h : Takes (f b) (.after function taken rest (splitKeyword name keywords).2) r) :
    Takes (Taking.flag n name >>= f) (.after function taken rest keywords) r := by
  rw [Taking.flag, bind_assoc]
  refine .optional_keyword hn ?_
  rw [hk]
  cases b <;> exact .bind rfl h

/-- A flag that is given by its position. -/
theorem flag {f : Bool → Taking α} {b : Bool}
    (h : Takes (f b) (.after function (n + 1) rest keywords) r) :
    Takes (Taking.flag n name >>= f) (.after function n (.bool b :: rest) keywords) r := by
  rw [Taking.flag, bind_assoc]
  exact .optional rfl (.bind rfl h)

/-- What an optional argument is read as. -/
theorem read_optional {read : Value → Faulty β} {value : γ → Value} {g : γ → β} {x : Option γ}
    {f : Option β → Taking α} (hv : ∀ c ∈ x, read (value c) = .ok (g c) ∧ (value c).isNone = false)
    (h : Takes (f (x.map g)) a r) :
    Takes (optionalAs read ((x.map value).filter fun v => !v.isNone) >>= f) a r := by
  refine .bind ?_ h
  cases x with
  | none => rfl
  | some c =>
    obtain ⟨hr, hn⟩ := hv c rfl
    simp only [Option.map_some, Option.filter, hn, Bool.not_false, if_true, optionalAs]
    rw [Option.mapM_some, map_run, liftM_run hr]

end Takes

-- ---------------------------------------------------------------------------
-- Keywords that may be missing
-- ---------------------------------------------------------------------------

/-- A keyword argument of a call, if it has a value. -/
def keywordOf (name : String) (value : Option Value) : List (String × Value) :=
  value.toList.map (name, ·)

/-- The same among the arguments of the call, taken or not. -/
def slot (taken : Bool) (name : String) (value : Option Value) : List (String × Option Value) :=
  value.toList.map fun value => (name, if taken then none else some value)

section

variable {name other : String} {rest : List (String × Option Value)}

theorem map_keywordOf (name : String) (value : Option Value) :
    (keywordOf name value).map (fun (name, value) => (name, some value)) = slot false name value := by
  cases value <;> rfl

theorem splitKeyword_nil (name : String) : splitKeyword name [] = (none, []) := rfl

theorem splitKeyword_same (value : Option Value) (h : splitKeyword name rest = (none, rest)) :
    splitKeyword name (slot false name value ++ rest) = (value, slot true name value ++ rest) := by
  cases value with
  | none => simpa [slot] using h
  | some value => simp [slot, splitKeyword]

theorem splitKeyword_other (taken : Bool) (value : Option Value) (h : other ≠ name) :
    splitKeyword name (slot taken other value ++ rest) =
      ((splitKeyword name rest).1, slot taken other value ++ (splitKeyword name rest).2) := by
  cases value with
  | none => simp [slot]
  | some value => simp [slot, splitKeyword, h]

theorem splitKeyword_last (value : Option Value) :
    splitKeyword name (slot false name value) = (value, slot true name value) := by
  simpa using splitKeyword_same value (splitKeyword_nil name)

theorem splitKeyword_last_other (taken : Bool) (value : Option Value) (h : other ≠ name) :
    splitKeyword name (slot taken other value) = (none, slot taken other value) := by
  have hsplit := @splitKeyword_other name other [] taken value h
  simpa [splitKeyword_nil] using hsplit

theorem slot_taken {k : String × Option Value} (h : k ∈ slot true name value) : k.2 = none := by
  cases value with
  | none => simp [slot] at h
  | some value =>
    obtain rfl : k = (name, none) := by simpa [slot] using h
    rfl

end

end Qua.Replay
