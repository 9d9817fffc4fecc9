import Mathlib.Logic.Relation
import Qua.Proofs.Printing.Values
import Qua.Proofs.Replay.Consumption
import Qua.Proofs.Replay.Standing

/-!
# What a replay reaches

A replay is an activity that begins others: the script its statements, a statement its terms and its body,
and a term the terms that it is made of, each in the state that the ones before it leave. What a replay
reaches may come long before the statement at which it fails. A term does nothing but evaluate its operands
and then finish with their values (`evaluate_eq`), so its operands are all that it begins.

A numeral has no sign and fits an integer, and no operator, call or assignment makes the least integer of
others: wherever a replay comes to, each integer has an opposite. Main statement: `integers_negatable`.
-/

namespace Qua.Replay

open Script (Term Stmt)

-- ---------------------------------------------------------------------------
-- Terms
-- ---------------------------------------------------------------------------

/-- The terms that a term evaluates, in their order. -/
def operands (s : State) : Term → List Term
  | .tuple items => items
  | .list items => items
  | .dict entries => entries.flatMap fun (key, value) => [key, value]
  | .call (.name name) arguments keywords =>
    if s.isBound name then [] else arguments ++ keywords.map Prod.snd
  | .call (.attribute (.name module) _) arguments keywords =>
    if !s.isBound module && isModule module then arguments ++ keywords.map Prod.snd
    else .name module :: (arguments ++ keywords.map Prod.snd)
  | .call (.attribute value _) arguments keywords => value :: (arguments ++ keywords.map Prod.snd)
  | .index value index => [value, index]
  | .binary _ left right => [left, right]
  | .unary _ operand => [operand]
  | _ => []

/-- The arguments of a call whose values are given, those of its keywords behind the others. -/
def given (function : String) (arguments : List Term) (keywords : List (String × Term))
    (values : List Value) : Arguments :=
  .of function (values.take arguments.length) ((keywords.map Prod.fst).zip (values.drop arguments.length))

/-- What a term makes of the values of its operands. -/
def finish (s : State) (t : Term) (values : List Value) : Replay Value :=
  match t with
  | .name name => lookup name
  | .int n => liftFaulty (integer n)
  | .float x => return .float x
  | .string s => return .string s
  | .bool b => return .bool b
  | .none => return .none
  | .tuple _ => return .tuple values
  | .list _ => return .list values
  | .dict _ => return .dict
  | .call (.name name) arguments keywords =>
    if s.isBound name then fault (.unknownFunction name)
    else callBuiltin name (given name arguments keywords values)
  | .call (.attribute (.name module) name) arguments keywords =>
    if !s.isBound module && isModule module then
      perform (moduleFunction s.inProgram module name)
        (given (module ++ "." ++ name) arguments keywords values)
    else
      perform (method s.inProgram (values.getD 0 .none) name) (given name arguments keywords values.tail)
  | .call (.attribute _ name) arguments keywords =>
    perform (method s.inProgram (values.getD 0 .none) name) (given name arguments keywords values.tail)
  | .call function _ _ => fault (.unknownFunction (contextName function))
  | .attribute value name => fault (.unknownName (contextName value ++ "." ++ name))
  | .index _ _ => liftFaulty (indexed (values.getD 0 .none) (values.getD 1 .none))
  | .binary operator _ _ => liftFaulty (binary operator (values.getD 0 .none) (values.getD 1 .none))
  | .unary operator _ => liftFaulty (unary operator (values.getD 0 .none))

section

variable {s s' : State} {arguments : List Term} {keywords : List (String × Term)}

theorem evaluateAll_append (ts us : List Term) :
    evaluateAll (ts ++ us) = (do
      let values ← evaluateAll ts
      let rest ← evaluateAll us
      return values ++ rest) := by
  induction ts with
  | nil => simp [evaluateAll]
  | cons t ts ih => simp [evaluateAll, ih]

theorem evaluateKeywords_eq (keywords : List (String × Term)) :
    evaluateKeywords keywords = (do
      let values ← evaluateAll (keywords.map Prod.snd)
      return (keywords.map Prod.fst).zip values) := by
  induction keywords with
  | nil => simp [evaluateAll, evaluateKeywords]
  | cons keyword rest ih => simp [evaluateAll, evaluateKeywords, ih]

theorem evaluateEntries_eq (entries : List (Term × Term)) :
    evaluateEntries entries = (do
      let _ ← evaluateAll (entries.flatMap fun (key, value) => [key, value])) := by
  induction entries with
  | nil => simp [evaluateAll, evaluateEntries]
  | cons entry rest ih => simp [evaluateAll, evaluateEntries, ih]

/-- The arguments of a call are evaluated like one list of terms. -/
theorem evaluate_given (function : String) (arguments : List Term) (keywords : List (String × Term))
    (call : Arguments → Replay α) :
    (do
      let values ← evaluateAll arguments
      let entries ← evaluateKeywords keywords
      call (.of function values entries)) =
    (do
      let values ← evaluateAll (arguments ++ keywords.map Prod.snd)
      call (given function arguments keywords values)) := by
  funext s
  rw [evaluateKeywords_eq, evaluateAll_append, bind_assoc, bind_run, bind_run]
  cases hvalues : evaluateAll arguments s with
  | error e => rfl
  | ok result =>
    obtain ⟨values, s'⟩ := result
    have hlength := gives_evaluateAll arguments hvalues
    simp [given, ← hlength]

/-- A method is called on the value of the first operand. -/
theorem evaluate_receiver (t : Term) (arguments : List Term) (keywords : List (String × Term))
    (call : Value → Arguments → Replay α) (name : String) :
    (do
      let receiver ← evaluate t
      let values ← evaluateAll arguments
      let entries ← evaluateKeywords keywords
      call receiver (.of name values entries)) =
    (do
      let values ← evaluateAll (t :: (arguments ++ keywords.map Prod.snd))
      call (values.getD 0 .none) (given name arguments keywords values.tail)) := by
  simp only [evaluate_given, evaluateAll, bind_assoc, pure_bind]
  rfl

/-- A call evaluates its operands and finishes with their values. -/
theorem evaluate_call_eq (function : Term) (s : State) :
    evaluate (.call function arguments keywords) s = (do
      let values ← evaluateAll (operands s (.call function arguments keywords))
      finish s (.call function arguments keywords) values) s := by
  have hmethod (value : Term) (name : String) := congrFun (evaluate_receiver value arguments keywords
    (fun receiver => perform (method s.inProgram receiver name)) name) s
  cases function with
  | name name =>
    have hrun : isBound name s = .ok (s.isBound name, s) := rfl
    rw [evaluate, bind_run, hrun, operands]
    cases hbound : s.isBound name with
    | true => simp [finish, hbound, evaluateAll]
    | false => simp [finish, hbound, evaluate_given]
  | «attribute» value name =>
    cases value with
    | name module =>
      have hrun : isBound module s = .ok (s.isBound module, s) := rfl
      rw [evaluate, bind_run, get_run, operands]
      simp only [bind_run (isBound module), hrun]
      by_cases hm : !s.isBound module && isModule module
      · simp [finish, hm, evaluate_given]
      · simp only [finish, hm]
        exact hmethod (.name module) name
    | _ =>
      rw [evaluate, bind_run, get_run, operands]
      · exact hmethod _ name
      all_goals
        rintro _ ⟨⟩
  | _ => rfl

/-- A term evaluates its operands and finishes with their values. -/
theorem evaluate_eq (t : Term) (s : State) :
    evaluate t s = (do
      let values ← evaluateAll (operands s t)
      finish s t values) s := by
  cases t with
  | tuple items => rw [evaluate]; rfl
  | list items => rw [evaluate]; rfl
  | dict entries => simp [evaluate, evaluateEntries_eq, operands, finish]
  | index value index => simp [evaluate, evaluateAll, operands, finish]
  | binary operator left right => simp [evaluate, evaluateAll, operands, finish]
  | unary operator operand => simp [evaluate, evaluateAll, operands, finish]
  | call function arguments keywords => exact evaluate_call_eq function s
  | _ => rfl

end

-- ---------------------------------------------------------------------------
-- Activities
-- ---------------------------------------------------------------------------

/-- What is replayed. -/
inductive Activity
  | script (stmts : List Stmt)
  /-- A statement outside of all blocks. -/
  | outer (stmt : Stmt)
  | block (stmts : List Stmt)
  /-- A statement in a block, or one outside that is no block itself. -/
  | inner (stmt : Stmt)
  | term (t : Term)

/-- The values that an activity computes: none, or that of the term. -/
def Activity.run : Activity → Replay (List Value)
  | .script stmts => (fun _ => []) <$> module stmts
  | .outer stmt => (fun _ => []) <$> topLevel stmt
  | .block stmts => (fun _ => []) <$> statements stmts
  | .inner stmt => (fun _ => []) <$> statement stmt
  | .term t => (fun v => [v]) <$> evaluate t

/-- The state at a statement of a block. -/
def State.atStatement (s : State) (stmt : Stmt) : State :=
  { s with draft := { s.draft with location := "script:" ++ toString stmt.line } }

/-- In a state, an activity begins another one in a state that it has come to. -/
inductive Begins : Activity × State → Activity × State → Prop
  | outer {before after : List Stmt} {stmt : Stmt} {s s' : State}
      (h : (before.forM fun stmt => atLine stmt.line (topLevel stmt)) s = .ok ((), s')) :
      Begins (.script (before ++ stmt :: after), s) (.outer stmt, s')
  | program {line : Nat} {context : Term} {target : Option String} {body : List Stmt} {s : State}
      (hc : programCall? context = some false) (hs : s.programs = 0) :
      Begins (.outer (.block line context target body), s)
        (.block body, { s with programs := s.programs + 1, inProgram := true })
  | plain {stmt : Stmt} {s : State}
      (h : ∀ line context target body, stmt ≠ .block line context target body) :
      Begins (.outer stmt, s) (.inner stmt, s)
  | inner {before after : List Stmt} {stmt : Stmt} {s s' : State}
      (h : statements before s = .ok ((), s')) :
      Begins (.block (before ++ stmt :: after), s) (.inner stmt, s'.atStatement stmt)
  | assigned {line : Nat} {name : String} {value : Term} {s : State} :
      Begins (.inner (.assign line (.name name) value), s) (.term value, s)
  | evaluated {line : Nat} {t : Term} {s : State} : Begins (.inner (.term line t), s) (.term t, s)
  | argument {line : Nat} {name : String} {arguments : List Term} {keywords : List (String × Term)}
      {target : Option String} {body : List Stmt} {before after : List Term} {t : Term} {s s' : State}
      {values : List Value} (hs : s.inProgram = true) (hname : name ≠ "program")
      (ht : arguments ++ keywords.map Prod.snd = before ++ t :: after)
      (h : evaluateAll before s = .ok (values, s')) :
      Begins (.inner (.block line (.call (.name name) arguments keywords) target body), s) (.term t, s')
  | body {line id : Nat} {context : Term} {target : Option String} {body : List Stmt} {s s' : State}
      (h : openScope context s = .ok (id, s')) :
      Begins (.inner (.block line context target body), s) (.block body, s')
  | operand {before after : List Term} {t u : Term} {s s' : State} {values : List Value}
      (ht : operands s t = before ++ u :: after) (h : evaluateAll before s = .ok (values, s')) :
      Begins (.term t, s) (.term u, s')

/-- The replay of a script comes to an activity in a state. -/
def Reached (script : String) (a : Activity) (s : State) : Prop :=
  ∃ stmts, Script.parse script = .ok stmts ∧ Relation.ReflTransGen Begins (.script stmts, {}) (a, s)

-- ---------------------------------------------------------------------------
-- Integers of values
-- ---------------------------------------------------------------------------

mutual

/-- The integers in a value: in lists and tuples too, but not those that are literals of expressions or
parameters of a stream. -/
def Value.integers : Value → List Int64
  | .int n => [n]
  | .list items => Value.integersOfAll items
  | .tuple items => Value.integersOfAll items
  | _ => []

def Value.integersOfAll : List Value → List Int64
  | [] => []
  | v :: rest => v.integers ++ Value.integersOfAll rest

end

/-- The integers in the values that the script has assigned. -/
def State.integers (s : State) : List Int64 := Value.integersOfAll (s.environment.map Prod.snd)

/-- Every integer in the value has an opposite. -/
def Value.Negatable (v : Value) : Prop := ∀ n ∈ v.integers, n ≠ Int64.minValue

/-- Every integer in a value that the script has assigned has an opposite. -/
def State.Negatable (s : State) : Prop := ∀ b ∈ s.environment, b.2.Negatable

theorem ne_least_iff {n : Int64} :
    n ≠ Int64.minValue ↔ -(2 ^ 63 - 1) ≤ n.toInt ∧ n.toInt ≤ 2 ^ 63 - 1 := by
  have hl := n.le_toInt
  have hh := n.toInt_lt
  have hleast : Int64.minValue.toInt = -2 ^ 63 := rfl
  rw [Ne, ← Int64.toInt_inj, hleast]
  omega

theorem toInt_neg {n : Int64} (h : n ≠ Int64.minValue) : (-n).toInt = -n.toInt := by
  have hb := ne_least_iff.mp h
  rw [Int64.toInt_neg, Int.bmod_eq_of_le] <;> omega

theorem neg_ne_least {n : Int64} (h : n ≠ Int64.minValue) : -n ≠ Int64.minValue := by
  rw [ne_least_iff] at *
  rw [toInt_neg (ne_least_iff.mpr h)]
  omega

namespace Value

variable {v left right : Value} {items : List Value}

theorem mem_integersOfAll {n : Int64} : n ∈ integersOfAll items ↔ ∃ v ∈ items, n ∈ v.integers := by
  induction items with
  | nil => simp [integersOfAll]
  | cons v rest ih => simp [integersOfAll, ih]

theorem negatable_of_integers (h : v.integers = []) : v.Negatable := by
  simp [Negatable, h]

theorem negatable_list : (Value.list items).Negatable ↔ ∀ v ∈ items, v.Negatable := by
  simp only [Negatable, integers, mem_integersOfAll]
  exact ⟨fun h v hv n hn => h n ⟨v, hv, hn⟩, fun h n ⟨v, hv, hn⟩ => h v hv n hn⟩

theorem negatable_tuple : (Value.tuple items).Negatable ↔ ∀ v ∈ items, v.Negatable := negatable_list

theorem negatable_int {n : Int64} : (Value.int n).Negatable ↔ n ≠ Int64.minValue := by
  simp [Negatable, integers]

end Value

-- ---------------------------------------------------------------------------
-- What terms make of values
-- ---------------------------------------------------------------------------

section

variable {v left right operand index : Value} {items : List Value}

/-- A numeral has no sign, so it does not stand for the least integer. -/
theorem negatable_integer {n : UInt64} (h : integer n = .ok v) : v.Negatable := by
  unfold integer at h
  split at h
  · next hn =>
    obtain rfl := Except.ok.inj h
    have hmax : Int64.maxValue.toInt = 2 ^ 63 - 1 := rfl
    have hvalue : n.toInt64.toInt = n.toNat := by
      rw [← UInt64.ofNat_toNat (x := n), UInt64.toInt64_ofNat', Int64.toInt_ofNat_of_lt (by omega),
        UInt64.ofNat_toNat]
    rw [Value.negatable_int, ne_least_iff, hvalue]
    omega
  · cases h

theorem negatable_indexed (hv : v.Negatable) (h : indexed v index = .ok item) : item.Negatable := by
  cases v
  case list items => exact Value.negatable_list.mp hv item (mem_of_indexed h)
  case tuple items => exact Value.negatable_tuple.mp hv item (mem_of_indexed h)
  all_goals
    obtain ⟨array, -, h⟩ := except_bind_eq_ok.mp h
    obtain ⟨i, -, h⟩ := except_bind_eq_ok.mp h
    obtain ⟨cell, -, rfl⟩ := except_map_eq_ok.mp h
    exact Value.negatable_of_integers rfl

theorem negatable_repeated (h : ∀ v ∈ items, v.Negatable) (count : Int64) :
    (repeated items count).Negatable := by
  refine Value.negatable_list.mpr fun v hv => ?_
  obtain ⟨copy, hcopy, hv⟩ := List.mem_flatten.mp hv
  rw [List.eq_of_mem_replicate hcopy] at hv
  exact h v hv

theorem negatable_streamBinary {operator : Script.Operator} (h : streamBinary operator left right = .ok v) :
    v.Negatable := by
  unfold streamBinary at h
  split at h
  · cases h
  · obtain ⟨l, -, h⟩ := except_bind_eq_ok.mp h
    obtain ⟨r, -, h⟩ := except_bind_eq_ok.mp h
    obtain rfl := Except.ok.inj h
    exact Value.negatable_of_integers rfl

theorem negatable_expressionBinary {operator : Script.Operator}
    (h : expressionBinary operator left right = .ok v) : v.Negatable := by
  unfold expressionBinary at h
  split at h
  · cases h
  · obtain ⟨l, -, h⟩ := except_bind_eq_ok.mp h
    obtain ⟨r, -, h⟩ := except_bind_eq_ok.mp h
    obtain rfl := Except.ok.inj h
    exact Value.negatable_of_integers rfl

theorem negatable_binary {operator : Script.Operator} (hl : left.Negatable) (hr : right.Negatable)
    (h : binary operator left right = .ok v) : v.Negatable := by
  unfold binary at h
  split at h
  · exact negatable_streamBinary h
  · split at h
    · obtain rfl := Except.ok.inj h
      exact Value.negatable_of_integers rfl
    · obtain rfl := Except.ok.inj h
      exact Value.negatable_of_integers rfl
    · obtain rfl := Except.ok.inj h
      rw [Value.negatable_list] at *
      exact List.forall_mem_append.mpr ⟨hl, hr⟩
    · obtain rfl := Except.ok.inj h
      exact negatable_repeated (Value.negatable_list.mp hl) _
    · obtain rfl := Except.ok.inj h
      exact negatable_repeated (Value.negatable_list.mp hr) _
    · exact negatable_expressionBinary h

theorem negatable_expressionUnary {operator : Script.UnaryOperator}
    (h : expressionUnary operator operand = .ok v) : v.Negatable := by
  unfold expressionUnary at h
  split at h
  · cases h
  · cases operator with
    | plus => cases h
    | _ =>
      obtain ⟨e, -, h⟩ := except_bind_eq_ok.mp h
      obtain rfl := Except.ok.inj h
      exact Value.negatable_of_integers rfl

/-- The opposite of an integer that has one has one too. -/
theorem negatable_unary {operator : Script.UnaryOperator} (ho : operand.Negatable)
    (h : unary operator operand = .ok v) : v.Negatable := by
  unfold unary at h
  split at h
  case h_1 =>
    obtain rfl := Except.ok.inj h
    rw [Value.negatable_int] at *
    exact neg_ne_least ho
  case h_8 => exact negatable_expressionUnary h
  all_goals
    obtain rfl := Except.ok.inj h
    exact ho

end

-- ---------------------------------------------------------------------------
-- Calls
-- ---------------------------------------------------------------------------

/-- The call gives steps whose values have no integers. -/
abbrev GivesNoInteger (call : Taking (Build Value)) : Prop := Gives (Gives fun v => v.integers = []) call

theorem gives_noValue (step : Build Unit) : Gives (fun v => v.integers = []) (noValue step) :=
  .after fun _ => .pure rfl

theorem noInteger_play : GivesNoInteger play :=
  .after fun _ => .after fun (_, _) => .after fun _ => .after fun _ => .after fun _ => .after fun _ =>
    .after fun _ => .after fun _ => .after fun _ => .after fun _ => .after fun _ => .after fun _ =>
      .after fun _ => .after fun _ => .after fun _ => .after fun _ => .pure (gives_noValue _)

theorem noInteger_measure : GivesNoInteger measure := by
  refine .after fun _ => .after fun (pulse, _) => ?_
  cases pulse with
  | ramp => exact .throw _
  | named pulse =>
    exact .after fun _ => .after fun _ => .after fun _ => .after fun _ => .after fun _ => .after fun _ =>
      .after fun _ => .pure (gives_noValue _)

theorem noInteger_callLibraryFunction : GivesNoInteger callLibraryFunction := by
  refine .after fun _ => ?_
  split
  · exact .throw _
  · exact .after fun _ => .after fun _ => .after fun _ => .after fun _ => .pure (.map fun _ => rfl)

theorem noInteger_builtin (name : String) : GivesNoInteger (builtin name) := by
  unfold builtin
  split
  case h_1 => exact .after fun _ => .after fun _ => .after fun _ => .after fun _ => .pure (.map fun _ => rfl)
  case h_2 =>
    exact .after fun _ => .after fun _ => .after fun _ => .after fun _ => .after fun _ =>
      .pure (.map fun _ => rfl)
  case h_3 => exact .after fun _ => .pure (.map fun _ => rfl)
  case h_4 => exact noInteger_play
  case h_5 => exact noInteger_measure
  case h_6 => exact .after fun _ => .pure (.pure rfl)
  case h_7 => exact .after fun _ => .after fun _ => .pure (.map fun _ => rfl)
  case h_24 => exact noInteger_callLibraryFunction
  case h_26 => exact .throw _
  -- every other function acts without a value
  all_goals
    repeat refine Gives.after fun _ => ?_
    exact .pure (gives_noValue _)

theorem noInteger_callStream (inProgram : Bool) (name : String) (stream : StreamToken) :
    GivesNoInteger (callStream inProgram name stream) := by
  unfold callStream
  split
  · refine .after fun _ => ?_
    split
    · exact .pure (gives_noValue _)
    · exact .throw _
  · exact .after fun _ => .pure (.pure rfl)

theorem noInteger_method (inProgram : Bool) (receiver : Value) (name : String) :
    GivesNoInteger (method inProgram receiver name) := by
  unfold method
  split
  · split
    · exact .after fun _ => .pure (.pure rfl)
    · exact .throw _
  · split
    · exact .pure (.pure rfl)
    · exact noInteger_callStream _ _ _
  · exact noInteger_callStream _ _ _
  · exact .throw _

theorem noInteger_moduleFunction (inProgram : Bool) (module name : String) :
    GivesNoInteger (moduleFunction inProgram module name) := by
  unfold moduleFunction
  split
  · split
    · exact .after fun _ => .after fun _ => .pure (.map fun _ => rfl)
    · exact .after fun _ => .throw _
  · split
    · exact .after fun _ => .pure (.pure rfl)
    · exact .after fun _ => .pure (.pure rfl)

-- ---------------------------------------------------------------------------
-- Runs
-- ---------------------------------------------------------------------------

/-- From a state whose integers have opposites, the replay gives what has the property, and leaves such a
state. -/
abbrev Keeps (P : α → Prop) (m : Replay α) : Prop := Preserves State.Negatable P m

section

variable {P : α → Prop}

theorem keeps_fault (f : ReplayFault) : Keeps P (fault f : Replay α) := .throw _

theorem keeps_liftFaulty {result : Faulty α} (h : ∀ a, result = .ok a → P a) : Keeps P (liftFaulty result) := by
  cases result with
  | ok a => exact .pure (h a rfl)
  | error f => exact keeps_fault f

/-- The build does not assign. -/
theorem keeps_build {step : Build α} (h : Gives P step) : Keeps P (build step) := by
  intro s a t hs ha
  rw [build] at ha
  cases hstep : step s.draft with
  | error e =>
    rw [hstep] at ha
    cases ha
  | ok result =>
    rw [hstep] at ha
    obtain ⟨rfl, rfl⟩ := Prod.mk.inj (Except.ok.inj ha)
    exact ⟨h hstep, hs⟩

theorem keeps_perform {call : Taking (Build α)} (h : Gives (Gives P) call) (given : Arguments) :
    Keeps P (perform call given) :=
  .bind (P := fun taken => Gives P taken.1) (keeps_liftFaulty fun (step, _) hc => h (a := step) hc) fun _ hstep =>
    (keeps_build hstep).bind fun _ ha =>
      .bind (P := fun _ => True) (keeps_liftFaulty fun _ _ => trivial) fun _ _ => .pure ha

/-- The value of a call. -/
theorem keeps_call {call : Taking (Build Value)} (h : GivesNoInteger call) (given : Arguments) :
    Keeps Value.Negatable (perform call given) :=
  (keeps_perform h given).mono fun _ hv => Value.negatable_of_integers hv

theorem keeps_lookup (name : String) : Keeps Value.Negatable (lookup name) := by
  refine Preserves.get_state.bind fun s hs => ?_
  split
  · next value hvalue =>
    obtain ⟨before, after, henvironment, -⟩ := List.lookup_eq_some_iff.mp hvalue
    exact .pure (hs (name, value) (by simp [henvironment]))
  · split
    · exact .pure (Value.negatable_of_integers rfl)
    · split
      · exact .pure (Value.negatable_of_integers rfl)
      · exact keeps_fault _

theorem negatable_getD {values : List Value} (h : ∀ v ∈ values, v.Negatable) (n : Nat) :
    (values.getD n .none).Negatable := by
  rw [List.getD_eq_getElem?_getD]
  cases hv : values[n]? with
  | none => exact Value.negatable_of_integers rfl
  | some v => exact h v (List.mem_of_getElem? hv)

/-- What a term makes of values whose integers have opposites. -/
theorem keeps_finish (s : State) (t : Term) {values : List Value} (h : ∀ v ∈ values, v.Negatable) :
    Keeps Value.Negatable (finish s t values) := by
  have h₀ := negatable_getD h 0
  have h₁ := negatable_getD h 1
  unfold finish
  split
  case h_1 => exact keeps_lookup _
  case h_2 => exact keeps_liftFaulty fun _ => negatable_integer
  case h_7 => exact .pure (Value.negatable_tuple.mpr h)
  case h_8 => exact .pure (Value.negatable_list.mpr h)
  case h_10 name _ _ =>
    split
    · exact keeps_fault _
    · refine Preserves.get_state.bind fun _ _ => ?_
      split
      · exact keeps_call (noInteger_builtin name) _
      · exact keeps_fault _
  case h_11 =>
    split
    · exact keeps_call (noInteger_moduleFunction _ _ _) _
    · exact keeps_call (noInteger_method _ _ _) _
  case h_12 => exact keeps_call (noInteger_method _ _ _) _
  case h_13 => exact keeps_fault _
  case h_14 => exact keeps_fault _
  case h_15 => exact keeps_liftFaulty fun _ => negatable_indexed h₀
  case h_16 => exact keeps_liftFaulty fun _ => negatable_binary h₀ h₁
  case h_17 => exact keeps_liftFaulty fun _ => negatable_unary h₀
  all_goals exact .pure (Value.negatable_of_integers rfl)

theorem keeps_evaluateAll {ts : List Term} (h : ∀ t ∈ ts, Keeps Value.Negatable (evaluate t)) :
    Keeps (fun values => ∀ v ∈ values, v.Negatable) (evaluateAll ts) := by
  induction ts with
  | nil => exact .pure (List.forall_mem_nil _)
  | cons t ts ih =>
    obtain ⟨ht, hts⟩ := List.forall_mem_cons.mp h
    exact ht.bind fun v hv => (ih hts).bind fun vs hvs => .pure (List.forall_mem_cons.mpr ⟨hv, hvs⟩)

theorem sizeOf_argument {arguments : List Term} {keywords : List (String × Term)} {t : Term}
    (h : t ∈ arguments ++ keywords.map Prod.snd) : sizeOf t < sizeOf arguments + sizeOf keywords := by
  rcases List.mem_append.mp h with h | h
  · have hsize := List.sizeOf_lt_of_mem h
    omega
  · obtain ⟨⟨name, t⟩, hm, rfl⟩ := List.mem_map.mp h
    have hsize := List.sizeOf_lt_of_mem hm
    rw [Prod.mk.sizeOf_spec] at hsize
    dsimp only
    omega

theorem sizeOf_entry {entries : List (Term × Term)} {t : Term}
    (h : t ∈ entries.flatMap fun (key, value) => [key, value]) : sizeOf t < sizeOf entries := by
  obtain ⟨⟨key, value⟩, hm, ht⟩ := List.mem_flatMap.mp h
  have hsize := List.sizeOf_lt_of_mem hm
  rw [Prod.mk.sizeOf_spec] at hsize
  rcases List.mem_pair.mp ht with rfl | rfl <;> omega

theorem sizeOf_receiver {value t : Term} {name : String} {arguments : List Term}
    {keywords : List (String × Term)} (h : t ∈ value :: (arguments ++ keywords.map Prod.snd)) :
    sizeOf t < sizeOf (Term.call (.attribute value name) arguments keywords) := by
  rw [Term.call.sizeOf_spec, Term.attribute.sizeOf_spec]
  rcases List.mem_cons.mp h with rfl | h
  · omega
  · have hsize := sizeOf_argument h
    omega

/-- The operands of a term are parts of it. -/
theorem sizeOf_operand {s : State} {t u : Term} (h : u ∈ operands s t) : sizeOf u < sizeOf t := by
  unfold operands at h
  split at h
  case h_1 | h_2 =>
    have hsize := List.sizeOf_lt_of_mem h
    simp only [Term.tuple.sizeOf_spec, Term.list.sizeOf_spec]
    omega
  case h_3 =>
    have hsize := sizeOf_entry h
    rw [Term.dict.sizeOf_spec]
    omega
  case h_4 =>
    split at h
    · cases h
    · have hsize := sizeOf_argument h
      rw [Term.call.sizeOf_spec]
      omega
  case h_5 =>
    refine sizeOf_receiver ?_
    split at h
    · exact List.mem_cons_of_mem _ h
    · exact h
  case h_6 => exact sizeOf_receiver h
  case h_7 | h_8 =>
    simp only [Term.index.sizeOf_spec, Term.binary.sizeOf_spec]
    rcases List.mem_pair.mp h with rfl | rfl <;> omega
  case h_9 =>
    obtain rfl := List.mem_singleton.mp h
    rw [Term.unary.sizeOf_spec]
    omega
  case h_10 => cases h

theorem keeps_evaluate (t : Term) : Keeps Value.Negatable (evaluate t) := by
  intro s v s' hs h
  rw [evaluate_eq] at h
  have hoperands : Keeps (fun values => ∀ v ∈ values, v.Negatable) (evaluateAll (operands s t)) :=
    keeps_evaluateAll fun u hu => keeps_evaluate u
  exact (hoperands.bind fun _ hvalues => keeps_finish s t hvalues) hs h
termination_by sizeOf t
decreasing_by exact sizeOf_operand hu

theorem keeps_terms (ts : List Term) : Keeps (fun values => ∀ v ∈ values, v.Negatable) (evaluateAll ts) :=
  keeps_evaluateAll fun t _ => keeps_evaluate t

theorem keeps_atLine {m : Replay α} (h : Keeps P m) (line : Nat) : Keeps P (atLine line m) := by
  intro s a t hs ha
  rw [atLine] at ha
  cases hm : m s with
  | error e =>
    rw [hm] at ha
    cases ha
  | ok result =>
    rw [hm] at ha
    obtain rfl := Except.ok.inj ha
    exact h hs hm

theorem keeps_setLocation (location : String) : Keeps (fun _ => True) (setLocation location) :=
  .modify_state fun _ h => h

theorem keeps_bind (name : String) {v : Value} (hv : v.Negatable) : Keeps (fun _ => True) (bind name v) :=
  .modify_state fun _ h => List.forall_mem_cons.mpr ⟨hv, h⟩

theorem keeps_openScope (context : Term) : Keeps (fun _ => True) (openScope context) := by
  refine Preserves.get_state.bind fun s _ => .guarded _ ?_
  cases context with
  | call function arguments keywords =>
    dsimp only
    split
    · exact keeps_fault _
    · refine Preserves.guarded _ ?_
      rw [evaluate_given]
      exact (keeps_terms _).bind fun _ _ => keeps_perform (fun _ _ _ _ _ _ _ _ => trivial) _
  | _ => exact keeps_fault _

mutual

theorem keeps_statement : (stmt : Stmt) → Keeps (fun _ => True) (statement stmt)
  | .pass _ => .pure trivial
  | .importing .. => .pure trivial
  | .assign _ target value => by
    rw [statement]
    split
    · exact (keeps_evaluate value).bind fun _ hv => keeps_bind _ hv
    · exact keeps_fault _
  | .term _ t => by
    rw [statement]
    exact (keeps_evaluate t).bind fun _ _ => .pure trivial
  | .block _ context _ body => by
    rw [statement]
    exact (keeps_openScope context).bind fun _ _ => (keeps_statements body).bind fun _ _ =>
      keeps_build fun _ _ _ _ => trivial

theorem keeps_statements : (body : List Stmt) → Keeps (fun _ => True) (statements body)
  | [] => .pure trivial
  | stmt :: rest => by
    rw [statements]
    exact (keeps_setLocation _).bind fun _ _ => (keeps_atLine (keeps_statement stmt) _).bind fun _ _ =>
      keeps_statements rest

end

theorem keeps_topLevel (stmt : Stmt) : Keeps (fun _ => True) (topLevel stmt) := by
  cases stmt with
  | block _ context _ body =>
    rw [topLevel]
    split
    · refine Preserves.guarded _ (Preserves.get_state.bind fun s hs => .guarded _ ?_)
      have hbegun : State.Negatable { s with programs := s.programs + 1, inProgram := true } := hs
      have hdone : ∀ s : State, s.Negatable → State.Negatable { s with inProgram := false } := fun _ h => h
      exact (Preserves.set_state hbegun).bind fun _ _ => (keeps_statements body).bind fun _ _ =>
        .modify_state hdone
    · exact keeps_fault _
  | _ => exact keeps_statement _

theorem keeps_topLevels (stmts : List Stmt) :
    Keeps (fun _ => True) (stmts.forM fun stmt => atLine stmt.line (topLevel stmt)) :=
  .forM fun stmt _ => keeps_atLine (keeps_topLevel stmt) _

theorem keeps_module (stmts : List Stmt) : Keeps (fun _ => True) (module stmts) :=
  (keeps_topLevels stmts).bind fun _ _ => Preserves.get_state.bind fun s _ => by
    split
    · exact keeps_fault _
    · exact .pure trivial

/-- An activity computes values whose integers have opposites. -/
theorem Activity.keeps_run (a : Activity) : Keeps (fun values => ∀ v ∈ values, v.Negatable) a.run := by
  cases a with
  | script stmts => exact (keeps_module stmts).map fun _ _ => List.forall_mem_nil _
  | outer stmt => exact (keeps_topLevel stmt).map fun _ _ => List.forall_mem_nil _
  | block stmts => exact (keeps_statements stmts).map fun _ _ => List.forall_mem_nil _
  | inner stmt => exact (keeps_statement stmt).map fun _ _ => List.forall_mem_nil _
  | term t => exact (keeps_evaluate t).map fun _ hv => List.forall_mem_singleton.mpr hv

/-- What is begun is begun in a state whose integers have opposites. -/
theorem Begins.negatable {a b : Activity × State} (h : Begins a b) (hs : a.2.Negatable) : b.2.Negatable := by
  cases h with
  | outer h => exact (keeps_topLevels _ hs h).2
  | program hc => exact hs
  | plain => exact hs
  | inner h => exact (keeps_statements _ hs h).2
  | assigned => exact hs
  | evaluated => exact hs
  | argument _ _ _ h => exact (keeps_terms _ hs h).2
  | body h => exact (keeps_openScope _ hs h).2
  | operand _ h => exact (keeps_terms _ hs h).2

/-- Whatever a replay reaches, it reaches in a state whose integers have opposites. -/
theorem Reached.negatable {script : String} {a : Activity} {s : State} (h : Reached script a s) :
    s.Negatable := by
  obtain ⟨stmts, -, h⟩ := h
  have hrun {b : Activity × State} (h : Relation.ReflTransGen Begins (.script stmts, {}) b) :
      b.2.Negatable := by
    induction h with
    | refl => exact List.forall_mem_nil _
    | tail _ hb ih => exact hb.negatable ih
  exact hrun h

end

-- ---------------------------------------------------------------------------
-- All that is reached
-- ---------------------------------------------------------------------------

theorem Value.allNegatable_iff {values : List Value} :
    (∀ v ∈ values, v.Negatable) ↔
      ∀ n ∈ Value.integersOfAll values, -(2 ^ 63 - 1) ≤ n.toInt ∧ n.toInt ≤ 2 ^ 63 - 1 := by
  simp only [Negatable, ← ne_least_iff, mem_integersOfAll]
  exact ⟨fun h n ⟨v, hv, hn⟩ => h v hv n hn, fun h v hv n hn => h n ⟨v, hv, hn⟩⟩

theorem State.negatable_iff {s : State} :
    s.Negatable ↔ ∀ n ∈ s.integers, -(2 ^ 63 - 1) ≤ n.toInt ∧ n.toInt ≤ 2 ^ 63 - 1 := by
  rw [integers, ← Value.allNegatable_iff, List.forall_mem_map]
  rfl

/-- The least integer does not occur while a script is replayed: at whatever the replay reaches, no value
that has been assigned holds it, and no value that is computed there or assigned until then. So every
integer that a script negates has an opposite. -/
theorem integers_negatable {script : String} {a : Activity} {s : State} (h : Reached script a s) :
    (∀ n ∈ s.integers, -(2 ^ 63 - 1) ≤ n.toInt ∧ n.toInt ≤ 2 ^ 63 - 1) ∧
    (∀ values s', a.run s = .ok (values, s') → ∀ n ∈ Value.integersOfAll values ++ s'.integers,
      -(2 ^ 63 - 1) ≤ n.toInt ∧ n.toInt ≤ 2 ^ 63 - 1) ∧
    ∀ operand n s', a = .term (.unary .minus operand) → evaluate operand s = .ok (.int n, s') →
      ∃ m, a.run s = .ok ([.int m], s') ∧ m.toInt = -n.toInt := by
  have hs := h.negatable
  refine ⟨State.negatable_iff.mp hs, fun values s' hrun => ?_, fun operand n s' ha hoperand => ⟨-n, ?_, ?_⟩⟩
  · obtain ⟨hvalues, hs'⟩ := a.keeps_run hs hrun
    exact List.forall_mem_append.mpr ⟨Value.allNegatable_iff.mp hvalues, State.negatable_iff.mp hs'⟩
  · rw [ha, Activity.run, map_run, evaluate, bind_run, hoperand]
    rfl
  · obtain ⟨hn, -⟩ := keeps_evaluate operand hs hoperand
    exact toInt_neg (Value.negatable_int.mp hn)

/-- The opposite of the largest integer, negated again in a list that is doubled. -/
theorem integers_negatable_doubled :
    let script := "with program() as prog:\n    a = [-9223372036854775807] * 2\n    b = -a[1]\n"
    let operand : Term := .index (.name "a") (.int 1)
    ∃ s m, Reached script (.term (.unary .minus operand)) s ∧ s.integers = [-Int64.maxValue, -Int64.maxValue] ∧
      evaluate operand s = .ok (.int (-Int64.maxValue), s) ∧
      evaluate (.unary .minus operand) s = .ok (.int m, s) ∧ m.toInt = 9223372036854775807 := by
  intro script operand
  let doubled : Term := .binary .star (.list [.unary .minus (.int 9223372036854775807)]) (.int 2)
  let first : Stmt := .assign 2 (.name "a") doubled
  let second : Stmt := .assign 3 (.name "b") (.unary .minus operand)
  let program : Stmt := .block 1 (.call (.name "program") [] []) (some "prog") [first, second]
  let least : Value := .int (-Int64.maxValue)
  let started : State := { inProgram := true, programs := 1 }
  let assigned : State := { started.atStatement first with environment := [("a", .list [least, least])] }
  let s : State := assigned.atStatement second
  have hlex : Script.lex script = .ok [⟨.keyword .with_, 1, 1⟩, ⟨.name "program", 1, 6⟩, ⟨.leftParen, 1, 13⟩,
      ⟨.rightParen, 1, 14⟩, ⟨.keyword .as_, 1, 16⟩, ⟨.name "prog", 1, 19⟩, ⟨.colon, 1, 23⟩, ⟨.newLine, 1, 24⟩,
      ⟨.indent, 2, 5⟩, ⟨.name "a", 2, 5⟩, ⟨.equals, 2, 7⟩, ⟨.leftBracket, 2, 9⟩, ⟨.operator .minus, 2, 10⟩,
      ⟨.integer 9223372036854775807, 2, 11⟩, ⟨.rightBracket, 2, 30⟩, ⟨.operator .star, 2, 32⟩,
      ⟨.integer 2, 2, 34⟩, ⟨.newLine, 2, 35⟩, ⟨.name "b", 3, 5⟩, ⟨.equals, 3, 7⟩, ⟨.operator .minus, 3, 9⟩,
      ⟨.name "a", 3, 10⟩, ⟨.leftBracket, 3, 11⟩, ⟨.integer 1, 3, 12⟩, ⟨.rightBracket, 3, 13⟩,
      ⟨.newLine, 3, 14⟩, ⟨.dedent, 4, 1⟩, ⟨.finish, 4, 1⟩] := by decide +kernel
  have hparse : Script.parse script = .ok [program] := by
    rw [Script.parse, hlex]
    rfl
  have hnumeral (s : State) : evaluate (.int 9223372036854775807) s = .ok (.int Int64.maxValue, s) := by
    rw [evaluate, integer, if_pos (by decide)]
    rfl
  have hitem (s : State) : evaluate (.unary .minus (.int 9223372036854775807)) s = .ok (least, s) := by
    rw [evaluate, bind_run, hnumeral]
    rfl
  have hlist (s : State) : evaluate (.list [.unary .minus (.int 9223372036854775807)]) s =
      .ok (.list [least], s) := by
    rw [evaluate, bind_run, evaluateAll, bind_run, hitem]
    rfl
  have hdoubled (s : State) : evaluate doubled s = .ok (.list [least, least], s) := by
    rw [evaluate, bind_run, hlist]
    rfl
  have hassigned : statements [first] started = .ok ((), assigned) := by
    have hfirst : statement first (started.atStatement first) = .ok ((), assigned) := by
      rw [statement]
      dsimp only [Term.name?]
      rw [bind_run, hdoubled]
      rfl
    have hline : atLine first.line (statement first) (started.atStatement first) = .ok ((), assigned) := by
      rw [atLine, hfirst]
    have hlocation : setLocation ("script:" ++ toString first.line) started =
        .ok ((), started.atStatement first) := rfl
    rw [statements, bind_run, hlocation]
    dsimp only
    rw [bind_run, hline]
    rfl
  have hoperand : evaluate operand s = .ok (least, s) := by
    rw [evaluate, bind_run, evaluate]
    rfl
  have hreached : Reached script (.term (.unary .minus operand)) s := by
    have houter : Begins (.script ([] ++ [program]), {}) (.outer program, {}) := .outer rfl
    have hinner : Begins (.block ([first] ++ [second]), started) (.inner second, s) := .inner hassigned
    exact ⟨_, hparse, .head houter (.head (.program rfl rfl) (.head hinner (.single .assigned)))⟩
  obtain ⟨m, hm, hvalue⟩ := (integers_negatable hreached).2.2 _ _ _ rfl hoperand
  obtain ⟨_, hsingle, hm⟩ := map_eq_ok.mp hm
  obtain rfl := List.singleton_inj.mp hsingle
  exact ⟨s, m, hreached, rfl, hoperand, hm, hvalue⟩

end Qua.Replay
