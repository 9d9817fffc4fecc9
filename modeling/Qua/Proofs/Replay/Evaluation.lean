import Qua.Proofs.Expression.Written
import Qua.Proofs.Replay.Taking

/-!
# Evaluating written expressions

Evaluated where its names stand for themselves, the term of an expression has a value that is that
expression, and nothing else changes.
-/

namespace Qua

open Script (Term)

-- ---------------------------------------------------------------------------
-- Signs
-- ---------------------------------------------------------------------------

namespace Binary64

theorem xor_signBit {m : Nat} (h : m < 2 ^ 63) : m ^^^ 2 ^ 63 = 2 ^ 63 + m := by
  have hdiv : (m ^^^ 2 ^ 63) / 2 ^ 63 = 1 := by
    rw [Nat.xor_div_two_pow, Nat.div_eq_of_lt h, Nat.div_self (by decide), Nat.zero_xor]
  have hmod : (m ^^^ 2 ^ 63) % 2 ^ 63 = m := by
    rw [Nat.xor_mod_two_pow, Nat.mod_eq_of_lt h, Nat.mod_self, Nat.xor_zero]
  have hsplit := Nat.div_add_mod (m ^^^ 2 ^ 63) (2 ^ 63)
  rw [hdiv, hmod] at hsplit
  omega

theorem magnitude_lt (x : Binary64) : x.magnitude < signBit := Nat.mod_lt _ (by decide)

/-- A number that is not negative is its magnitude. -/
theorem ofMagnitude_magnitude {x : Binary64} (h : x.isNegative = false) :
    ofMagnitude false x.magnitude = x := by
  have hneg : x.bits.toNat < signBit := by simpa [isNegative] using h
  have hbits : (ofMagnitude false x.magnitude).bits = x.bits := by
    rw [← UInt64.toNat_inj, bits_ofMagnitude x.magnitude_lt, magnitude, Nat.mod_eq_of_lt hneg]
  exact congrArg Binary64.mk hbits

/-- A negative number is its magnitude negated. -/
theorem neg_ofMagnitude {x : Binary64} (h : x.isNegative = true) :
    -ofMagnitude false x.magnitude = x := by
  have hneg : signBit ≤ x.bits.toNat := by simpa [isNegative] using h
  have hsign : signBit = 2 ^ 63 := by decide
  have hlt := x.bits.toNat_lt
  have hmag : x.magnitude = x.bits.toNat - 2 ^ 63 := by
    rw [magnitude, hsign]
    omega
  have hbits : (-ofMagnitude false x.magnitude).bits = x.bits := by
    rw [← UInt64.toNat_inj]
    change ((ofMagnitude false x.magnitude).bits ^^^ 0x8000000000000000).toNat = _
    rw [UInt64.toNat_xor, bits_ofMagnitude x.magnitude_lt]
    change x.magnitude ^^^ 2 ^ 63 = _
    rw [xor_signBit (by omega)]
    omega
  exact congrArg Binary64.mk hbits

end Binary64

-- ---------------------------------------------------------------------------
-- Values
-- ---------------------------------------------------------------------------

/-- The value of a literal, a number staying a number. -/
def Literal.replayed : Literal → Replay.Value
  | .int value => .int value.toInt64
  | .bool value => .bool value
  | .fixed value => .float value

/-- The value of an expression that has been written. -/
def Expression.replayed : Expression → Replay.Value
  | .literal value => value.replayed
  | e => .expression e

namespace Replay

/-- Values of which operators make expressions. -/
inductive Value.IsPlain : Value → Prop
  | bool (value : Bool) : IsPlain (.bool value)
  | int (value : Int64) : IsPlain (.int value)
  | float (value : Binary64) : IsPlain (.float value)
  | expression (value : Expression) : IsPlain (.expression value)

theorem replayed_isPlain (e : Expression) : e.replayed.IsPlain := by
  cases e with
  | literal value => cases value <;> constructor
  | _ => constructor

theorem ofInt_toInt64 (n : Int32) : Literal.ofInt n.toInt64.toInt = .ok (.int n) := by
  have hl := n.le_toInt
  have hh := n.toInt_lt
  rw [Int32.toInt_toInt64, Literal.ofInt, if_pos, Int32.ofInt_toInt]
  constructor
  · exact hl
  · have hmax : Int32.maxValue.toInt = 2 ^ 31 - 1 := rfl
    omega

theorem toExpression_replayed (e : Expression) : e.replayed.toExpression = .ok e := by
  cases e with
  | literal value =>
    cases value with
    | int n =>
      simp only [Expression.replayed, Literal.replayed, Value.toExpression, Value.toLiteral,
        ofInt_toInt64]
      rfl
    | bool _ => rfl
    | fixed _ => rfl
  | _ => rfl

theorem toLibraryArgument_replayed (e : Expression) :
    e.replayed.toLibraryArgument = .ok (.expression e) := by
  have h := toExpression_replayed e
  have hp := replayed_isPlain e
  cases hv : e.replayed with
  | bool _ | int _ | float _ | expression _ =>
    rw [hv] at h
    simp only [Value.toLibraryArgument, h]
    rfl
  | _ =>
    rw [hv] at hp
    cases hp

/-- An operator between plain values is one of expressions. -/
theorem binary_replayed (op : BinaryOperator) (left right : Expression) :
    binary op.written left.replayed right.replayed = .ok (.expression (.binary op left right)) := by
  have hl := toExpression_replayed left
  have hr := toExpression_replayed right
  have hexpression : expressionBinary op.written left.replayed right.replayed =
      .ok (.expression (.binary op left right)) := by
    rw [expressionBinary, op.written_operator]
    simp only [hl, hr]
    rfl
  rw [← hexpression]
  have hpl := replayed_isPlain left
  have hpr := replayed_isPlain right
  generalize left.replayed = v at *
  generalize right.replayed = w at *
  cases hpl <;> cases hpr <;> cases op <;> rfl

-- ---------------------------------------------------------------------------
-- Numbers
-- ---------------------------------------------------------------------------

theorem evaluate_integer {n : Int} (h : n.natAbs < 2 ^ 63) (s : State) :
    evaluate (integerTerm n) s = .ok (.int (Int64.ofInt n), s) := by
  have hn : integer (UInt64.ofNat n.natAbs) = .ok (.int (Int64.ofNat n.natAbs)) := by
    have hnat : (UInt64.ofNat n.natAbs).toNat = n.natAbs := by
      rw [UInt64.toNat_ofNat']
      exact Nat.mod_eq_of_lt (by omega)
    have hmax : Int64.maxValue.toInt = 2 ^ 63 - 1 := rfl
    rw [integer, if_pos (by omega)]
    rfl
  have hint : evaluate (.int (UInt64.ofNat n.natAbs)) s = .ok (.int (Int64.ofNat n.natAbs), s) := by
    rw [evaluate, hn]
    rfl
  unfold integerTerm
  split
  · next hneg =>
    rw [evaluate, bind_run, hint]
    have hvalue : -Int64.ofNat n.natAbs = Int64.ofInt n := by
      rw [Int64.neg_ofNat]
      congr 1
      omega
    simp only [unary, hvalue]
    rfl
  · next hneg =>
    rw [hint, ← Int64.ofInt_eq_ofNat]
    congr 4
    omega

theorem evaluate_real (x : Binary64) (s : State) : evaluate (realTerm x) s = .ok (.float x, s) := by
  unfold realTerm
  cases h : x.isNegative with
  | true =>
    simp only [if_true]
    rw [evaluate, bind_run, evaluate]
    simp only [pure_run, unary, Binary64.neg_ofMagnitude h]
    rfl
  | false =>
    simp only [Bool.false_eq_true, if_false]
    rw [evaluate, Binary64.ofMagnitude_magnitude h]
    rfl

theorem evaluate_literal (l : Literal) (s : State) : evaluate l.term s = .ok (l.replayed, s) := by
  cases l with
  | int value =>
    have hl := value.le_toInt
    have hh := value.toInt_lt
    rw [Literal.term, evaluate_integer (by omega)]
    rfl
  | bool value =>
    rw [Literal.term, evaluate]
    rfl
  | fixed value => exact evaluate_real value s

-- ---------------------------------------------------------------------------
-- Names
-- ---------------------------------------------------------------------------

end Replay

namespace Expression

mutual

/-- The names in an expression, each with the variable or the array that it stands for. -/
def handles : Expression → List (String × Expression)
  | .var (.named name) => [(name, .named name)]
  | .var (.io _) => []
  | .array name => [(name, .array name)]
  | .cell name i => (name, .array name) :: i.handles
  | .literal _ => []
  | .binary _ left right => left.handles ++ right.handles
  | .call _ _ arguments => handlesOfAll arguments
  | .length name => [(name, .array name)]

def handlesOfAll : List Expression → List (String × Expression)
  | [] => []
  | e :: rest => e.handles ++ handlesOfAll rest

end

/-- What an expression can mention besides its variables and arrays. -/
def reservedNames : List String :=
  Register.all.map Register.name ++ "call_library_function" :: Library.all.map Library.namespaceName

end Expression

namespace Replay

/-- Inside the program block, the names stand for their variables and arrays, and no registers,
functions or modules are hidden. -/
structure Resolves (s : State) (handles : List (String × Expression)) : Prop where
  inProgram : s.inProgram = true
  bound : ∀ h ∈ handles, s.environment.lookup h.1 = some (.expression h.2)
  free : ∀ name ∈ Expression.reservedNames, s.environment.lookup name = none

theorem Resolves.mono (h : Resolves s hs) (hsub : hs' ⊆ hs) : Resolves s hs' :=
  ⟨h.inProgram, fun e he => h.bound e (hsub he), h.free⟩

theorem lookup_bound {s : State} (h : s.environment.lookup name = some v) :
    lookup name s = .ok (v, s) := by
  rw [lookup, bind_run, get_run]
  simp only [h]
  rfl

theorem isBound_run (name : String) (s : State) :
    isBound name s = .ok ((s.environment.lookup name).isSome, s) := rfl

theorem lookup_register (h : Resolves s hs) (r : Register) :
    lookup r.name s = .ok (.expression (.var (.io r)), s) := by
  have hfree : s.environment.lookup r.name = none := h.free _ (by cases r <;> decide)
  rw [lookup, bind_run, get_run]
  simp only [hfree]
  cases r <;> rfl

-- ---------------------------------------------------------------------------
-- Calls
-- ---------------------------------------------------------------------------

theorem libraryCall_run (h : Library.arity? library function = some es.length) (d : Draft) :
    Build.libraryCall library function (es.map LibraryArgument.expression) d =
      .ok (.call library function es, d) := by
  have harguments (es : List Expression) (d : Draft) :
      (es.map LibraryArgument.expression).mapM Build.libraryArgument d = .ok (es, d) := by
    induction es with
    | nil => rfl
    | cons e es ih =>
      rw [List.map_cons, List.mapM_cons, bind_run]
      simp only [Build.libraryArgument, pure_run]
      rw [bind_run, ih]
      rfl
  rw [Build.libraryCall, h]
  simp only [List.length_map, ne_eq, not_true_eq_false, if_false]
  rw [bind_run, harguments]
  rfl

theorem toLibraryArguments_replayed (es : List Expression) :
    (es.map Expression.replayed).mapM Value.toLibraryArgument =
      .ok (es.map LibraryArgument.expression) := by
  induction es with
  | nil => rfl
  | cons e es ih =>
    rw [List.map_cons, List.mapM_cons, toLibraryArgument_replayed, ih]
    rfl

/-- A function of a library takes all of its arguments. -/
theorem moduleFunction_run (h : Library.arity? library function = some es.length) (s : State) :
    perform (moduleFunction true library.namespaceName function)
      (.of (library.namespaceName ++ "." ++ function) (es.map Expression.replayed) []) s =
        .ok (.expression (.call library function es), s) := by
  have hlibrary : Library.ofNamespace? library.namespaceName = some library := by
    cases library <;> rfl
  have hstep : (Value.expression <$> Build.libraryCall library function
      (es.map LibraryArgument.expression)) s.draft =
        .ok (.expression (.call library function es), s.draft) := by
    rw [map_run, libraryCall_run h]
  refine Takes.perform ?_ hstep
  rw [Arguments.of_eq, moduleFunction, hlibrary]
  refine .allRest (.mapped (toLibraryArguments_replayed es) (.done _ ?_))
  simp

/-- A function of a library that is called by its names. -/
theorem callLibraryFunction_run (h : Library.arity? library function = some es.length) (s : State) :
    perform (builtin "call_library_function")
      (.of "call_library_function"
        [.string library.name, .string function, .list (es.map Expression.replayed)] []) s =
        .ok (.expression (.call library function es), s) := by
  have hlibrary : Library.ofName? library.name = some library := by cases library <;> rfl
  have hstep : (Value.expression <$> Build.libraryCall library function
      (es.map LibraryArgument.expression)) s.draft =
        .ok (.expression (.call library function es), s.draft) := by
    rw [map_run, libraryCall_run h]
  refine Takes.perform ?_ hstep
  rw [Arguments.of_eq]
  change Takes callLibraryFunction _ _
  rw [callLibraryFunction]
  refine .text ?_
  rw [hlibrary]
  refine .text (.required (.of_lift rfl (.mapped (toLibraryArguments_replayed es) (.done _ ?_))))
  simp

theorem lengthMethod_run (name : String) (s : State) :
    perform (method true (.expression (.array name)) "length") (.of "length" [] []) s =
      .ok (.expression (.length name), s) :=
  Takes.perform ⟨_, rfl, rfl⟩ rfl

-- ---------------------------------------------------------------------------
-- Expressions
-- ---------------------------------------------------------------------------

theorem evaluateKeywords_nil (s : State) : evaluateKeywords [] s = .ok ([], s) := by
  rw [evaluateKeywords]
  rfl

theorem evaluateAll_cons (h : evaluate t s = .ok (v, s)) (hs : evaluateAll ts s = .ok (vs, s)) :
    evaluateAll (t :: ts) s = .ok (v :: vs, s) := by
  rw [evaluateAll, bind_run, h]
  simp only
  rw [bind_run, hs]
  rfl

/-- The call of a function of a module that is not hidden. -/
theorem evaluate_moduleCall {s : State} {arguments : List Term} (hi : s.inProgram = true)
    (hf : s.environment.lookup library.namespaceName = none)
    (hargs : evaluateAll arguments s = .ok (es.map Expression.replayed, s))
    (h : Library.arity? library function = some es.length) :
    evaluate (.call (.attribute (.name library.namespaceName) function) arguments []) s =
      .ok (.expression (.call library function es), s) := by
  have hmodule : isModule library.namespaceName = true := by cases library <;> decide
  rw [evaluate, bind_run, get_run]
  simp only
  rw [bind_run, isBound_run, hf]
  simp only [Option.isSome_none, Bool.not_false, Bool.true_and, hmodule, if_true]
  rw [bind_run, hargs]
  simp only
  rw [bind_run, evaluateKeywords_nil]
  simp only
  rw [hi]
  exact moduleFunction_run h s

theorem evaluate_randomCall {s : State} {arguments : List Term} (hi : s.inProgram = true)
    (hf : s.environment.lookup "call_library_function" = none)
    (hargs : evaluateAll arguments s = .ok (es.map Expression.replayed, s))
    (h : Library.arity? library function = some es.length) :
    evaluate (.call (.name "call_library_function")
      [.string library.name, .string function, .list arguments] []) s =
      .ok (.expression (.call library function es), s) := by
  have hlist : evaluateAll [.string library.name, .string function, .list arguments] s =
      .ok ([.string library.name, .string function, .list (es.map Expression.replayed)], s) := by
    have hstring (text : String) : evaluate (.string text) s = .ok (.string text, s) := by
      rw [evaluate]
      rfl
    have hitems : evaluate (.list arguments) s = .ok (.list (es.map Expression.replayed), s) := by
      rw [evaluate, bind_run, hargs]
      rfl
    have hnil : evaluateAll [] s = .ok ([], s) := by
      rw [evaluateAll]
      rfl
    exact evaluateAll_cons (hstring _) (evaluateAll_cons (hstring _) (evaluateAll_cons hitems hnil))
  rw [evaluate, bind_run, isBound_run, hf]
  simp only [Option.isSome_none, Bool.false_eq_true, if_false]
  rw [bind_run, hlist]
  simp only
  rw [bind_run, evaluateKeywords_nil]
  simp only
  rw [callBuiltin, bind_run, get_run]
  simp only [hi, if_true]
  exact callLibraryFunction_run h s

/-- The length of an array is a method of it. -/
theorem evaluate_length {s : State} (hi : s.inProgram = true)
    (hb : s.environment.lookup name = some (.expression (.array name))) :
    evaluate (.call (.attribute (.name name) "length") [] []) s =
      .ok (.expression (.length name), s) := by
  rw [evaluate, bind_run, get_run]
  simp only
  rw [bind_run, isBound_run, hb]
  simp only [Option.isSome_some, Bool.not_true, Bool.false_and, Bool.false_eq_true, if_false]
  rw [bind_run, lookup_bound hb]
  simp only
  rw [bind_run, evaluateAll]
  simp only [pure_run]
  rw [bind_run, evaluateKeywords_nil]
  simp only
  rw [hi]
  exact lengthMethod_run name s

theorem evaluate_callTerm {s : State} {arguments : List Term} (hs : Resolves s hs')
    (hargs : evaluateAll arguments s = .ok (es.map Expression.replayed, s))
    (h : Library.arity? library function = some es.length) :
    evaluate (Expression.callTerm library function arguments) s =
      .ok (.expression (.call library function es), s) := by
  cases library with
  | random => exact evaluate_randomCall hs.inProgram (hs.free _ (by decide)) hargs h
  | math => exact evaluate_moduleCall hs.inProgram (hs.free _ (by decide)) hargs h
  | cast => exact evaluate_moduleCall hs.inProgram (hs.free _ (by decide)) hargs h
  | util => exact evaluate_moduleCall hs.inProgram (hs.free _ (by decide)) hargs h

/-- A cell is an array indexed by a scalar. -/
theorem indexed_replayed {i : Expression} (h : i.isScalar = true) :
    indexed (.expression (.array name)) i.replayed = .ok (.expression (.cell name i)) := by
  have hi := toExpression_replayed i
  have harray : (Value.expression (.array name)).toExpression = .ok (.array name) := rfl
  simp only [indexed, harray, hi, bind, Except.bind, Expression.index, h, if_true,
    Faulty.ofExpression]
  rfl

mutual

/-- The term of an expression has the expression as its value, and evaluating it changes nothing. -/
theorem evaluate_term {s : State} : (e : Expression) → e.Writable → Resolves s e.handles →
    evaluate e.term s = .ok (e.replayed, s)
  | .var (.named name), _, hs => by
    rw [Expression.term, evaluate]
    exact lookup_bound (hs.bound _ List.mem_cons_self)
  | .var (.io r), _, hs => by
    rw [Expression.term, evaluate]
    exact lookup_register hs r
  | .array name, _, hs => by
    rw [Expression.term, evaluate]
    exact lookup_bound (hs.bound _ List.mem_cons_self)
  | .cell name i, ⟨_, hscalar, hi⟩, hs => by
    have harray : evaluate (.name name) s = .ok (.expression (.array name), s) := by
      rw [evaluate]
      exact lookup_bound (hs.bound _ List.mem_cons_self)
    have hindex := evaluate_term i hi (hs.mono (List.subset_cons_self _ _))
    rw [Expression.term, evaluate, bind_run, harray]
    simp only
    rw [bind_run, hindex]
    simp only [indexed_replayed hscalar]
    rfl
  | .literal l, _, _ => evaluate_literal l s
  | .binary op left right, ⟨hl, hr⟩, hs => by
    have hleft := evaluate_term left hl (hs.mono (List.subset_append_left _ _))
    have hright := evaluate_term right hr (hs.mono (List.subset_append_right _ _))
    rw [Expression.term, evaluate, bind_run, hleft]
    simp only
    rw [bind_run, hright]
    simp only [binary_replayed]
    rfl
  | .call library function arguments, ⟨ha, hargs⟩, hs => by
    rw [Expression.term]
    exact evaluate_callTerm hs (evaluate_terms arguments hargs hs) ha
  | .length name, _, hs => evaluate_length hs.inProgram (hs.bound _ List.mem_cons_self)

theorem evaluate_terms {s : State} : (es : List Expression) → Expression.AllWritable es →
    Resolves s (Expression.handlesOfAll es) →
    evaluateAll (Expression.terms es) s = .ok (es.map Expression.replayed, s)
  | [], _, _ => by
    rw [Expression.terms, evaluateAll]
    rfl
  | e :: es, ⟨he, hes⟩, hs => by
    rw [Expression.terms]
    exact evaluateAll_cons (evaluate_term e he (hs.mono (List.subset_append_left _ _)))
      (evaluate_terms es hes (hs.mono (List.subset_append_right _ _)))

end

end Replay
end Qua
