import Qua.Proofs.Sameness
import Qua.Proofs.Script.Real
import Qua.Replay.Value

/-!
# Expressions as they are written

The term that the text of an expression is. Literals below zero are negations, and functions of the
random library are called through `call_library_function`.
-/

namespace Qua

open Script (Term IsPrimary IsOperand IsTerm IsSeparator)
open Text (IsIdentifier)

-- ---------------------------------------------------------------------------
-- Operators and literals
-- ---------------------------------------------------------------------------

/-- The operator of a script that is written for an operator of expressions. -/
def BinaryOperator.written : BinaryOperator → Script.Operator
  | .add => .plus
  | .sub => .minus
  | .mul => .star
  | .div => .slash
  | .shl => .shiftLeft
  | .shr => .shiftRight
  | .and => .ampersand
  | .or => .pipe
  | .xor => .caret
  | .eq => .doubleEquals
  | .lt => .less
  | .le => .lessEqual
  | .gt => .greater
  | .ge => .greaterEqual

namespace BinaryOperator

theorem written_text (op : BinaryOperator) : op.written.text = op.symbol := by cases op <;> rfl

theorem written_level (op : BinaryOperator) : ∃ above, op.written.level? = some above ∧ 0 < above := by
  cases op <;> exact ⟨_, rfl, by decide⟩

theorem written_operator (op : BinaryOperator) :
    Replay.expressionOperator? op.written = some op := by cases op <;> rfl

end BinaryOperator

/-- An integer in decimal. -/
def integerTerm (n : Int) : Term :=
  if n < 0 then .unary .minus (.int (UInt64.ofNat n.natAbs)) else .int (UInt64.ofNat n.natAbs)

def realTerm (x : Binary64) : Term :=
  if x.isNegative then .unary .minus (.float (.ofMagnitude false x.magnitude))
  else .float (.ofMagnitude false x.magnitude)

def Literal.term : Literal → Term
  | .int value => integerTerm value.toInt
  | .bool value => .bool value
  | .fixed value => realTerm value

/-- The literal has a text. -/
def Literal.Finite : Literal → Prop
  | .fixed value => value.isFinite = true
  | _ => True

theorem isOperand_integer (n : Int) (h : n.natAbs < UInt64.size) :
    IsOperand (toString n) (integerTerm n) := by
  rw [Int.toString_eq_repr, Int.repr_eq_if]
  by_cases hn : n < 0
  · rw [integerTerm, if_pos hn, if_neg (by omega), show (-n).toNat = n.natAbs by omega]
    exact (IsOperand.integer h).minus
  · rw [integerTerm, if_neg hn, if_pos (by omega), show n.toNat = n.natAbs by omega]
    exact IsOperand.integer h

theorem isOperand_real {style : NumberStyle} (hstyle : style.wholeFraction = true)
    (h : x.isFinite = true) : IsOperand (style.write x) (realTerm x) := by
  have hnan := Binary64.not_isNaN_of_isFinite h
  simp only [NumberStyle.write, hnan, h, if_true, Bool.false_eq_true, if_false]
  unfold realTerm
  cases x.isNegative with
  | true => exact (IsOperand.magnitude hstyle h).minus
  | false =>
    have ht : "" ++ style.magnitude x = style.magnitude x := String.empty_append
    exact ht.symm ▸ IsOperand.magnitude hstyle h

theorem render_real (h : x.isFinite = true) :
    ∃ text, renderReal x = .ok text ∧ IsOperand text (realTerm x) :=
  ⟨_, if_pos h, isOperand_real rfl h⟩

theorem Literal.render_reads (l : Literal) (h : l.Finite) :
    ∃ text, l.render = .ok text ∧ IsOperand text l.term := by
  cases l with
  | int value =>
    refine ⟨_, rfl, isOperand_integer _ ?_⟩
    have hl := value.le_toInt
    have hh := value.toInt_lt
    have hsize : UInt64.size = 2 ^ 64 := rfl
    omega
  | bool value => exact ⟨_, rfl, (IsPrimary.bool value).operand⟩
  | fixed value => exact render_real h

-- ---------------------------------------------------------------------------
-- Expressions
-- ---------------------------------------------------------------------------

namespace Expression

/-- A call as it is written. -/
def callTerm (library : Library) (function : String) (arguments : List Term) : Term :=
  match library with
  | .random =>
    .call (.name "call_library_function") [.string library.name, .string function, .list arguments] []
  | _ => .call (.attribute (.name library.namespaceName) function) arguments []

mutual

/-- The expression as it is written. -/
def term : Expression → Term
  | .var v => .name v.text
  | .array name => .name name
  | .cell name i => .index (.name name) i.term
  | .literal value => value.term
  | .binary operator left right => .binary operator.written left.term right.term
  | .call library function arguments => callTerm library function (terms arguments)
  | .length name => .call (.attribute (.name name) "length") [] []

def terms : List Expression → List Term
  | [] => []
  | e :: rest => e.term :: terms rest

end

mutual

/-- The expression has a text that a script can hold: its names are identifiers, its reals finite, its
indices scalars, and its calls those of supported functions with as many arguments as they take. -/
def Writable : Expression → Prop
  | .var (.named name) => IsIdentifier name
  | .var (.io _) => True
  | .array name => IsIdentifier name
  | .cell name i => IsIdentifier name ∧ i.isScalar = true ∧ i.Writable
  | .literal value => value.Finite
  | .binary _ left right => left.Writable ∧ right.Writable
  | .call library function arguments =>
    library.arity? function = some arguments.length ∧ AllWritable arguments
  | .length name => IsIdentifier name

def AllWritable : List Expression → Prop
  | [] => True
  | e :: rest => e.Writable ∧ AllWritable rest

end

/-- The functions of the libraries have names that can be written. -/
theorem isIdentifier_of_arity (h : Library.arity? library function = some n) :
    IsIdentifier function := by
  obtain ⟨entry, hf, -⟩ := Option.map_eq_some_iff.mp h
  have hmem := List.mem_of_find?_eq_some hf
  have hname := List.find?_some hf
  simp only [decide_eq_true_eq] at hname
  have hall : ∀ library ∈ Library.all, ∀ entry ∈ library.functions, IsIdentifier entry.1 := by
    decide
  exact hname ▸ hall library (by cases library <;> decide) entry hmem

theorem isPrimary_namespace (library : Library) :
    IsPrimary library.namespaceName (.name library.namespaceName) :=
  .name (by cases library <;> decide)

/-- Names are quoted as they are. -/
theorem quoteWith_identifier (hq : Text.IsQuote q) (h : IsIdentifier s) :
    Text.quoteWith q s = String.singleton q ++ s ++ String.singleton q := by
  have hescape : s.toList.flatMap (Text.escape q) = s.toList := by
    have hall := List.all_eq_true.mp h.2.1
    have hself : ∀ c ∈ s.toList, Text.escape q c = [c] := by
      intro c hc
      have hne (d : Char) (hd : Text.isNamePart d = false) : c ≠ d := by
        rintro rfl
        rw [hall c hc] at hd
        contradiction
      have hcq : c ≠ q := by
        obtain rfl | rfl := hq
        · exact hne _ (by decide)
        · exact hne _ (by decide)
      simp [Text.escape, hne '\\' (by decide), hne '\n' (by decide), hne '\t' (by decide), hcq]
    rw [List.flatMap_congr hself]
    simp
  rw [← String.toList_inj]
  simp [Text.quoteWith, hescape]

/-- The call of a function of a library, with the texts of its arguments. -/
theorem moduleCall_reads (library : Library) (h : IsIdentifier function) {texts : List String}
    {vs : List Term} (ht : List.Forall₂ IsTerm texts vs) :
    IsPrimary (library.namespaceName ++ "." ++ function ++ "(" ++ String.intercalate "," texts ++ ")")
      (.call (.attribute (.name library.namespaceName) function) vs []) := by
  have hcall := ((isPrimary_namespace library).attribute h).call (.inl rfl) ht .nil
  rwa [List.append_nil] at hcall

theorem randomCall_reads (h : IsIdentifier function) {texts : List String} {vs : List Term}
    (ht : List.Forall₂ IsTerm texts vs) :
    IsPrimary ("call_library_function('random', '" ++ function ++ "', [" ++
        String.intercalate "," texts ++ "])")
      (.call (.name "call_library_function") [.string "random", .string function, .list vs] []) := by
  have hname : IsPrimary "call_library_function" (.name "call_library_function") := .name (by decide)
  have hlist : IsPrimary ("[" ++ String.intercalate "," texts ++ "]") (.list vs) := .list (.inl rfl) ht
  have hlibrary := (IsPrimary.quoteWith (.inr rfl) "random").term
  have hfunction := (IsPrimary.quoteWith (.inr rfl) function).term
  have hcall := hname.call (.inr rfl) (.cons hlibrary (.cons hfunction (.cons hlist.term .nil))) .nil
  rw [quoteWith_identifier (.inr rfl) h] at hcall
  have hrandom : Text.quoteWith '\'' "random" = "'random'" := by decide
  refine Eq.mp (congrArg (IsPrimary · _) ?_) hcall
  rw [← String.toList_inj, hrandom]
  simp

mutual

/-- The text of an expression is read as its term. -/
theorem render_reads : (e : Expression) → e.Writable →
    ∃ text, e.render = .ok text ∧ IsOperand text e.term
  | .var (.named _), h => ⟨_, rfl, (IsPrimary.name h).operand⟩
  | .var (.io .io1), _ => ⟨_, rfl, (IsPrimary.name (by decide)).operand⟩
  | .var (.io .io2), _ => ⟨_, rfl, (IsPrimary.name (by decide)).operand⟩
  | .array _, h => ⟨_, rfl, (IsPrimary.name h).operand⟩
  | .cell name i, ⟨hn, _, hi⟩ => by
    obtain ⟨text, hr, ht⟩ := render_reads i hi
    exact ⟨_, by rw [render, hr]; rfl, ((IsPrimary.name hn).index ht.term).operand⟩
  | .literal value, h => value.render_reads h
  | .binary operator left right, ⟨hl, hr⟩ => by
    obtain ⟨l, hlr, hl⟩ := render_reads left hl
    obtain ⟨r, hrr, hr⟩ := render_reads right hr
    obtain ⟨above, hlevel, habove⟩ := operator.written_level
    have hb := (hl.binary hr hlevel habove).parenthesized.operand
    rw [operator.written_text] at hb
    have ht : "(" ++ (l ++ operator.symbol ++ r) ++ ")" = "(" ++ l ++ operator.symbol ++ r ++ ")" := by
      simp only [String.append_assoc]
    exact ⟨_, by rw [render, hlr, hrr]; rfl, ht ▸ hb⟩
  | .call library function arguments, ⟨ha, hargs⟩ => by
    obtain ⟨texts, hr, ht⟩ := renderArguments_reads arguments hargs
    have hs : library.supports function = true := by rw [Library.supports, ha]; rfl
    have hid := isIdentifier_of_arity ha
    refine ⟨_, by rw [render, if_pos hs, hr]; rfl, ?_⟩
    cases library with
    | random => exact (randomCall_reads hid ht).operand
    | math => exact (moduleCall_reads .math hid ht).operand
    | cast => exact (moduleCall_reads .cast hid ht).operand
    | util => exact (moduleCall_reads .util hid ht).operand
  | .length name, h => by
    have hid : IsIdentifier "length" := by decide
    have hsep : IsSeparator "," := .inl rfl
    have hl := ((IsPrimary.name h).attribute hid).call hsep .nil .nil
    have ht : name ++ "." ++ "length" ++ "(" ++ String.intercalate "," ([] ++ []) ++ ")" =
        name ++ ".length()" := by simp [String.append_assoc]
    exact ⟨_, rfl, ht ▸ hl.operand⟩

theorem renderArguments_reads : (es : List Expression) → AllWritable es →
    ∃ texts, renderArguments es = .ok (String.intercalate "," texts) ∧
      List.Forall₂ IsTerm texts (terms es)
  | [], _ => ⟨[], by rw [renderArguments, String.intercalate_nil], .nil⟩
  | [e], ⟨he, _⟩ => by
    obtain ⟨text, hr, ht⟩ := render_reads e he
    exact ⟨[text], by rw [renderArguments, hr, String.intercalate_singleton], .cons ht.term .nil⟩
  | e :: e' :: es, ⟨he, hes⟩ => by
    obtain ⟨text, hr, ht⟩ := render_reads e he
    obtain ⟨texts, hrs, hts⟩ := renderArguments_reads (e' :: es) hes
    cases hts with
    | @cons text' _ texts _ ht' hts =>
      refine ⟨text :: text' :: texts, ?_, .cons ht.term (.cons ht' hts)⟩
      rw [renderArguments, hr, hrs, String.intercalate_cons_cons]
      · rfl
      · simp

end

end Expression
end Qua
