import Qua.Program.Listing
import Qua.Proofs.Build.Declarations
import Qua.Proofs.Replay.Scopes
import Qua.Proofs.Replay.Standing

/-!
# Declarations

Variables and arrays are named in the order in which they are declared, and a listing declares them in
that order. Its first lines therefore declare them again under the same names. Main statement:
`declarations_run`.
-/

namespace Qua

open Replay
open Script (Outline ReadsAll linesOf linesOf_append lineNumbersOf lineNumbersOf_append IsPrimary IsTerm)
open Text (IsIdentifier)

-- ---------------------------------------------------------------------------
-- Declarations of a session
-- ---------------------------------------------------------------------------

namespace Declaration

/-- The variable or the array that is declared. -/
def handle (d : Declaration) : Expression := if d.isArray then .array d.name else .named d.name

/-- A variable, an array with cells, or one with a size only. -/
inductive Shaped (d : Declaration) : Prop
  | scalar (hd : d.dimension = 0) (hs : d.size = 1) (hv : d.value.length ≤ 1)
  | cells (hd : d.dimension = 1) (hv : d.value ≠ []) (hs : d.size = UInt64.ofNat d.value.length)
  | sized (hd : d.dimension = 1) (hv : d.value = []) (hp : 0 < d.size.toNat) (hm : d.size.toNat < 2 ^ 63)

/-- The declaration has a line. -/
structure Writable (d : Declaration) : Prop where
  identifier : IsIdentifier d.name
  finite : ∀ l ∈ d.value, l.Finite

/-- The value with which the declaration is made again. -/
def initial (d : Declaration) : Option InitialValue :=
  match d.isArray, d.value with
  | _, [] => none
  | false, value :: _ => some (.scalar value)
  | true, values => some (.array values)

/-- The size with which the declaration is made again. -/
def givenSize (d : Declaration) : Option Int64 :=
  if d.isArray && d.value.isEmpty then some (Int64.ofNat d.size.toNat) else none

theorem shape_again {d : Declaration} (h : d.Shaped) :
    Build.shape d.initial d.givenSize = .ok (d.dimension, d.size, d.value) := by
  obtain ⟨name, scalarType, size, dimension, isInputStream, value⟩ := d
  cases h with
  | scalar hd hs hv =>
    simp only at hd hs hv
    subst hd hs
    match value, hv with
    | [], _ => rfl
    | [value], _ => rfl
  | cells hd hv hs =>
    simp only at hd hv hs
    subst hd hs
    cases value with
    | nil => contradiction
    | cons v vs => rfl
  | sized hd hv hp hm =>
    simp only at hd hv hp hm
    subst hd hv
    have hint : (Int64.ofNat size.toNat).toInt = size.toNat := by
      rw [Int64.toInt_ofNat_of_lt hm]
    have hpos : ¬ (Int64.ofNat size.toNat).toInt ≤ 0 := by rw [hint]; omega
    have hsize : UInt64.ofNat (Int64.ofNat size.toNat).toInt.toNat = size := by
      rw [hint, Int.toNat_natCast, UInt64.ofNat_toNat]
    simp only [initial, givenSize, isArray]
    change Build.shape none (some (Int64.ofNat size.toNat)) = _
    simp only [Build.shape, hpos, if_false, Option.isSome_none, Bool.false_eq_true, hsize]

end Declaration

-- ---------------------------------------------------------------------------
-- What is written for a declaration
-- ---------------------------------------------------------------------------

/-- The value of the text of an initial value. -/
def InitialValue.replayed : InitialValue → Value
  | .scalar value => value.replayed
  | .array values => .list (values.map Literal.replayed)

/-- The keywords of a declaration. -/
def Declaration.keywords (d : Declaration) : List (String × Value) :=
  keywordOf "value" (d.initial.map InitialValue.replayed) ++ keywordOf "size" (d.givenSize.map .int)

theorem toLiteral_replayed (l : Literal) : l.replayed.toLiteral = .ok l := by
  cases l with
  | int n =>
    simp only [Literal.replayed, Value.toLiteral, ofInt_toInt64]
    rfl
  | _ => rfl

theorem read_initial (v : InitialValue) :
    v.replayed.toInitialValue = .ok (id v) ∧ v.replayed.isNone = false := by
  cases v with
  | scalar l =>
    have hread : l.replayed.toInitialValue = InitialValue.scalar <$> l.replayed.toLiteral := by
      cases l <;> rfl
    refine ⟨?_, by cases l <;> rfl⟩
    rw [InitialValue.replayed, hread, toLiteral_replayed]
    rfl
  | array values =>
    have hcells := mapM_map_ok toLiteral_replayed values
    refine ⟨?_, rfl⟩
    rw [InitialValue.replayed, Value.toInitialValue, Value.toLiterals, hcells]
    rfl

section

variable {call : Option InitialValue → Option Int64 → Taking α} {function : String} {n : Nat}

/-- The initial value and the size are taken from the keywords. -/
theorem Declaration.takes_keywords (d : Declaration)
    (h : ∀ keywords, (∀ k ∈ keywords, k.2 = none) →
      Takes (call d.initial d.givenSize) (.after function n [] keywords) r) :
    Takes (do
        let value ← initialValue n
        let size ← Replay.size (n + 1)
        call value size)
      (.after function n [] (d.keywords.map fun (name, value) => (name, some value))) r := by
  rw [keywords, List.map_append, map_keywordOf, map_keywordOf, initialValue, bind_assoc]
  refine .optional_keyword (by simp) ?_
  rw [splitKeyword_same _ (splitKeyword_last_other false _ (by decide))]
  refine .read_optional (fun v _ => read_initial v) ?_
  rw [Option.map_id, Replay.size, bind_assoc]
  refine .optional_keyword (by simp) ?_
  rw [splitKeyword_other true _ (by decide), splitKeyword_last]
  refine .read_optional (g := id) (fun size _ => ⟨rfl, rfl⟩) ?_
  rw [Option.map_id]
  exact h _ fun k hk => (List.mem_append.mp hk).elim slot_taken slot_taken

end

theorem declare_takes (d : Declaration) :
    Takes (builtin "declare") (.of "declare" [.type d.scalarType] d.keywords)
      (Value.expression <$> Build.declare d.scalarType d.initial d.givenSize) := by
  change Takes declare _ _
  exact .required (.of_lift rfl (d.takes_keywords fun _ hk => .done _ hk))

theorem declareInputStream_takes (d : Declaration) (stream : String) :
    Takes (builtin "declare_input_stream")
      (.of "declare_input_stream" [.type d.scalarType, .string stream] d.keywords)
      (Value.expression <$> Build.declareInputStream d.scalarType stream d.initial d.givenSize) := by
  change Takes declareInputStream _ _
  exact .required (.of_lift rfl (.text (d.takes_keywords fun _ hk => .done _ hk)))

-- ---------------------------------------------------------------------------
-- Lines
-- ---------------------------------------------------------------------------

section

variable {hs : List (String × Expression)} {s : State} {d : Declaration} {ds : List Declaration}

theorem Replay.Ready.scalarType (h : Ready hs s) (t : ScalarType) : PrimaryMeans s t.name (.type t) := by
  have hn : IsIdentifier t.name := by cases t <;> decide
  have hfree := h.free t.name (by cases t <;> decide)
  refine ⟨.name t.name, .name hn, ?_⟩
  rw [evaluate, lookup, bind_run, get_run]
  simp only [hfree]
  cases t <;> rfl

theorem means_literals {values : List Literal} (h : ∀ l ∈ values, l.Finite) :
    ∃ texts, values.mapM Literal.render = .ok texts ∧
      List.Forall₂ (Means s) texts (values.map Literal.replayed) := by
  induction values with
  | nil => exact ⟨[], rfl, .nil⟩
  | cons l values ih =>
    rw [List.forall_mem_cons] at h
    obtain ⟨text, hr, ht⟩ := means_literal (s := s) l h.1
    obtain ⟨texts, hrs, hts⟩ := ih h.2
    refine ⟨text :: texts, ?_, .cons ht.term hts⟩
    rw [List.mapM_cons, hr, hrs]
    rfl

/-- The size of an array without cells is an integer of a script. -/
theorem means_size {size : UInt64} (h : size.toNat < 2 ^ 63) :
    Means s (toString size.toNat) (.int (Int64.ofNat size.toNat)) := by
  have hint : (Int64.ofNat size.toNat).toInt = size.toNat := Int64.toInt_ofNat_of_lt h
  have hmin : Int64.ofNat size.toNat ≠ Int64.minValue := by
    intro he
    have hneg : Int64.minValue.toInt < 0 := by decide
    rw [he] at hint
    omega
  have hmeans := (means_integer (s := s) hmin).term
  rwa [integerText, hint] at hmeans

/-- The further argument of a declaration is its keyword. -/
theorem Declaration.trails (hw : d.Writable) (hd : d.Shaped) :
    ∃ text, d.renderValue = .ok text ∧ Trails s text d.keywords := by
  obtain ⟨name, scalarType, size, dimension, isInputStream, value⟩ := d
  cases hd with
  | scalar hd hs hv =>
    simp only at hd hs hv
    subst hd hs
    match value, hv, hw with
    | [], _, _ => exact ⟨"", rfl, .nil⟩
    | [value], _, hw =>
      obtain ⟨text, hr, ht⟩ := means_literal (s := s) value (hw.finite value List.mem_cons_self)
      refine ⟨", " ++ "value" ++ "=" ++ text, ?_, .one (by decide) ht.term⟩
      have hkeyword : ", value=" = ", " ++ "value" ++ "=" := by decide
      rw [← hkeyword]
      change (do let value ← value.render; return ", value=" ++ value) = _
      rw [hr]
      rfl
  | cells hd hv hs =>
    simp only at hd hv hs
    subst hd hs
    obtain ⟨texts, hr, ht⟩ := means_literals (s := s) hw.finite
    cases value with
    | nil => contradiction
    | cons first rest =>
      have hlist := (means_list comma ht).means
      refine ⟨", " ++ "value" ++ "=" ++ ("[" ++ ", ".intercalate texts ++ "]"), ?_,
        .one (by decide) hlist⟩
      have hkeyword : ", value=[" = ", " ++ "value" ++ "=" ++ "[" := by decide
      change (do
        let values ← (first :: rest).mapM Literal.render
        return ", value=[" ++ String.intercalate ", " values ++ "]") = _
      rw [hr]
      simp only [hkeyword, String.append_assoc]
      rfl
  | sized hd hv hp hm =>
    simp only at hd hv hp hm
    subst hd hv
    refine ⟨", " ++ "size" ++ "=" ++ toString size.toNat, ?_, .one (by decide) (means_size hm)⟩
    have hkeyword : ", size=" = ", " ++ "size" ++ "=" := by decide
    rw [← hkeyword]
    rfl

/-- The call that declares. -/
def Declaration.call (d : Declaration) : Except RenderError String := do
  let value ← d.renderValue
  return (match d.inputStream? with
    | some stream => "declare_input_stream(" ++ d.scalarType.name ++ ", " ++ Text.quote stream
    | none => "declare(" ++ d.scalarType.name) ++ value ++ ")"

theorem Declaration.render_eq (d : Declaration) :
    d.render = (fun call => d.name ++ " = " ++ call) <$> d.call := by
  rw [render, call]
  cases d.renderValue with
  | error e => rfl
  | ok value =>
    simp only [String.append_assoc]
    rfl

theorem Declaration.call_ok (hw : d.Writable) (hd : d.Shaped) : ∃ text, d.call = .ok text := by
  obtain ⟨trail, hvalue, -⟩ := trails (s := {}) hw hd
  rw [call, hvalue]
  exact ⟨_, rfl⟩

theorem Replay.Ready.declares (h : Ready hs s) (hw : d.Writable) (hd : d.Shaped)
    {t : Draft} (hnone : d.inputStream? = none →
      Build.declare d.scalarType d.initial d.givenSize s.draft = .ok (e, t))
    (hsome : ∀ stream, d.inputStream? = some stream →
      Build.declareInputStream d.scalarType stream d.initial d.givenSize s.draft = .ok (e, t)) :
    ∃ text, d.call = .ok text ∧ Yields IsPrimary s text (.expression e) { s with draft := t } := by
  obtain ⟨trail, hr, htrail⟩ := Declaration.trails (s := s) hw hd
  have htype := (h.scalarType d.scalarType).means
  cases hi : d.inputStream? with
  | none =>
    have hstep : (Value.expression <$> Build.declare d.scalarType d.initial d.givenSize) s.draft =
        .ok (.expression e, t) := by rw [map_run, hnone hi]
    have hcall := h.callWith (show "declare(" = "declare" ++ "(" by decide) (by decide) (by decide)
      (.cons htype .nil) htrail
      (declare_takes d) hstep
    rw [String.intercalate_singleton] at hcall
    refine ⟨_, ?_, hcall⟩
    rw [Declaration.call, hr]
    simp only [hi, String.append_assoc]
    rfl
  | some stream =>
    have hstep : (Value.expression <$> Build.declareInputStream d.scalarType stream d.initial d.givenSize)
        s.draft = .ok (.expression e, t) := by rw [map_run, hsome stream hi]
    have hcall := h.callWith (show "declare_input_stream(" = "declare_input_stream" ++ "(" by decide)
      (by decide) (by decide) (.cons htype (.cons (means_string stream).means .nil)) htrail
      (declareInputStream_takes d stream) hstep
    rw [String.intercalate_cons_cons, String.intercalate_singleton] at hcall
    refine ⟨_, ?_, hcall⟩
    rw [Declaration.call, hr]
    simp only [hi, String.append_assoc]
    rfl

-- ---------------------------------------------------------------------------
-- Declarations one after the other
-- ---------------------------------------------------------------------------

/-- The names of declarations, with their variables and arrays. -/
def handlesOf (ds : List Declaration) : List (String × Expression) := ds.map fun d => (d.name, d.handle)

/-- A draft with nothing but declarations. -/
def Draft.declared (ds : List Declaration) : Draft :=
  { program := { declarations := ds }
    scalars := ds.countP (Declaration.isNumbered false)
    arrays := ds.countP (Declaration.isNumbered true)
    inputStreams := ((ds.filter Declaration.isInputStream).map Declaration.name).reverse }

/-- The stage after the declarations. -/
def Stage.declared (ds : List Declaration) : Stage := ⟨[], .declared ds⟩

theorem Text.withoutPrefix?_append (p s : String) : Text.withoutPrefix? p (p ++ s) = some s := by
  have h : p.toList.isPrefixOf? (p ++ s).toList = some s.toList := by simp
  rw [Text.withoutPrefix?, h, Option.map_some, String.ofList_toList]

theorem Draft.declaring_declared (ds : List Declaration) (d : Declaration) (hi : d.isInputStream = false) :
    ((Draft.declared ds).handOut d.isArray).declaring d = .declared (ds ++ [d]) := by
  cases ha : d.isArray <;>
  · simp [declared, handOut, declaring, Declaration.isNumbered, hi, ha]

theorem Draft.declaring_inputStream (ds : List Declaration) (d : Declaration) (hi : d.isInputStream = true) :
    ({ Draft.declared ds with inputStreams := d.name :: (Draft.declared ds).inputStreams }).declaring d =
      .declared (ds ++ [d]) := by
  simp [declared, declaring, Declaration.isNumbered, hi]

namespace Declaration

/-- A declaration that follows others is made again after them, under its name. -/
theorem Follows.declare (h : d.Follows ds) (hd : d.Shaped) (hi : d.isInputStream = false) :
    Build.declare d.scalarType d.initial d.givenSize (.declared ds) =
      .ok (d.handle, .declared (ds ++ [d])) := by
  have hname : d.name = stem d.isArray ++ toString (ds.countP (isNumbered d.isArray) + 1) := by
    simpa [Follows, hi] using h
  have hfresh : Build.freshName d.isArray (.declared ds) =
      .ok (d.name, (Draft.declared ds).handOut d.isArray) := by
    rw [hname]
    cases d.isArray <;> rfl
  rw [Build.declare, Build.declareNamed, shape_again hd, ← Draft.declaring_declared ds d hi]
  simp only [pure_bind]
  change (Build.freshName d.isArray >>= _) _ = _
  rw [bind_run, hfresh]
  obtain ⟨name, scalarType, size, dimension, isInputStream, value⟩ := d
  obtain rfl : isInputStream = false := hi
  rfl

theorem Follows.declareInputStream (h : d.Follows ds) (hd : d.Shaped) (hi : d.inputStream? = some stream) :
    Build.declareInputStream d.scalarType stream d.initial d.givenSize (.declared ds) =
      .ok (d.handle, .declared (ds ++ [d])) := by
  have hinput : d.isInputStream = true := by
    by_contra hn
    simp [inputStream?, hn] at hi
  simp only [Follows, hinput, if_true] at h
  obtain ⟨⟨stream', hname, hne⟩, hnew⟩ := h
  obtain rfl : stream' = stream := by
    rw [inputStream?, if_pos hinput, hname, Text.withoutPrefix?_append] at hi
    exact Option.some.inj hi
  have hfresh : (Draft.declared ds).inputStreams.contains d.name = false := by
    rw [List.contains_eq_mem, decide_eq_false_iff_not]
    simp only [Draft.declared, List.mem_reverse, List.mem_map, List.mem_filter, not_exists, not_and, and_imp]
    exact fun e he hie => hnew e he hie
  have hrun : Build.inputStreamName stream' (.declared ds) = .ok (d.name,
      { Draft.declared ds with inputStreams := d.name :: (Draft.declared ds).inputStreams }) := by
    rw [hname] at hfresh ⊢
    simp only [Build.inputStreamName, hne, if_false, bind_run, get_run, hfresh]
    rfl
  rw [Build.declareInputStream, Build.declareNamed, shape_again hd, ← Draft.declaring_inputStream ds d hinput]
  simp only [pure_bind]
  rw [bind_run, hrun]
  obtain ⟨name, scalarType, size, dimension, isInputStream, value⟩ := d
  obtain rfl : isInputStream = true := hinput
  rfl

theorem Follows.not_inputStream (h : d.Follows ds) (hi : d.inputStream? = none) :
    d.isInputStream = false := by
  cases hd : d.isInputStream with
  | false => rfl
  | true =>
    simp only [Follows, hd, if_true] at h
    obtain ⟨⟨stream, hn, -⟩, -⟩ := h
    rw [inputStream?, if_pos hd, hn, Text.withoutPrefix?_append] at hi
    cases hi

end Declaration

theorem handlesOf_append (ds : List Declaration) (d : Declaration) :
    handlesOf (ds ++ [d]) = handlesOf ds ++ [(d.name, d.handle)] := List.map_append

/-- The call of a declaration declares it after others. -/
theorem Replay.Standing.declares (hst : Standing (handlesOf ds) (.declared ds) [] scopes s)
    (hf : d.Follows ds) (hw : d.Writable) (hd : d.Shaped) (hc : d.call = .ok call) (line : Nat) :
    ∃ number, Yields IsTerm (s.atLine line) call (.expression d.handle)
      { s with draft := (Draft.declared (ds ++ [d])).moved ⟨[], scopes, number, lineLocation line⟩ } := by
  obtain ⟨number, hdraft, hat⟩ := hst.atLine line
  obtain ⟨call', hcall, hyields⟩ := hat.ready.declares hw hd
    (t := (Draft.declared (ds ++ [d])).moved ⟨[], scopes, number, lineLocation line⟩) (e := d.handle)
    (fun hi => by
      rw [hdraft]
      exact (Build.local_declare _ _ _).moved (hf.declare hd (hf.not_inputStream hi)) _)
    (fun stream hi => by
      rw [hdraft]
      exact (Build.local_declareNamed _ _ _ _).moved (hf.declareInputStream hd hi) _)
  obtain rfl := Except.ok.inj (hc.symm.trans hcall)
  exact ⟨number, hyields.operand.term⟩

/-- The line of a declaration declares it again, and binds its name. -/
theorem declaration_runs (hn : Numbered ds) (hf : d.Follows ds) (hw : d.Writable) (hd : d.Shaped)
    (hr : d.render = .ok text) :
    ∃ o : Outline, (∀ depth, o.lines depth = [⟨depth, text⟩]) ∧
      ∀ ⦃scopes s⦄, Standing (handlesOf ds) (.declared ds) [] scopes s → (∃ stmt, Script.Reads o stmt) ∧
        ∀ stmt, Script.Reads o stmt → stmt.lineNumbers = [stmt.line] ∧
          ∃ s', statements [stmt] s = .ok ((), s') ∧
            Standing (handlesOf (ds ++ [d])) (.declared (ds ++ [d])) [] scopes s' := by
  rw [Declaration.render_eq] at hr
  obtain ⟨call, hcall, rfl⟩ := except_map_eq_ok.mp hr
  refine ⟨.assign d.name call, fun _ => rfl, fun scopes s hst => ?_⟩
  have hline := hst.declares hf hw hd hcall
  constructor
  · obtain ⟨number, t, ht, -⟩ := hline 0
    exact ⟨_, .assign 0 hw.identifier ht⟩
  · intro stmt hreads
    cases hreads with
    | assign line _ ht =>
      obtain ⟨number, t, ht', hrun⟩ := hline line
      obtain rfl := ht.unique ht'
      refine ⟨rfl, _, statements_one (statement_assign line d.name hrun),
        ⟨⟨hst.ready.inProgram, ?_, fun name hfree => ?_⟩, fun _ _ hl => (nomatch hl), hst.programs,
          _, _, rfl⟩⟩
      · rw [handlesOf_append, List.forall_mem_append, List.forall_mem_singleton]
        refine ⟨fun e he => ?_, List.lookup_cons_self⟩
        obtain ⟨e, hmem, rfl⟩ := List.mem_map.mp he
        rw [List.lookup_cons, beq_false_of_ne (hn.name_ne hf e hmem)]
        exact hst.ready.bound _ he
      · have hne : name ≠ d.name := by
          rintro rfl
          rw [hf.allocated] at hfree
          nomatch hfree
        rw [List.lookup_cons, beq_false_of_ne hne]
        exact hst.ready.free name hfree

/-- The lines of declarations declare them again, in a program that has no others. -/
theorem declarations_run (hn : Numbered ds) (hw : ∀ d ∈ ds, d.Writable) (hd : ∀ d ∈ ds, d.Shaped)
    (hr : ds.mapM Declaration.render = .ok texts) :
    ∃ os : List Outline, (∀ depth, linesOf depth os = texts.map fun text => ⟨depth, text⟩) ∧
      ∀ ⦃scopes s⦄, Standing [] (.declared []) [] scopes s → (∃ stmts, ReadsAll os stmts) ∧
        ∀ stmts, ReadsAll os stmts → (lineNumbersOf stmts).length = ds.length ∧
          ∃ s', statements stmts s = .ok ((), s') ∧ Standing (handlesOf ds) (.declared ds) [] scopes s' := by
  induction hn generalizing texts with
  | nil =>
    obtain rfl := Except.ok.inj hr
    refine ⟨[], fun _ => rfl, fun scopes s hst => ⟨⟨[], .nil⟩, ?_⟩⟩
    rintro _ ⟨⟩
    exact ⟨rfl, s, by rw [statements]; rfl, hst⟩
  | @snoc ds d hn hf ih =>
    rw [List.forall_mem_append, List.forall_mem_singleton] at hw hd
    rw [List.mapM_append] at hr
    obtain ⟨texts, hrs, hr⟩ := except_bind_eq_ok.mp hr
    obtain ⟨last, hrd, hr⟩ := except_bind_eq_ok.mp hr
    obtain rfl := Except.ok.inj hr
    rw [List.mapM_cons] at hrd
    obtain ⟨text, hrender, hlast⟩ := except_bind_eq_ok.mp hrd
    obtain rfl := Except.ok.inj hlast
    obtain ⟨os, hlines, hall⟩ := ih hw.1 hd.1 hrs
    obtain ⟨o, hline, hone⟩ := declaration_runs hn hf hw.2 hd.2 hrender
    refine ⟨os ++ [o], fun depth => ?_, fun scopes s hst => ?_⟩
    · rw [linesOf_append, hlines, linesOf, linesOf, hline, List.append_nil, List.map_append]
      rfl
    · obtain ⟨⟨before, hb⟩, hbefore⟩ := hall hst
      constructor
      · obtain ⟨-, s', -, hst'⟩ := hbefore before hb
        obtain ⟨⟨stmt, hreads⟩, -⟩ := hone hst'
        exact ⟨before ++ [stmt], hb.append (.cons hreads .nil)⟩
      · intro stmts hreads
        obtain ⟨before, after, rfl, hb, ha⟩ := hreads.of_append
        obtain ⟨hlength, s', hrun, hst'⟩ := hbefore before hb
        cases ha with
        | cons ha hnil =>
          cases hnil
          obtain ⟨hnumber, s'', hrun', hst''⟩ := (hone hst').2 _ ha
          refine ⟨?_, s'', ?_, hst''⟩
          · simp [lineNumbersOf_append, hlength, lineNumbersOf, hnumber]
          · rw [statements_append hrun, hrun']

end

end Qua
