import Qua.Proofs.Configuration.Runs
import Qua.Proofs.Expression.Written
import Qua.Proofs.Replay.Evaluation
import Qua.Proofs.Script.Precedence
import Qua.Proofs.Script.Spread

/-!
# What the literal of a configuration denotes

The text of a configuration is parsed as one term, and the value of the term is the configuration. A
value on one line is the value itself (`inline_denotes`); runs put its first item for all items that
equal it, so that a list, and what holds it, is equal to the configuration (`member_denotes`).
-/

namespace Qua

open Script (Term IsPrimary IsOperand IsTerm IsAt IsSeparator Written EndsNumber ReadsTerm ReadsEntry
  Spread IsLines)

-- ---------------------------------------------------------------------------
-- Values of terms
-- ---------------------------------------------------------------------------

namespace Script.Term

mutual

/-- The value that a term has by itself: that of literals, of numbers with a sign, of lists that are
repeated and joined, and of dictionaries, where a later key takes the place of an equal one. -/
def value? : Term → Option Json
  | .int n => some (.integer n.toNat)
  | .float x => some (.real x)
  | .string s => some (.string s)
  | .bool b => some (.bool b)
  | .none => some .null
  | .list items => Json.array <$> values? items
  | .dict entries => Json.object <$> members? [] entries
  | .unary .minus operand =>
    match operand.value? with
    | some (.integer n) => some (.integer (-n))
    | some (.real x) => some (.real (-x))
    | _ => Option.none
  | .binary .star left right =>
    match left.value?, right.value? with
    | some (.array items), some (.integer n) => some (.array (List.replicate n.toNat items).flatten)
    | _, _ => Option.none
  | .binary .plus left right =>
    match left.value?, right.value? with
    | some (.array items), some (.array others) => some (.array (items ++ others))
    | _, _ => Option.none
  | _ => Option.none

def values? : List Term → Option (List Json)
  | [] => some []
  | item :: rest => do
    let item ← item.value?
    let rest ← values? rest
    return item :: rest

/-- The members of a dictionary, those before them being `members`; every key is a string. -/
def members? (members : List (String × Json)) : List (Term × Term) → Option (List (String × Json))
  | [] => some members
  | (.string key, value) :: rest => do
    let value ← value.value?
    members? (Json.insert key value members) rest
  | _ => Option.none

end

mutual

/-- The integers of a literal are below a bound. -/
def Within (bound : Nat) : Term → Prop
  | .int n => n.toNat < bound
  | .list items => AllWithin bound items
  | .dict entries => EntriesWithin bound entries
  | .unary _ operand => operand.Within bound
  | .binary _ left right => left.Within bound ∧ right.Within bound
  | _ => True

def AllWithin (bound : Nat) : List Term → Prop
  | [] => True
  | item :: rest => item.Within bound ∧ AllWithin bound rest

def EntriesWithin (bound : Nat) : List (Term × Term) → Prop
  | [] => True
  | (key, value) :: rest => key.Within bound ∧ value.Within bound ∧ EntriesWithin bound rest

end

end Script.Term

namespace Json

mutual

/-- The integers of a value and the lengths of its lists are below a bound. -/
def Within (bound : Nat) : Json → Prop
  | .integer n => n.natAbs < bound
  | .array items => items.length < bound ∧ AllWithin bound items
  | .object members => MembersWithin bound members
  | _ => True

def AllWithin (bound : Nat) : List Json → Prop
  | [] => True
  | item :: rest => item.Within bound ∧ AllWithin bound rest

def MembersWithin (bound : Nat) : List (String × Json) → Prop
  | [] => True
  | (_, value) :: rest => value.Within bound ∧ MembersWithin bound rest

end

theorem allWithin_iff {items : List Json} : AllWithin bound items ↔ ∀ item ∈ items, item.Within bound := by
  induction items with
  | nil => simp [AllWithin]
  | cons item rest ih => simp [AllWithin, ih]

end Json

/-- Bounds of a value are bounds of the term. -/
def Script.Term.BoundedBy (t : Term) (v : Json) : Prop := ∀ bound, v.Within bound → t.Within bound

open Script.Term (value? values? members?)

theorem integerTerm_boundedBy {n : Int} (hn : n.natAbs < UInt64.size) :
    (integerTerm n).BoundedBy (.integer n) := by
  intro bound h
  have hsize : (UInt64.ofNat n.natAbs).toNat = n.natAbs := by
    rw [UInt64.toNat_ofNat']
    exact Nat.mod_eq_of_lt hn
  unfold integerTerm
  split <;> simpa only [Script.Term.Within, Json.Within, hsize] using h

theorem integerTerm_value (n : Int) (h : n.natAbs < UInt64.size) :
    (integerTerm n).value? = some (.integer n) := by
  have hn : (UInt64.ofNat n.natAbs).toNat = n.natAbs := by
    rw [UInt64.toNat_ofNat']
    exact Nat.mod_eq_of_lt h
  unfold integerTerm
  split
  · simp only [value?, hn]
    congr 2
    omega
  · simp only [value?, hn]
    congr 2
    omega

theorem realTerm_boundedBy (x : Binary64) (v : Json) : (realTerm x).BoundedBy v := by
  intro bound _
  unfold realTerm
  split <;> trivial

theorem realTerm_value (x : Binary64) : (realTerm x).value? = some (.real x) := by
  unfold realTerm
  split
  · next h => simp only [value?, Binary64.neg_ofMagnitude h]
  · next h => simp only [value?, Binary64.ofMagnitude_magnitude (Bool.not_eq_true _ ▸ h)]

/-- A key that no member has is added at the end. -/
theorem Json.insert_new {members : List (String × Json)} (h : key ∉ members.map Prod.fst) :
    Json.insert key value members = members ++ [(key, value)] := by
  induction members with
  | nil => rfl
  | cons member rest ih =>
    obtain ⟨name, other⟩ := member
    rw [List.map_cons, List.mem_cons, not_or] at h
    rw [Json.insert, if_neg (Ne.symm h.1), ih h.2]
    rfl

/-- A dictionary whose first key is followed by entries that denote members under other names. -/
theorem members_cons {t : Term} (hvalue : t.value? = some value)
    (h : ∀ before, ((before ++ found).map Prod.fst).Nodup → members? before es = some (before ++ found))
    (before : List (String × Json)) (hn : ((before ++ (key, value) :: found).map Prod.fst).Nodup) :
    members? before ((.string key, t) :: es) = some (before ++ (key, value) :: found) := by
  rw [List.append_cons] at hn ⊢
  have hnew : key ∉ before.map Prod.fst := by
    rw [List.map_append, List.map_append, List.append_assoc] at hn
    intro hkey
    exact (List.nodup_append.mp hn).2.2 key hkey key (by simp) rfl
  rw [members?, hvalue]
  simp only [Option.bind_eq_bind, Option.bind_some, Json.insert_new hnew]
  exact h _ hn

-- ---------------------------------------------------------------------------
-- Values on one line
-- ---------------------------------------------------------------------------

namespace Configuration

theorem isSeparator_comma : IsSeparator ", " := .inr rfl

theorem stringLiteral_reads (s : String) : IsPrimary (stringLiteral s) (.string s) := by
  unfold stringLiteral
  split
  · exact .quoteWith (.inl rfl) s
  · exact .quoteWith (.inr rfl) s

theorem scalarLiteral_denotes (v : Json) (hw : v.WellFormed) (ha : ∀ items, v ≠ .array items)
    (ho : ∀ members, v ≠ .object members) :
    ∃ t, IsOperand (scalarLiteral v) t ∧ t.value? = some v ∧ t.BoundedBy v := by
  cases v with
  | null => exact ⟨.none, IsPrimary.none.operand, rfl, fun _ _ => trivial⟩
  | bool b =>
    have htext : scalarLiteral (.bool b) = renderBool b := by cases b <;> rfl
    exact ⟨.bool b, htext ▸ (IsPrimary.bool b).operand, rfl, fun _ _ => trivial⟩
  | integer n =>
    have hn : n.natAbs < UInt64.size := by
      obtain ⟨hlow, hhigh⟩ := hw
      have hsize : UInt64.size = 2 ^ 64 := rfl
      omega
    exact ⟨_, isOperand_integer n hn, integerTerm_value n hn, integerTerm_boundedBy hn⟩
  | real x =>
    have htext : scalarLiteral (.real x) = NumberStyle.json.write x := by
      simp only [scalarLiteral, Json.print, Json.printReal]
      exact if_pos hw
    exact ⟨_, htext ▸ isOperand_real rfl hw, realTerm_value x, realTerm_boundedBy x _⟩
  | string s => exact ⟨.string s, (stringLiteral_reads s).operand, rfl, fun _ _ => trivial⟩
  | array items => exact absurd rfl (ha items)
  | object members => exact absurd rfl (ho members)

theorem inline_scalar {v : Json} (ha : ∀ items, v ≠ .array items)
    (ho : ∀ members, v ≠ .object members) (h : inline level v = .ok text) : text = scalarLiteral v := by
  rw [inline.eq_3 level v ha ho] at h
  obtain ⟨_, -, h⟩ := except_bind_eq_ok.mp h
  exact (Except.ok.inj h).symm

mutual

/-- A value on one line is parsed as a term that denotes the value. -/
theorem inline_denotes : (v : Json) → v.WellFormed → inline level v = .ok text →
    ∃ t, IsOperand text t ∧ t.value? = some v ∧ t.BoundedBy v
  | .array items, hw, h => by
    rw [inline] at h
    obtain ⟨_, -, h⟩ := except_bind_eq_ok.mp h
    obtain ⟨texts, htexts, h⟩ := except_bind_eq_ok.mp h
    obtain rfl := Except.ok.inj h
    obtain ⟨ts, hts, hvalues, hbound⟩ := inlineItems_denote items hw.2 htexts
    exact ⟨_, (IsPrimary.list isSeparator_comma hts).operand, by rw [value?, hvalues]; rfl,
      fun bound h => hbound bound h.2⟩
  | .object members, hw, h => by
    rw [inline] at h
    obtain ⟨_, -, h⟩ := except_bind_eq_ok.mp h
    obtain ⟨texts, htexts, h⟩ := except_bind_eq_ok.mp h
    obtain rfl := Except.ok.inj h
    obtain ⟨es, hes, hvalues, hbound⟩ := inlineMembers_denote members hw.2 htexts
    exact ⟨_, (IsPrimary.dict isSeparator_comma hes).operand,
      by rw [value?, hvalues [] (by simpa using hw.1)]; rfl, hbound⟩
  | .null, hw, h | .bool _, hw, h | .integer _, hw, h | .real _, hw, h | .string _, hw, h => by
    obtain rfl := inline_scalar (by simp) (by simp) h
    exact scalarLiteral_denotes _ hw (by simp) (by simp)

theorem inlineItems_denote : (items : List Json) → Json.AllWellFormed items →
    inlineItems level items = .ok texts →
    ∃ ts, List.Forall₂ IsTerm texts ts ∧ values? ts = some items ∧
      ∀ bound, Json.AllWithin bound items → Term.AllWithin bound ts
  | [], _, h => by
    obtain rfl := Except.ok.inj h
    exact ⟨[], .nil, rfl, fun _ _ => trivial⟩
  | item :: rest, hw, h => by
    rw [inlineItems] at h
    obtain ⟨text, htext, h⟩ := except_bind_eq_ok.mp h
    obtain ⟨texts, htexts, h⟩ := except_bind_eq_ok.mp h
    obtain rfl := Except.ok.inj h
    obtain ⟨t, ht, hvalue, hb⟩ := inline_denotes item hw.1 htext
    obtain ⟨ts, hts, hvalues, hbs⟩ := inlineItems_denote rest hw.2 htexts
    exact ⟨t :: ts, .cons ht.term hts, by rw [values?, hvalue, hvalues]; rfl,
      fun bound h => ⟨hb bound h.1, hbs bound h.2⟩⟩

theorem inlineMembers_denote : (members : List (String × Json)) → Json.MembersWellFormed members →
    inlineMembers level members = .ok texts →
    ∃ es, List.Forall₂ (fun text e => Written EndsNumber (ReadsEntry · e) text) texts es ∧
      (∀ before, ((before ++ members).map Prod.fst).Nodup →
        members? before es = some (before ++ members)) ∧
      ∀ bound, Json.MembersWithin bound members → Term.EntriesWithin bound es
  | [], _, h => by
    obtain rfl := Except.ok.inj h
    exact ⟨[], .nil, fun before _ => by rw [members?, List.append_nil], fun _ _ => trivial⟩
  | (key, value) :: rest, hw, h => by
    rw [inlineMembers] at h
    obtain ⟨text, htext, h⟩ := except_bind_eq_ok.mp h
    obtain ⟨texts, htexts, h⟩ := except_bind_eq_ok.mp h
    obtain rfl := Except.ok.inj h
    obtain ⟨t, ht, hvalue, hb⟩ := inline_denotes value hw.1 htext
    obtain ⟨es, hes, hmembers, hbs⟩ := inlineMembers_denote rest hw.2 htexts
    exact ⟨(.string key, t) :: es, .cons (IsTerm.entry (.quoteWith (.inr rfl) key) ht.term) hes,
      members_cons hvalue hmembers, fun bound h => ⟨trivial, hb bound h.1, hbs bound h.2⟩⟩

end

-- ---------------------------------------------------------------------------
-- Lists
-- ---------------------------------------------------------------------------

/-- The text is written as a list at level `k`, of items that equal those given. -/
def IsListAt (k : Nat) (text : String) (items : List Json) : Prop :=
  ∃ t found, IsAt k text t ∧ t.value? = some (.array found) ∧ Json.sameItems found items = true ∧
    t.BoundedBy (.array items)

theorem sameItems_append (h : Json.sameItems as bs = true) (h' : Json.sameItems as' bs' = true) :
    Json.sameItems (as ++ as') (bs ++ bs') = true := by
  induction as generalizing bs with
  | nil =>
    cases bs with
    | nil => exact h'
    | cons b bs => contradiction
  | cons a as ih =>
    cases bs with
    | nil => contradiction
    | cons b bs =>
      simp only [List.cons_append, Json.sameItems, Bool.and_eq_true] at h ⊢
      exact ⟨h.1, ih h.2⟩

theorem sameItems_replicate (h : ∀ item ∈ items, Json.same first item = true) :
    Json.sameItems (List.replicate items.length first) items = true := by
  induction items with
  | nil => rfl
  | cons item rest ih =>
    obtain ⟨hitem, hrest⟩ := List.forall_mem_cons.mp h
    simp only [List.length_cons, List.replicate_succ, Json.sameItems, Bool.and_eq_true]
    exact ⟨hitem, ih hrest⟩

/-- The level of `+`. -/
def sumLevel : Nat := 6

/-- The level of `*`. -/
def productLevel : Nat := 7

theorem level_plus : Script.Operator.plus.level? = some sumLevel := rfl
theorem level_star : Script.Operator.star.level? = some productLevel := rfl

/-- Items one by one. -/
theorem items_isListAt (h : inlineItems level items = .ok texts) (hw : Json.AllWellFormed items) :
    IsListAt Script.postfixLevel ("[" ++ String.intercalate ", " texts ++ "]") items := by
  obtain ⟨ts, hts, hvalues, hbound⟩ := inlineItems_denote items hw h
  exact ⟨_, items, (IsPrimary.list isSeparator_comma hts).isAt, by rw [value?, hvalues]; rfl,
    Json.sameItems_refl items hw, fun bound h => hbound bound h.2⟩

/-- An item that all others equal, with the number of items. -/
theorem product_isListAt (h : inline level first = .ok text) (hw : first.WellFormed)
    (hsame : ∀ item ∈ rest, first.same item = true) (hlength : (first :: rest).length < UInt64.size) :
    IsListAt productLevel ("[" ++ text ++ "] * " ++ toString (first :: rest).length) (first :: rest) := by
  obtain ⟨t, ht, hvalue, hbound⟩ := inline_denotes first hw h
  have hlist : IsPrimary ("[" ++ text ++ "]") (.list [t]) := by
    have hone := IsPrimary.list isSeparator_comma (.cons ht.term .nil)
    rwa [String.intercalate_singleton] at hone
  have hcount := IsOperand.integer hlength
  have hn : (UInt64.ofNat (first :: rest).length).toNat = (first :: rest).length := by
    rw [UInt64.toNat_ofNat']
    exact Nat.mod_eq_of_lt hlength
  refine ⟨.binary .star (.list [t]) (.int (UInt64.ofNat (first :: rest).length)),
    List.replicate (first :: rest).length first, ?_, ?_,
    sameItems_replicate (List.forall_mem_cons.mpr ⟨Json.same_refl first hw, hsame⟩), ?_⟩
  · have hproduct := hlist.isAt.binary hcount.isAt level_star (by decide) (by decide)
    have htext : "[" ++ text ++ "]" ++ (" " ++ Script.Operator.star.text ++ " ") ++
        toString (first :: rest).length = "[" ++ text ++ "] * " ++ toString (first :: rest).length := by
      simp [String.append_assoc, Script.Operator.text]
    rwa [htext] at hproduct
  · simp only [value?, values?, hvalue, hn]
    simp
  · intro bound hwithin
    refine ⟨⟨hbound bound hwithin.2.1, trivial⟩, ?_⟩
    rw [Term.Within, hn]
    exact hwithin.1

theorem Run.literal_isListAt {run : Run} (hf : run.Faithful) (hw : Json.AllWellFormed run.items)
    (hlength : run.items.length < UInt64.size) (h : Run.literal level run = .ok text) :
    ∃ k, sumLevel < k ∧ IsListAt k text run.items := by
  obtain ⟨items, uniform⟩ := run
  cases uniform with
  | true =>
    obtain ⟨first, rest, rfl, hsame⟩ := hf rfl
    obtain ⟨one, hone, h⟩ := except_bind_eq_ok.mp h
    obtain rfl := Except.ok.inj h
    exact ⟨productLevel, by decide, product_isListAt hone hw.1 hsame hlength⟩
  | false =>
    obtain ⟨texts, htexts, h⟩ := except_bind_eq_ok.mp h
    obtain rfl := Except.ok.inj h
    exact ⟨_, by decide, items_isListAt htexts hw⟩

theorem IsListAt.plus (h : IsListAt k text as) (h' : IsListAt k' text' bs) (hk : sumLevel ≤ k)
    (hk' : sumLevel < k') : IsListAt sumLevel (text ++ " + " ++ text') (as ++ bs) := by
  obtain ⟨t, found, ht, hvalue, hsame, hb⟩ := h
  obtain ⟨t', found', ht', hvalue', hsame', hb'⟩ := h'
  refine ⟨.binary .plus t t', found ++ found', ?_, by simp [value?, hvalue, hvalue'],
    sameItems_append hsame hsame', fun bound hwithin => ?_⟩
  · exact ht.binary ht' level_plus hk hk'
  · obtain ⟨hlength, hall⟩ := hwithin
    rw [List.length_append] at hlength
    rw [Json.allWithin_iff, List.forall_mem_append, ← Json.allWithin_iff, ← Json.allWithin_iff] at hall
    exact ⟨hb bound ⟨by omega, hall.1⟩, hb' bound ⟨by omega, hall.2⟩⟩

/-- The sum of lists, the first of which may be a sum itself. -/
theorem IsListAt.sum (h : List.Forall₂ (fun text items => ∃ k, sumLevel < k ∧ IsListAt k text items)
    texts lists) (hfirst : IsListAt k text items) (hk : sumLevel ≤ k) :
    ∃ k, IsListAt k (String.intercalate " + " (text :: texts)) (items ++ lists.flatten) := by
  induction h generalizing text items k with
  | nil => exact ⟨k, by simpa using hfirst⟩
  | @cons next others texts lists hnext _ ih =>
    obtain ⟨k', hk', hnext⟩ := hnext
    have hsum := ih (hfirst.plus hnext hk hk') (Nat.le_refl _)
    rw [List.flatten_cons, ← List.append_assoc]
    exact hsum

theorem runs_denote {runs : List Run} (hw : ∀ run ∈ runs, run.Faithful ∧ Json.AllWellFormed run.items ∧
    run.items.length < UInt64.size) (h : runs.mapM (Run.literal level) = .ok texts) :
    List.Forall₂ (fun text items => ∃ k, sumLevel < k ∧ IsListAt k text items) texts
      (runs.map Run.items) := by
  induction runs generalizing texts with
  | nil =>
    obtain rfl := Except.ok.inj h
    exact .nil
  | cons run runs ih =>
    rw [List.mapM_cons] at h
    obtain ⟨text, htext, h⟩ := except_bind_eq_ok.mp h
    obtain ⟨texts, htexts, h⟩ := except_bind_eq_ok.mp h
    obtain rfl := Except.ok.inj h
    obtain ⟨⟨hf, hall, hlength⟩, hrest⟩ := List.forall_mem_cons.mp hw
    exact .cons (Run.literal_isListAt hf hall hlength htext) (ih hrest htexts)

-- ---------------------------------------------------------------------------
-- Values on several lines
-- ---------------------------------------------------------------------------

/-- The text, which may go over several lines, is the term of a value that equals the one given. -/
def Denotes (text : String) (v : Json) : Prop :=
  ∃ t found, Spread (ReadsTerm · t) text ∧ t.value? = some found ∧ found.same v = true ∧ t.BoundedBy v

theorem IsListAt.denotes (h : IsListAt k text items) : Denotes text (.array items) := by
  obtain ⟨t, found, ht, hvalue, hsame, hbound⟩ := h
  exact ⟨t, .array found, ht.term.spread, hvalue, hsame, hbound⟩

theorem denotes_inline (hw : v.WellFormed) (h : inline level v = .ok text) : Denotes text v := by
  obtain ⟨t, ht, hvalue, hbound⟩ := inline_denotes v hw h
  exact ⟨t, v, ht.term.spread, hvalue, Json.same_refl v hw, hbound⟩

theorem indentation_eq (level : Nat) : indentation level = Line.indentation level := by
  induction level with
  | zero => rfl
  | succ level ih =>
    rw [Line.indentation, ← ih, indentation, indentation, List.replicate_succ, String.join_cons]

theorem isLines_join (h : List.Forall₂ IsTerm texts ts) (level : Nat) :
    IsLines ReadsTerm .rightBracket
      (String.join (texts.map fun item => indentation level ++ item ++ ",\n")) ts := by
  induction h with
  | nil => exact .nil _ _
  | @cons text t texts ts ht _ ih =>
    have hlines := IsLines.cons ht.spread ih level
    rw [← indentation_eq] at hlines
    rwa [List.map_cons, String.join_cons]

theorem objectLines_denotes (hw : Json.AllWellFormed items) (h : objectLines level items = .ok text) :
    Denotes text (.array items) := by
  obtain ⟨texts, htexts, h⟩ := except_bind_eq_ok.mp h
  obtain rfl := Except.ok.inj h
  obtain ⟨ts, hts, hvalues, hbound⟩ := inlineItems_denote items hw htexts
  rw [indentation_eq level]
  exact ⟨.list ts, .array items, .list (isLines_join hts (level + 1)) level,
    by rw [value?, hvalues]; rfl, Json.sameItems_refl items hw, fun bound h => hbound bound h.2⟩

theorem sum_denotes {items : List Json} (hw : Json.AllWellFormed items)
    (hlength : items.length < UInt64.size) (hne : items ≠ [])
    (h : (Run.ofList items).mapM (Run.literal level) = .ok texts) :
    Denotes (String.intercalate " + " texts) (.array items) := by
  have hitems := Run.ofList_items items
  have hruns := runs_denote (fun run hrun => ?_) h
  · obtain ⟨run, runs, hcons⟩ := List.exists_cons_of_ne_nil (Run.ofList_ne_nil hne)
    rw [hcons] at hruns hitems
    cases hruns with
    | cons hfirst hrest =>
      obtain ⟨k, hk, hfirst⟩ := hfirst
      obtain ⟨k', hsum⟩ := IsListAt.sum hrest hfirst (Nat.le_of_lt hk)
      rw [List.flatMap_cons] at hitems
      rw [← List.flatMap_def, hitems] at hsum
      exact hsum.denotes
  · have hsublist : run.items.Sublist items := by
      rw [← hitems]
      exact List.sublist_flatten_of_mem (List.mem_map.mpr ⟨run, hrun, rfl⟩)
    refine ⟨Run.ofList_faithful items run hrun, Json.allWellFormed_iff.mpr fun item hitem => ?_, ?_⟩
    · exact Json.allWellFormed_iff.mp hw item (hsublist.subset hitem)
    · exact Nat.lt_of_le_of_lt hsublist.length_le hlength

theorem listLiteral_denotes (hw : (Json.array items).WellFormed)
    (h : listLiteral level items = .ok text) : Denotes text (.array items) := by
  obtain ⟨hlength, hall⟩ := hw
  cases items with
  | nil => exact denotes_inline ⟨hlength, hall⟩ h
  | cons first rest =>
    cases rest with
    | nil => exact denotes_inline ⟨hlength, hall⟩ h
    | cons second rest =>
      rw [listLiteral] at h
      split at h
      · exact objectLines_denotes hall h
      · split at h
        · next hsame =>
          have hfirst : ∀ item ∈ second :: rest, first.same item = true := by
            intro item hitem
            have hitemWell := Json.allWellFormed_iff.mp hall.2 item hitem
            exact Json.same_symm item hitemWell first hall.1 (List.all_eq_true.mp hsame item hitem)
          have hfaithful : Run.Faithful ⟨first :: second :: rest, true⟩ :=
            fun _ => ⟨first, second :: rest, rfl, hfirst⟩
          obtain ⟨k, -, hlist⟩ := Run.literal_isListAt hfaithful hall hlength h
          exact hlist.denotes
        · obtain ⟨texts, htexts, h⟩ := except_bind_eq_ok.mp h
          obtain rfl := Except.ok.inj h
          exact sum_denotes hall hlength (by simp) htexts

/-- Members of equal values under the same names, in the same order. -/
def EqualMembers (found members : List (String × Json)) : Prop :=
  List.Forall₂ (fun a b => a.1 = b.1 ∧ a.2.same b.2 = true) found members

theorem EqualMembers.names (h : EqualMembers found members) :
    found.map Prod.fst = members.map Prod.fst := by
  induction h with
  | nil => rfl
  | cons hab _ ih => rw [List.map_cons, List.map_cons, hab.1, ih]

theorem EqualMembers.same (h : EqualMembers found members) (hn : (members.map Prod.fst).Nodup) :
    (Json.object found).same (.object members) = true := by
  rw [Json.same, Bool.and_eq_true, beq_iff_eq]
  refine ⟨h.length_eq, Json.sameMembers_iff.mpr fun key value hm => ?_⟩
  obtain ⟨⟨_, other⟩, hother, rfl, hsame⟩ : ∃ b ∈ members, key = b.1 ∧ value.same b.2 = true := by
    clear hn
    induction h with
    | nil => contradiction
    | @cons a b found members hab _ ih =>
      obtain rfl | hm := List.mem_cons.mp hm
      · exact ⟨b, List.mem_cons_self, hab⟩
      · obtain ⟨b, hb, hk⟩ := ih hm
        exact ⟨b, List.mem_cons_of_mem _ hb, hk⟩
  exact ⟨other, Json.lookup_of_mem hn hother, hsame⟩

/-- The lines are the entries of a dictionary of members that equal those given. -/
def DenoteMembers (lines : String) (members : List (String × Json)) : Prop :=
  ∃ es found, IsLines ReadsEntry .rightBrace lines es ∧
    (∀ before, ((before ++ found).map Prod.fst).Nodup → members? before es = some (before ++ found)) ∧
    EqualMembers found members ∧ ∀ bound, Json.MembersWithin bound members → Term.EntriesWithin bound es

namespace DenoteMembers

theorem dict (h : DenoteMembers lines members) (hn : (members.map Prod.fst).Nodup) :
    ∃ es found, IsLines ReadsEntry .rightBrace lines es ∧
      (Term.dict es).value? = some (.object found) ∧ (Json.object found).same (.object members) = true ∧
      (Term.dict es).BoundedBy (.object members) := by
  obtain ⟨es, found, hes, hvalues, hequal, hbound⟩ := h
  have hnames : ((([] : List (String × Json)) ++ found).map Prod.fst).Nodup := by
    rwa [List.nil_append, hequal.names]
  exact ⟨es, found, hes, by rw [value?, hvalues [] hnames]; rfl, hequal.same hn, hbound⟩

theorem denotes (h : DenoteMembers lines members) (hn : (members.map Prod.fst).Nodup) (level : Nat) :
    Denotes ("\x7b\n" ++ lines ++ Line.indentation level ++ "\x7d") (.object members) := by
  obtain ⟨es, found, hes, hvalue, hsame, hbound⟩ := h.dict hn
  exact ⟨.dict es, .object found, .dict hes level, hvalue, hsame, hbound⟩

end DenoteMembers

theorem denotes_emptyObject : Denotes "\x7b\x7d" (.object []) :=
  ⟨.dict [], .object [], (IsPrimary.dict isSeparator_comma .nil).term.spread, rfl, rfl, fun _ _ => trivial⟩

mutual

/-- The value of a key is parsed as a term that denotes an equal value. -/
theorem member_denotes : (v : Json) → v.WellFormed → member level v = .ok text →
    ∃ body, text = body ++ ",\n" ∧ Denotes body v
  | .object members, hw, h => by
    rw [member] at h
    obtain ⟨_, -, h⟩ := except_bind_eq_ok.mp h
    split at h
    · next hempty =>
      obtain rfl := Except.ok.inj h
      obtain rfl := List.isEmpty_iff.mp hempty
      exact ⟨"\x7b\x7d", rfl, denotes_emptyObject⟩
    · obtain ⟨lines, hlines, h⟩ := except_bind_eq_ok.mp h
      obtain rfl := Except.ok.inj h
      refine ⟨"\x7b\n" ++ lines ++ indentation level ++ "\x7d", by simp [String.append_assoc], ?_⟩
      rw [indentation_eq]
      exact (memberLines_denote members hw.2 hlines).denotes hw.1 level
  | .string s, _, h => by
    rw [member] at h
    obtain rfl := Except.ok.inj h
    exact ⟨_, rfl, .string s, .string s, (IsPrimary.quote s).term.spread, rfl, by simp [Json.same],
      fun _ _ => trivial⟩
  | .array items, hw, h => by
    rw [member] at h
    obtain ⟨list, hlist, h⟩ := except_bind_eq_ok.mp h
    obtain rfl := Except.ok.inj h
    exact ⟨list, rfl, listLiteral_denotes hw hlist⟩
  | .null, hw, h | .bool _, hw, h | .integer _, hw, h | .real _, hw, h => by
    rw [member] at h
    · obtain ⟨value, hvalue, h⟩ := except_bind_eq_ok.mp h
      obtain rfl := Except.ok.inj h
      exact ⟨value, rfl, denotes_inline hw hvalue⟩
    all_goals simp

theorem memberLines_denote : (members : List (String × Json)) → Json.MembersWellFormed members →
    memberLines level members = .ok lines → DenoteMembers lines members
  | [], _, h => by
    rw [memberLines] at h
    obtain rfl := Except.ok.inj h
    exact ⟨[], [], .nil _ _, fun before _ => by rw [members?, List.append_nil], .nil, fun _ _ => trivial⟩
  | (key, value) :: rest, hw, h => by
    rw [memberLines] at h
    obtain ⟨text, htext, h⟩ := except_bind_eq_ok.mp h
    obtain ⟨others, hothers, h⟩ := except_bind_eq_ok.mp h
    obtain rfl := Except.ok.inj h
    obtain ⟨body, rfl, t, first, ht, hvalue, hsame, hb⟩ := member_denotes value hw.1 htext
    obtain ⟨es, found, hes, hmembers, hequal, hbs⟩ := memberLines_denote rest hw.2 hothers
    refine ⟨(.string key, t) :: es, (key, first) :: found, ?_, ?_, .cons ⟨rfl, hsame⟩ hequal,
      fun bound h => ⟨trivial, hb bound h.1, hbs bound h.2⟩⟩
    · have hlines := IsLines.cons (Spread.entry (.quote key) ht) hes level
      rw [indentation_eq]
      simpa only [String.append_assoc] using hlines
    · exact members_cons hvalue hmembers

end

/-- The text of a configuration goes on to be a term of it wherever it is written. -/
theorem literal_spread (v : Json) (hw : v.WellFormed) (h : literal v = .ok text) : Denotes text v := by
  cases v with
  | object members =>
    rw [literal] at h
    split at h
    · next hempty =>
      obtain rfl := Except.ok.inj h
      obtain rfl := List.isEmpty_iff.mp hempty
      exact denotes_emptyObject
    · obtain ⟨lines, hlines, h⟩ := except_bind_eq_ok.mp h
      obtain rfl := Except.ok.inj h
      have hlines := (memberLines_denote members hw.2 hlines).denotes hw.1 0
      rwa [Line.indentation, String.append_empty] at hlines
  | _ => exact denotes_inline hw h

/-- The text of a configuration is one term, and the value of the term is equal to the configuration. -/
theorem literal_denotes (v : Json) (hw : v.WellFormed) (text : String) (h : literal v = .ok text) :
    ∃ t found, Script.parse text = .ok [.term 1 t] ∧ t.value? = some found ∧ found.same v = true := by
  have hinline (level : Nat) (hinline : inline level v = .ok text) :
      ∃ t found, Script.parse text = .ok [.term 1 t] ∧ t.value? = some found ∧ found.same v = true := by
    obtain ⟨t, ht, hvalue, -⟩ := inline_denotes v hw hinline
    exact ⟨t, v, ht.term.parse, hvalue, Json.same_refl v hw⟩
  cases v with
  | object members =>
    rw [literal] at h
    split at h
    · next hempty =>
      obtain rfl := Except.ok.inj h
      obtain rfl := List.isEmpty_iff.mp hempty
      exact ⟨.dict [], .object [], (IsPrimary.dict isSeparator_comma .nil).term.parse, rfl, rfl⟩
    · obtain ⟨lines, hlines, h⟩ := except_bind_eq_ok.mp h
      obtain rfl := Except.ok.inj h
      obtain ⟨es, found, hes, hvalue, hsame, -⟩ := (memberLines_denote members hw.2 hlines).dict hw.1
      exact ⟨.dict es, .object found, hes.parse, hvalue, hsame⟩
  | _ => exact hinline 1 h

/-- Samples that are zero and then one, the second zero being below zero. -/
theorem literal_denotes_samples :
    ∃ t found, Script.parse "\x7b\n    \"samples\": [0.0] * 2 + [1.0],\n\x7d" = .ok [.term 1 t] ∧
      t.value? = some found ∧
      found.same (.object [("samples", .array [.real ⟨0⟩, .real ⟨0x8000000000000000⟩,
        .real ⟨0x3ff0000000000000⟩])]) = true :=
  literal_denotes _ (by simp [Json.WellFormed, Json.MembersWellFormed, Json.AllWellFormed]; decide) _ (by rfl)

end Configuration
end Qua
