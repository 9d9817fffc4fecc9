import Qua.Proofs.Replay.Results

/-!
# Where streams are declared

The listing of a program is a row of lines, each of them a declaration of a stream, an action, a save
or a line without streams. A stream without a shorthand has one declaration, above all lines that
mention it; other streams have none. Main statement: `Program.streams_declared`.
-/

namespace Qua

open Statement (walkBlock walkBranches walkOtherwise blockStreamNames)

-- ---------------------------------------------------------------------------
-- Rows
-- ---------------------------------------------------------------------------

/-- A line of a listing that is no declaration of a stream. -/
inductive Item
  | action (action : Action)
  /-- A save that is written by name. -/
  | save (entry : SaveEntry)
  /-- The line above the saves. -/
  | saves (entries : List SaveEntry)
  /-- A line that is about no stream. -/
  | plain (text : Except RenderError String)

namespace Item

/-- The streams on the line. -/
def mentions : Item → List String
  | .action a => a.streamNames
  | .save entry => entry.pipeline.sourceNames
  | .saves _ => []
  | .plain _ => []

/-- The streams that have to be declared above the line. -/
def needs : Item → List String
  | .saves entries => entries.flatMap fun entry => entry.pipeline.sourceNames
  | item => item.mentions

/-- The text of the line; a stream with a shorthand is written as the quoted tag. -/
def text (shorthand? : String → Option String) : Item → Except RenderError String
  | .action a =>
    (a.mapStreams fun name =>
      match shorthand? name with
      | some tag => Text.quote tag
      | none => name).render
  | .save entry => entry.render
  | .saves _ => .ok "with stream_processing():"
  | .plain written => written

end Item

inductive Row
  | declaration (depth : Nat) (name : String)
  | other (depth : Nat) (item : Item)

namespace Row

def declared? : Row → Option String
  | .declaration _ name => some name
  | .other .. => none

def mentions : Row → List String
  | .declaration .. => []
  | .other _ item => item.mentions

/-- The declaration of a trace says so. -/
def text (shorthand? : String → Option String) : Row → Except RenderError String
  | .declaration _ name =>
    .ok (name ++ " = " ++
      if Text.startsWith "atr_" name then "declare_stream(adc_trace=True)" else "declare_stream()")
  | .other _ item => item.text shorthand?

def depth : Row → Nat
  | .declaration depth _ => depth
  | .other depth _ => depth

/-- The line is what the row is written as. -/
def Writes (shorthand? : String → Option String) (row : Row) (line : Line) : Prop :=
  line.depth = row.depth ∧ row.text shorthand? = .ok line.text

end Row

/-- The streams that are declared, from the first declaration to the last. -/
def declaredIn (rows : List Row) : List String := rows.filterMap Row.declared?

abbrev Items := List (Nat × Item)

namespace Items

/-- A block without lines has a line nevertheless. -/
def orPass (depth : Nat) (items : Items) : Items :=
  if items.isEmpty then [(depth, .plain (.ok "pass"))] else items

/-- A line with the block under it. -/
def under (depth : Nat) (header : Except RenderError String) (items : Items) : Items :=
  (depth, .plain header) :: orPass (depth + 1) items

/-- The lines with the declarations that are needed above them, where `declared` have been. -/
def rows (shorthand? : String → Option String) (declared : List String) : Items → List Row
  | [] => []
  | (depth, item) :: rest =>
    let names := undeclared shorthand? declared item.needs
    names.map (.declaration depth) ++ .other depth item :: rows shorthand? (names.reverse ++ declared) rest

end Items

namespace Statement

mutual

/-- The lines of a statement, without declarations of streams. -/
def items (depth : Nat) : Statement → Items
  | .action a _ => [(depth, .action a)]
  | .conditional condition isUnsafe body elifs otherwise _ =>
    Items.under depth (ifHeader condition isUnsafe) (blockItems (depth + 1) body)
      ++ branchItems depth elifs ++ otherwiseItems depth otherwise
  | .loop init condition update body _ =>
    let shape := loopShape init condition update
    if shape.isGeneral then
      (depth, .plain shape.header)
        :: (Items.under (depth + 1) (.ok "with for_init_():") (blockItems (depth + 2) init)
          ++ condition.toList.map (fun condition =>
            (depth + 1, .plain ((fun text => "for_cond(" ++ text ++ ")") <$> condition.render)))
          ++ Items.under (depth + 1) (.ok "with for_update_():") (blockItems (depth + 2) update)
          ++ Items.under (depth + 1) (.ok "with for_body_():") (blockItems (depth + 2) body))
    else Items.under depth shape.header (blockItems (depth + 1) body)
  | .forEach iterators body _ =>
    Items.under depth (.ok (forEachHeader iterators)) (blockItems (depth + 1) body)
  | .strictTiming body _ => Items.under depth (.ok "with strict_timing_():") (blockItems (depth + 1) body)

def blockItems (depth : Nat) : List Statement → Items
  | [] => []
  | s :: rest => s.items depth ++ blockItems depth rest

def branchItems (depth : Nat) : List (Branch Statement) → Items
  | [] => []
  | ⟨condition, body, _⟩ :: rest =>
    Items.under depth (elifHeader condition) (blockItems (depth + 1) body) ++ branchItems depth rest

def otherwiseItems (depth : Nat) : Option (List Statement) → Items
  | none => []
  | some body => Items.under depth (.ok "with else_():") (blockItems (depth + 1) body)

end

end Statement

namespace Program

/-- The lines of the saves that are written by name, and the line above them. -/
def saveItems (p : Program) : Items :=
  if p.results.manual.isEmpty then []
  else (1, .saves p.results.manual) :: p.results.manual.map fun entry => (2, .save entry)

/-- The lines of a program, without declarations of streams. -/
def items (p : Program) : Items :=
  (0, .plain (.ok "from qm.qua import *")) :: (0, .plain (.ok ""))
    :: Items.under 0 (.ok "with program() as prog:")
      (p.declarations.map (fun d => (1, .plain d.render)) ++ Statement.blockItems 1 p.body ++ p.saveItems)

/-- The lines of a program. -/
def rows (p : Program) : List Row := p.items.rows p.shorthand? []

end Program

variable {shorthand? : String → Option String} {depth : Nat} {declared declared' : List String}
  {name : String}

-- ---------------------------------------------------------------------------
-- Declarations among rows
-- ---------------------------------------------------------------------------

namespace Items

variable {items items' : Items}

theorem declaredIn_append (rows rows' : List Row) :
    declaredIn (rows ++ rows') = declaredIn rows ++ declaredIn rows' := List.filterMap_append

theorem declaredIn_declarations (depth : Nat) (names : List String) :
    declaredIn (names.map (.declaration depth)) = names := by
  simp [declaredIn, Function.comp_def, Row.declared?]

/-- The first line has the declarations of the streams it needs. -/
theorem declaredIn_rows_cons (depth : Nat) (item : Item) (items : Items) :
    declaredIn (rows shorthand? declared ((depth, item) :: items)) =
      undeclared shorthand? declared item.needs ++
        declaredIn (rows shorthand? ((undeclared shorthand? declared item.needs).reverse ++ declared) items) := by
  rw [rows, declaredIn_append, declaredIn_declarations]
  rfl

theorem rows_append (items items' : Items) :
    rows shorthand? declared (items ++ items') = rows shorthand? declared items ++
      rows shorthand? ((declaredIn (rows shorthand? declared items)).reverse ++ declared) items' := by
  induction items generalizing declared with
  | nil => rfl
  | cons entry items ih =>
    obtain ⟨depth, item⟩ := entry
    rw [declaredIn_rows_cons, List.cons_append, rows, ih, rows, List.append_assoc, List.cons_append,
      List.reverse_append, List.append_assoc]

theorem mem_declaredIn_rows :
    name ∈ declaredIn (rows shorthand? declared items) ↔
      shorthand? name = none ∧ name ∉ declared ∧ ∃ entry ∈ items, name ∈ entry.2.needs := by
  induction items generalizing declared with
  | nil => simp [rows, declaredIn]
  | cons entry items ih =>
    obtain ⟨depth, item⟩ := entry
    rw [declaredIn_rows_cons, List.mem_append, ih, mem_undeclared, List.mem_append, List.mem_reverse,
      mem_undeclared, List.exists_mem_cons_iff]
    tauto

theorem nodup_declaredIn_rows : (declaredIn (rows shorthand? declared items)).Nodup := by
  induction items generalizing declared with
  | nil => exact List.nodup_nil
  | cons entry items ih =>
    obtain ⟨depth, item⟩ := entry
    rw [declaredIn_rows_cons, List.nodup_append]
    refine ⟨nodup_undeclared _ _, ih, fun name hfirst other hrest he => ?_⟩
    have hnew := (mem_declaredIn_rows.mp hrest).2.1
    exact hnew (List.mem_append_left _ (List.mem_reverse.mpr (he ▸ hfirst)))

/-- A list taken apart at a place that is not among its first items. -/
theorem append_cons_eq_append_cons {α : Type} {first rest before after : List α} {a b : α}
    (h : first ++ a :: rest = before ++ b :: after) (hb : b ∉ first) :
    (before = first ∧ b = a) ∨ ∃ middle, before = first ++ a :: middle ∧ rest = middle ++ b :: after := by
  induction first generalizing before with
  | nil =>
    cases before with
    | nil => exact .inl ⟨rfl, (List.cons.inj h).1.symm⟩
    | cons c before =>
      obtain ⟨rfl, hrest⟩ := List.cons.inj h
      exact .inr ⟨before, rfl, hrest⟩
  | cons c first ih =>
    cases before with
    | nil => exact absurd (List.cons.inj h).1 (fun hc => hb (hc ▸ List.mem_cons_self))
    | cons d before =>
      obtain ⟨rfl, hrest⟩ := List.cons.inj h
      obtain ⟨rfl, rfl⟩ | ⟨middle, rfl, hmiddle⟩ := ih hrest fun hm => hb (List.mem_cons_of_mem _ hm)
      · exact .inl ⟨rfl, rfl⟩
      · exact .inr ⟨middle, rfl, hmiddle⟩

/-- What a line needs is declared above it. -/
theorem declared_above {before after : List Row} {item : Item}
    (h : rows shorthand? declared items = before ++ .other depth item :: after) (hn : name ∈ item.needs)
    (hs : shorthand? name = none) : name ∈ declared ∨ name ∈ declaredIn before := by
  induction items generalizing declared before with
  | nil => simp [rows] at h
  | cons entry items ih =>
    obtain ⟨depth', first⟩ := entry
    rw [rows] at h
    obtain ⟨rfl, hitem⟩ | ⟨middle, rfl, hrest⟩ := append_cons_eq_append_cons h (by simp)
    · obtain ⟨-, rfl⟩ := Row.other.inj hitem
      rw [declaredIn_declarations, mem_undeclared]
      by_cases hd : name ∈ declared
      · exact .inl hd
      · exact .inr ⟨hn, hs, hd⟩
    · rw [declaredIn_append, declaredIn_declarations, List.mem_append]
      obtain hd | hd := ih hrest
      · rw [List.mem_append, List.mem_reverse] at hd
        exact hd.elim (fun hd => .inr (.inl hd)) .inl
      · exact .inr (.inr hd)

end Items

-- ---------------------------------------------------------------------------
-- Lines of items
-- ---------------------------------------------------------------------------

/-- The lines are those of the items, where `declared` have been declared and then `declared'`. -/
structure Lists (shorthand? : String → Option String) (declared : List String) (items : Items)
    (lines : List Line) (declared' : List String) : Prop where
  writes : List.Forall₂ (Row.Writes shorthand?) (items.rows shorthand? declared) lines
  declares : declared' = (declaredIn (items.rows shorthand? declared)).reverse ++ declared

namespace Lists

variable {items items' : Items} {lines lines' : List Line} {declared'' : List String}

theorem nil (declared : List String) : Lists shorthand? declared [] [] declared := ⟨.nil, rfl⟩

theorem append (h : Lists shorthand? declared items lines declared')
    (h' : Lists shorthand? declared' items' lines' declared'') :
    Lists shorthand? declared (items ++ items') (lines ++ lines') declared'' := by
  obtain ⟨hw, rfl⟩ := h
  obtain ⟨hw', rfl⟩ := h'
  refine ⟨?_, ?_⟩
  · rw [Items.rows_append]
    exact List.rel_append hw hw'
  · rw [Items.rows_append, Items.declaredIn_append, List.reverse_append, List.append_assoc]

/-- A line below the declarations that it needs. -/
theorem item (item : Item) {text : String} (ht : item.text shorthand? = .ok text) (depth : Nat)
    (declared : List String) :
    Lists shorthand? declared [(depth, item)]
      ((undeclared shorthand? declared item.needs).map
        (fun name => ⟨depth, Listing.streamDeclaration name⟩) ++ [⟨depth, text⟩])
      ((undeclared shorthand? declared item.needs).reverse ++ declared) := by
  refine ⟨?_, ?_⟩
  · rw [Items.rows]
    refine List.rel_append ?_ (.cons ⟨rfl, ht⟩ .nil)
    rw [List.forall₂_map_left_iff, List.forall₂_map_right_iff]
    exact List.forall₂_same.mpr fun name _ => ⟨rfl, rfl⟩
  · rw [Items.declaredIn_rows_cons]
    simp [Items.rows, declaredIn]

/-- Lines that need no stream that has not been declared. -/
theorem each {α : Type} {as : List α} {texts : List String} {render : α → Except RenderError String}
    {item : α → Item} (h : as.mapM render = .ok texts) (ht : ∀ a, (item a).text shorthand? = render a)
    (hn : ∀ a ∈ as, undeclared shorthand? declared (item a).needs = []) (depth : Nat) :
    Lists shorthand? declared (as.map fun a => (depth, item a)) (texts.map fun text => ⟨depth, text⟩)
      declared := by
  induction as generalizing texts with
  | nil =>
    obtain rfl := Except.ok.inj h
    exact .nil declared
  | cons a as ih =>
    rw [List.mapM_cons] at h
    obtain ⟨text, htext, h⟩ := except_bind_eq_ok.mp h
    obtain ⟨texts, htexts, h⟩ := except_bind_eq_ok.mp h
    obtain rfl := Except.ok.inj h
    obtain ⟨hfirst, hrest⟩ := List.forall_mem_cons.mp hn
    have hline := Lists.item (item a) ((ht a).trans htext) depth declared
    rw [hfirst] at hline
    exact hline.append (ih htexts hrest)

theorem plain {written : Except RenderError String} {text : String} (ht : written = .ok text)
    (depth : Nat) (declared : List String) :
    Lists shorthand? declared [(depth, .plain written)] [⟨depth, text⟩] declared :=
  item (.plain written) ht depth declared

theorem orPass (h : Lists shorthand? declared items lines declared') :
    Lists shorthand? declared (items.orPass depth) (Listing.orPass depth lines) declared' := by
  cases items with
  | nil =>
    obtain ⟨hw, rfl⟩ := h
    cases hw
    exact plain rfl depth _
  | cons entry items =>
    have hne : lines ≠ [] := by
      rintro rfl
      have hw := h.writes
      rw [List.forall₂_nil_right_iff] at hw
      simp [Items.rows] at hw
    rw [Listing.orPass, if_neg (by simpa using hne)]
    exact h

theorem under {header : String} {written : Except RenderError String} (ht : written = .ok header)
    (h : Lists shorthand? declared items lines declared') :
    Lists shorthand? declared (items.under depth written)
      (⟨depth, header⟩ :: Listing.orPass (depth + 1) lines) declared' :=
  (plain ht depth declared).append h.orPass

theorem action {a : Action}
    (h : Listing.action shorthand? depth a declared = .ok (lines, declared')) :
    Lists shorthand? declared [(depth, .action a)] lines declared' := by
  rw [Listing.action, bind_run, Listing.declareStreams_run] at h
  obtain ⟨text, _, ht, h⟩ := bind_eq_ok.mp h
  obtain ⟨rfl, rfl⟩ := pure_eq_ok.mp h
  obtain ⟨htext, rfl⟩ := lift_eq_ok.mp ht
  exact item (.action a) htext depth declared

end Lists

open Statement (items blockItems branchItems otherwiseItems)

/-- The line of the condition of a loop. -/
theorem Lists.condition {condition : Option Expression} {lines : List Line}
    (h : conditionLines depth condition = .ok lines) (declared : List String) :
    Lists shorthand? declared (condition.toList.map fun condition =>
      (depth, .plain ((fun text => "for_cond(" ++ text ++ ")") <$> condition.render))) lines declared := by
  cases condition with
  | none =>
    obtain rfl := Except.ok.inj h
    exact .nil declared
  | some condition =>
    obtain ⟨text, ht, hpure⟩ := except_bind_eq_ok.mp h
    obtain rfl := Except.ok.inj hpure
    exact .plain (by rw [ht]; rfl) depth declared

mutual

theorem statement_lists : (s : Statement) → ∀ {depth : Nat} {declared declared' : List String}
    {lines : List Line}, Listing.statement shorthand? depth s declared = .ok (lines, declared') →
    Lists shorthand? declared (s.items depth) lines declared'
  | .action a _, _, _, _, _, h => by
    rw [Listing.statement] at h
    exact .action h
  | .conditional condition isUnsafe body elifs otherwise _, depth, declared, declared', lines, h => by
    rw [Listing.statement] at h
    obtain ⟨header, _, hh, hl⟩ := bind_eq_ok.mp h
    obtain ⟨hheader, rfl⟩ := lift_eq_ok.mp hh
    obtain ⟨inner, names, hbody, hl⟩ := bind_eq_ok.mp hl
    obtain ⟨others, names', helifs, hl⟩ := bind_eq_ok.mp hl
    obtain ⟨last, _, hotherwise, hl⟩ := bind_eq_ok.mp hl
    obtain ⟨rfl, rfl⟩ := pure_eq_ok.mp hl
    exact (((block_lists body hbody).under hheader).append (branches_list elifs helifs)).append
      (otherwise_lists otherwise hotherwise)
  | .loop init condition update body _, depth, declared, declared', lines, h => by
    rw [Listing.statement] at h
    obtain ⟨header, _, hh, hl⟩ := bind_eq_ok.mp h
    obtain ⟨hheader, rfl⟩ := lift_eq_ok.mp hh
    simp only [items]
    split at hl
    next hgeneral =>
      rw [if_pos hgeneral]
      obtain ⟨first, _, hinit, hl⟩ := bind_eq_ok.mp hl
      obtain ⟨between, _, hc, hrest⟩ := bind_eq_ok.mp (conditionLines_run hl)
      obtain ⟨hcondition, rfl⟩ := lift_eq_ok.mp hc
      obtain ⟨next, _, hupdate, hlast⟩ := bind_eq_ok.mp hrest
      obtain ⟨inner, _, hbody, hlast⟩ := bind_eq_ok.mp hlast
      obtain ⟨rfl, rfl⟩ := pure_eq_ok.mp hlast
      have hfirst : Lists shorthand? _ (Items.under (depth + 1) (.ok "with for_init_():") _) _ _ :=
        (block_lists init hinit).under rfl
      have hnext : Lists shorthand? _ (Items.under (depth + 1) (.ok "with for_update_():") _) _ _ :=
        (block_lists update hupdate).under rfl
      have hinner : Lists shorthand? _ (Items.under (depth + 1) (.ok "with for_body_():") _) _ _ :=
        (block_lists body hbody).under rfl
      exact (Lists.plain hheader depth _).append
        (((hfirst.append (Lists.condition hcondition _)).append hnext).append hinner)
    next hgeneral =>
      rw [if_neg hgeneral]
      obtain ⟨inner, _, hbody, hl⟩ := bind_eq_ok.mp hl
      obtain ⟨rfl, rfl⟩ := pure_eq_ok.mp hl
      exact (block_lists body hbody).under hheader
  | .forEach iterators body _, depth, declared, declared', lines, h => by
    rw [Listing.statement] at h
    obtain ⟨inner, _, hbody, h⟩ := bind_eq_ok.mp h
    obtain ⟨rfl, rfl⟩ := pure_eq_ok.mp h
    exact (block_lists body hbody).under rfl
  | .strictTiming body _, depth, declared, declared', lines, h => by
    rw [Listing.statement] at h
    obtain ⟨inner, _, hbody, h⟩ := bind_eq_ok.mp h
    obtain ⟨rfl, rfl⟩ := pure_eq_ok.mp h
    exact (block_lists body hbody).under rfl

theorem block_lists : (body : List Statement) → ∀ {depth : Nat} {declared declared' : List String}
    {lines : List Line}, Listing.block shorthand? depth body declared = .ok (lines, declared') →
    Lists shorthand? declared (blockItems depth body) lines declared'
  | [], _, declared, _, _, h => by
    rw [Listing.block] at h
    obtain ⟨rfl, rfl⟩ := pure_eq_ok.mp h
    exact .nil _
  | s :: rest, _, _, _, _, h => by
    rw [Listing.block] at h
    obtain ⟨first, _, hfirst, h⟩ := bind_eq_ok.mp h
    obtain ⟨others, _, hrest, h⟩ := bind_eq_ok.mp h
    obtain ⟨rfl, rfl⟩ := pure_eq_ok.mp h
    exact (statement_lists s hfirst).append (block_lists rest hrest)

theorem branches_list : (elifs : List (Branch Statement)) → ∀ {depth : Nat}
    {declared declared' : List String} {lines : List Line},
    Listing.branches shorthand? depth elifs declared = .ok (lines, declared') →
    Lists shorthand? declared (branchItems depth elifs) lines declared'
  | [], _, _, _, _, h => by
    rw [Listing.branches] at h
    obtain ⟨rfl, rfl⟩ := pure_eq_ok.mp h
    exact .nil _
  | ⟨condition, body, _⟩ :: rest, _, _, _, _, h => by
    rw [Listing.branches] at h
    obtain ⟨header, _, hh, hl⟩ := bind_eq_ok.mp h
    obtain ⟨hheader, rfl⟩ := lift_eq_ok.mp hh
    obtain ⟨inner, _, hbody, hl⟩ := bind_eq_ok.mp hl
    obtain ⟨others, _, hrest, hl⟩ := bind_eq_ok.mp hl
    obtain ⟨rfl, rfl⟩ := pure_eq_ok.mp hl
    exact ((block_lists body hbody).under hheader).append (branches_list rest hrest)

theorem otherwise_lists : (otherwise : Option (List Statement)) → ∀ {depth : Nat}
    {declared declared' : List String} {lines : List Line},
    Listing.alternative shorthand? depth otherwise declared = .ok (lines, declared') →
    Lists shorthand? declared (otherwiseItems depth otherwise) lines declared'
  | none, _, _, _, _, h => by
    rw [Listing.alternative] at h
    obtain ⟨rfl, rfl⟩ := pure_eq_ok.mp h
    exact .nil _
  | some body, _, _, _, _, h => by
    rw [Listing.alternative] at h
    obtain ⟨inner, _, hbody, h⟩ := bind_eq_ok.mp h
    obtain ⟨rfl, rfl⟩ := pure_eq_ok.mp h
    exact (block_lists body hbody).under rfl

end

-- ---------------------------------------------------------------------------
-- Whole programs
-- ---------------------------------------------------------------------------

variable {p : Program}

theorem saves_list {names names' : List String} {lines : List Line}
    (h : Listing.results p.shorthand? 1 p.results.entries names = .ok (lines, names')) :
    ∃ declared, Lists p.shorthand? names p.saveItems lines declared := by
  rw [Program.saveItems]
  obtain ⟨hnone, rfl⟩ | ⟨texts, htexts, hne, rfl⟩ := Listing.results_eq_ok h
  · rw [hnone]
    exact ⟨names, .nil names⟩
  · have hsome : p.results.manual.isEmpty = false := by
      rw [List.isEmpty_eq_false_iff]
      intro hnone
      rw [hnone] at htexts
      exact hne (Except.ok.inj htexts).symm
    rw [hsome, if_neg Bool.false_ne_true]
    -- All sources are declared above the first save.
    have hdeclared : ∀ entry ∈ p.results.manual, undeclared p.shorthand?
        ((undeclared p.shorthand? names (Item.saves p.results.manual).needs).reverse ++ names)
        (Item.save entry).needs = [] := by
      refine fun entry hentry => List.eq_nil_iff_forall_not_mem.mpr fun name hname => ?_
      obtain ⟨hsource, hs, hnew⟩ := mem_undeclared.mp hname
      rw [List.mem_append, List.mem_reverse, not_or, mem_undeclared] at hnew
      exact hnew.1 ⟨List.mem_flatMap.mpr ⟨entry, hentry, hsource⟩, hs, hnew.2⟩
    have hhead : Lists p.shorthand? names _ _ _ := .item (.saves p.results.manual) rfl 1 names
    have hall := hhead.append (.each htexts (fun _ => rfl) hdeclared 2)
    rw [List.append_assoc] at hall
    exact ⟨_, hall⟩

/-- The lines of a program are its rows, one by one. -/
theorem Program.text_rows {text : String} (h : p.text = .ok text) :
    ∃ lines, text = Line.renderAll lines ∧ List.Forall₂ (Row.Writes p.shorthand?) p.rows lines := by
  obtain ⟨declarations, body, names, results, names', hd, hb, hr, rfl⟩ := text_eq_ok h
  obtain ⟨_, hsaves⟩ := saves_list hr
  have hdeclarations : Lists p.shorthand? [] (p.declarations.map fun d => (1, .plain d.render)) _ [] :=
    .each hd (fun _ => rfl) (fun _ _ => rfl) 1
  have hinner := (hdeclarations.append (block_lists p.body hb)).append hsaves
  have hblock : Lists p.shorthand? [] (Items.under 0 (.ok "with program() as prog:") _) _ _ := hinner.under rfl
  have himport : Lists p.shorthand? [] [(0, .plain (.ok "from qm.qua import *"))] _ [] := .plain rfl 0 []
  have hblank : Lists p.shorthand? [] [(0, .plain (.ok ""))] _ [] := .plain rfl 0 []
  exact ⟨_, rfl, (himport.append (hblank.append hblock)).writes⟩

-- ---------------------------------------------------------------------------
-- What stands on the lines
-- ---------------------------------------------------------------------------

/-- What is found on the lines, from the first line to the last. -/
def Items.collect {β : Type} (f : Item → List β) (items : Items) : List β :=
  items.flatMap fun entry => f entry.2

/-- Something that is found on the lines of actions, but neither of assignments nor on other lines. -/
structure OnActions {β : Type} (f : Item → List β) : Prop where
  plain : ∀ text, f (.plain text) = []
  assign : ∀ target value, f (.action (.assign target value)) = []

section

variable {β : Type} {f : Item → List β} {items items' : Items}

namespace Items

@[simp] theorem collect_nil (f : Item → List β) : collect f [] = [] := rfl

@[simp] theorem collect_cons (f : Item → List β) (depth : Nat) (item : Item) (items : Items) :
    collect f ((depth, item) :: items) = f item ++ collect f items := rfl

@[simp] theorem collect_append (f : Item → List β) (items items' : Items) :
    collect f (items ++ items') = collect f items ++ collect f items' := List.flatMap_append

theorem collect_plain {α : Type} (hf : OnActions f) (depth : Nat) (as : List α)
    (text : α → Except RenderError String) :
    collect f (as.map fun a => (depth, .plain (text a))) = [] := by
  simp [collect, List.flatMap_map, hf.plain]

theorem collect_under (hf : OnActions f) (depth : Nat) (header : Except RenderError String) (items : Items) :
    collect f (under depth header items) = collect f items := by
  cases items with
  | nil => simp [under, orPass, hf.plain]
  | cons => simp [under, orPass, hf.plain]

end Items

namespace Statement

/-- The same of the statements. -/
def collect (f : Item → List β) (walked : List Statement) : List β :=
  (actionsOf walked).flatMap fun a => f (.action a)

@[simp] theorem collect_append (f : Item → List β) (walked walked' : List Statement) :
    collect f (walked ++ walked') = collect f walked ++ collect f walked' := by
  rw [collect, actionsOf_append, List.flatMap_append]
  rfl

/-- A block has nothing on its own line. -/
@[simp] theorem collect_block (f : Item → List β) {s : Statement} (hs : s.isBlock = true)
    (walked : List Statement) : collect f (s :: walked) = collect f walked := by
  cases s with
  | action => exact absurd hs Bool.false_ne_true
  | _ => rfl

/-- Nothing is found in the parts of a loop that are written on its line. -/
theorem collect_of_shape (hf : OnActions f) {init update : List Statement} {condition : Option Expression}
    (h : ¬ (loopShape init condition update).isGeneral = true) :
    collect f (walkBlock init) = [] ∧ collect f (walkBlock update) = [] := by
  have hfits := loopShape_fits init condition update
  cases hshape : loopShape init condition update with
  | general => exact absurd (by rw [hshape]; rfl) h
  | infinite | «while» =>
    rw [hshape] at hfits
    obtain ⟨rfl, rfl, -⟩ := hfits
    exact ⟨rfl, rfl⟩
  | counted =>
    rw [hshape] at hfits
    obtain ⟨-, _, _, _, rfl, rfl, -⟩ := hfits
    simp [walkBlock, walk, collect, actionsOf, action?, hf.assign]

mutual

theorem collect_items (hf : OnActions f) : (depth : Nat) → (s : Statement) →
    (s.items depth).collect f = collect f s.walk
  | _, .action a _ => rfl
  | depth, .conditional _ _ body elifs otherwise _ => by
    rw [items, walk, collect_block f rfl, Items.collect_append, Items.collect_append,
      Items.collect_under hf, collect_blockItems hf, collect_branchItems hf depth elifs,
      collect_otherwiseItems hf depth otherwise, collect_append, collect_append]
  | depth, .loop init condition update body _ => by
    rw [walk, collect_block f rfl, collect_append, collect_append]
    simp only [items]
    split
    · rw [Items.collect_cons, hf.plain, Items.collect_append, Items.collect_append, Items.collect_append,
        Items.collect_under hf, Items.collect_plain hf, Items.collect_under hf, Items.collect_under hf,
        collect_blockItems hf, collect_blockItems hf, collect_blockItems hf, List.append_nil]
      rfl
    · next h =>
      obtain ⟨hinit, hupdate⟩ := collect_of_shape hf h
      rw [hinit, hupdate, Items.collect_under hf, collect_blockItems hf]
      rfl
  | depth, .forEach _ body _ => by
    rw [items, walk, collect_block f rfl, Items.collect_under hf, collect_blockItems hf]
  | depth, .strictTiming body _ => by
    rw [items, walk, collect_block f rfl, Items.collect_under hf, collect_blockItems hf]

theorem collect_blockItems (hf : OnActions f) : (depth : Nat) → (body : List Statement) →
    (blockItems depth body).collect f = collect f (walkBlock body)
  | _, [] => rfl
  | depth, s :: rest => by
    rw [blockItems, walkBlock, Items.collect_append, collect_items hf depth s,
      collect_blockItems hf depth rest, collect_append]

theorem collect_branchItems (hf : OnActions f) : (depth : Nat) → (elifs : List (Branch Statement)) →
    (branchItems depth elifs).collect f = collect f (walkBranches elifs)
  | _, [] => rfl
  | depth, ⟨_, body, _⟩ :: rest => by
    rw [branchItems, walkBranches, Items.collect_append, Items.collect_under hf, collect_blockItems hf,
      collect_branchItems hf depth rest, collect_append]

theorem collect_otherwiseItems (hf : OnActions f) : (depth : Nat) → (otherwise : Option (List Statement)) →
    (otherwiseItems depth otherwise).collect f = collect f (walkOtherwise otherwise)
  | _, none => rfl
  | depth, some body => by
    rw [otherwiseItems, walkOtherwise, Items.collect_under hf, collect_blockItems hf]

end

end Statement

/-- What is found on the lines of a program: in its body, and on the lines of its saves. -/
theorem Program.collect_items (hf : OnActions f) (p : Program) :
    p.items.collect f = Statement.collect f (walkBlock p.body) ++ p.saveItems.collect f := by
  rw [items, Items.collect_cons, hf.plain, Items.collect_cons, hf.plain, Items.collect_under hf,
    Items.collect_append, Items.collect_append, Items.collect_plain hf, Statement.collect_blockItems hf]
  rfl

end

-- ---------------------------------------------------------------------------
-- Streams in the text of an action
-- ---------------------------------------------------------------------------

/-- The part stands somewhere in the text. -/
def Text.Occurs (part text : String) : Prop := ∃ before after, text = before ++ part ++ after

namespace Text.Occurs

variable {part text : String}

theorem refl (part : String) : Occurs part part := ⟨"", "", by simp⟩

theorem append_left (h : Occurs part text) (before : String) : Occurs part (before ++ text) := by
  obtain ⟨b, a, rfl⟩ := h
  exact ⟨before ++ b, a, by simp only [String.append_assoc]⟩

theorem append_right (h : Occurs part text) (after : String) : Occurs part (text ++ after) := by
  obtain ⟨b, a, rfl⟩ := h
  exact ⟨b, a ++ after, by simp only [String.append_assoc]⟩

theorem intercalate {parts : List String} (h : part ∈ parts) (sep : String) :
    Occurs part (String.intercalate sep parts) := by
  induction parts with
  | nil => exact absurd h List.not_mem_nil
  | cons first rest ih =>
    cases rest with
    | nil =>
      obtain rfl := List.mem_singleton.mp h
      rw [String.intercalate_singleton]
      exact .refl part
    | cons second rest =>
      rw [String.intercalate_cons_cons]
      obtain rfl | h := List.mem_cons.mp h
      · exact ((refl part).append_right sep).append_right _
      · exact (ih h).append_left _

end Text.Occurs

theorem occurs_timestampKeyword {stream : Option String} (h : name ∈ stream) :
    Text.Occurs name (timestampKeyword stream) := by
  obtain rfl := Option.mem_def.mp h
  exact (Text.Occurs.refl name).append_left ", timestamp_stream="

/-- The streams of an action stand in its text as they are named. -/
theorem Action.occurs_render {a : Action} {text : String} (h : a.render = .ok text)
    (hn : name ∈ a.streamNames) : Text.Occurs name text := by
  cases a with
  | play p =>
    obtain ⟨pulse, -, h⟩ := except_bind_eq_ok.mp h
    obtain ⟨amp, -, h⟩ := except_bind_eq_ok.mp h
    obtain ⟨duration, -, h⟩ := except_bind_eq_ok.mp h
    obtain ⟨condition, -, h⟩ := except_bind_eq_ok.mp h
    have hlast := (occurs_timestampKeyword (Option.mem_toList.mp hn)).append_right ")"
    cases hchirp : p.chirp with
    | none =>
      simp only [hchirp] at h
      obtain ⟨chirp, -, h⟩ := except_bind_eq_ok.mp h
      obtain ⟨truncate, -, h⟩ := except_bind_eq_ok.mp h
      obtain rfl := Except.ok.inj h
      rw [String.append_assoc]
      exact hlast.append_left _
    | some chirp =>
      simp only [hchirp] at h
      obtain ⟨rate, -, h⟩ := except_bind_eq_ok.mp h
      obtain ⟨truncate, -, h⟩ := except_bind_eq_ok.mp h
      obtain rfl := Except.ok.inj h
      rw [String.append_assoc]
      exact hlast.append_left _
  | measure m =>
    obtain ⟨amp, -, h⟩ := except_bind_eq_ok.mp h
    obtain ⟨processes, -, h⟩ := except_bind_eq_ok.mp h
    obtain rfl := Except.ok.inj h
    rw [streamNames, List.mem_append, Option.mem_toList, Option.mem_toList] at hn
    obtain hn | hn := hn
    · rw [Option.mem_def.mp hn, Option.getD_some]
      exact (((Text.Occurs.intercalate (by simp) ", ").append_left _).append_right _).append_right _
    · exact ((occurs_timestampKeyword hn).append_left _).append_right _
  | save source stream =>
    obtain ⟨value, -, h⟩ := except_bind_eq_ok.mp h
    obtain rfl := Except.ok.inj h
    obtain rfl := List.mem_singleton.mp hn
    exact ((Text.Occurs.refl name).append_left _).append_right _
  | _ => exact absurd hn List.not_mem_nil

-- ---------------------------------------------------------------------------
-- Declared once, above all uses
-- ---------------------------------------------------------------------------

/-- Whether the action writes to a stream. -/
def Action.hasStreams (a : Action) : Bool := !a.streamNames.isEmpty

namespace Item

/-- The action of the line, if it writes to a stream. -/
def action? : Item → Option Action
  | .action a => if a.hasStreams then some a else none
  | _ => none

def save? : Item → Option SaveEntry
  | .save entry => some entry
  | _ => none

end Item

namespace Row

def action? : Row → Option Action
  | .declaration .. => none
  | .other _ item => item.action?

def save? : Row → Option SaveEntry
  | .declaration .. => none
  | .other _ item => item.save?

end Row

/-- How the streams of a program are declared on its lines. -/
structure Program.Declares (p : Program) (lines : List Line) : Prop where
  writes : List.Forall₂ (Row.Writes p.shorthand?) p.rows lines
  /-- All actions with streams have their lines, in the order of the body. -/
  actions : p.rows.filterMap Row.action? =
    (Statement.actionsOf (walkBlock p.body)).filter Action.hasStreams
  saves : p.rows.filterMap Row.save? = p.results.manual
  once : (declaredIn p.rows).Nodup
  /-- What is declared are the streams without a shorthand that occur. -/
  declared : ∀ name, name ∈ declaredIn p.rows ↔ p.shorthand? name = none ∧
    (name ∈ blockStreamNames p.body ∨ ∃ entry ∈ p.results.manual, name ∈ entry.pipeline.sourceNames)
  above : ∀ before row after, p.rows = before ++ row :: after → ∀ name ∈ row.mentions,
    p.shorthand? name = none → name ∈ declaredIn before
  /-- On the line of an action a stream with a shorthand is its quoted tag. -/
  quoted : ∀ depth a line, .other depth (.action a) ∈ p.rows →
    Row.Writes p.shorthand? (.other depth (.action a)) line → ∀ name ∈ a.streamNames,
      Text.Occurs (match p.shorthand? name with
        | some tag => Text.quote tag
        | none => name) line.text
  explicit : ∀ entry ∈ p.results.manual, ∀ name ∈ entry.pipeline.sourceNames, p.shorthand? name = none

/-- A stream that is saved by name has no shorthand. -/
theorem Program.shorthand_of_manual {p : Program} {entry : SaveEntry} (h : entry ∈ p.results.manual)
    (hn : name ∈ entry.pipeline.sourceNames) : p.shorthand? name = none := by
  obtain ⟨hmem, hmanual⟩ := List.mem_filter.mp h
  refine if_neg fun hall => ?_
  have hsave : entry ∈ p.savesOf name := List.mem_filter.mpr ⟨hmem, List.contains_iff_mem.mpr hn⟩
  have := List.all_eq_true.mp hall entry hsave
  simp [this] at hmanual

/-- What is above a row is above its item. -/
theorem Program.declared_above {before after : List Row} {row : Row} (h : p.rows = before ++ row :: after)
    (hn : name ∈ row.mentions) (hs : p.shorthand? name = none) : name ∈ declaredIn before := by
  cases row with
  | declaration => exact absurd hn List.not_mem_nil
  | other depth item =>
    have hneeds : name ∈ item.needs := by
      cases item with
      | saves => exact absurd hn List.not_mem_nil
      | _ => exact hn
    exact (Items.declared_above h hneeds hs).resolve_left (List.not_mem_nil)

theorem Items.filterMap_rows {β : Type} (f : Item → Option β) (g : Row → Option β)
    (hdeclaration : ∀ depth name, g (.declaration depth name) = none)
    (hother : ∀ depth item, g (.other depth item) = f item) (declared : List String) (items : Items) :
    (rows shorthand? declared items).filterMap g = items.collect fun item => (f item).toList := by
  induction items generalizing declared with
  | nil => rfl
  | cons entry items ih =>
    obtain ⟨depth, item⟩ := entry
    have hnone : ((undeclared shorthand? declared item.needs).map (.declaration depth)).filterMap g = [] := by
      simp [hdeclaration]
    rw [rows, List.filterMap_append, hnone, List.nil_append, List.filterMap_cons, hother, ih, collect_cons]
    cases f item <;> rfl

namespace Program

theorem collect_saveItems {β : Type} {f : Item → List β} (p : Program) (h : ∀ entries, f (.saves entries) = []) :
    p.saveItems.collect f = p.results.manual.flatMap fun entry => f (.save entry) := by
  rw [saveItems]
  split
  · next hnone =>
    rw [List.isEmpty_iff.mp hnone]
    rfl
  · simp [Items.collect, h, List.flatMap_map]

theorem actions_rows (p : Program) : p.rows.filterMap Row.action? =
    (Statement.actionsOf (walkBlock p.body)).filter Action.hasStreams := by
  have hf : OnActions fun item => item.action?.toList := ⟨fun _ => rfl, fun _ _ => rfl⟩
  have hsaves : p.saveItems.collect (fun item => item.action?.toList) = [] := by
    rw [collect_saveItems p fun _ => rfl]
    exact List.flatMap_eq_nil_iff.mpr fun _ _ => rfl
  rw [rows, Items.filterMap_rows Item.action? _ (fun _ _ => rfl) fun _ _ => rfl, collect_items hf, hsaves,
    List.append_nil, Statement.collect]
  induction Statement.actionsOf (walkBlock p.body) with
  | nil => rfl
  | cons a rest ih =>
    rw [List.flatMap_cons, ih, List.filter_cons, Item.action?]
    split <;> rfl

theorem saves_rows (p : Program) : p.rows.filterMap Row.save? = p.results.manual := by
  have hf : OnActions fun item => item.save?.toList := ⟨fun _ => rfl, fun _ _ => rfl⟩
  have hbody : Statement.collect (fun item => item.save?.toList) (walkBlock p.body) = [] :=
    List.flatMap_eq_nil_iff.mpr fun _ _ => rfl
  rw [rows, Items.filterMap_rows Item.save? _ (fun _ _ => rfl) fun _ _ => rfl, collect_items hf, hbody,
    List.nil_append, collect_saveItems p fun _ => rfl]
  simp [Item.save?]

theorem mem_needs_saveItems (p : Program) : name ∈ p.saveItems.collect Item.needs ↔
    ∃ entry ∈ p.results.manual, name ∈ entry.pipeline.sourceNames := by
  rw [saveItems]
  split
  · next hnone => simp [List.isEmpty_iff.mp hnone]
  · simp [Items.collect, Item.needs, Item.mentions]

/-- The streams that some line needs. -/
theorem exists_needs (p : Program) : (∃ entry ∈ p.items, name ∈ entry.2.needs) ↔
    name ∈ blockStreamNames p.body ∨ ∃ entry ∈ p.results.manual, name ∈ entry.pipeline.sourceNames := by
  have hbody : Statement.collect Item.needs (walkBlock p.body) = blockStreamNames p.body := by
    rw [blockStreamNames]
    induction walkBlock p.body with
    | nil => rfl
    | cons s rest ih =>
      rw [List.flatMap_cons, ← ih, ← List.singleton_append, Statement.collect_append]
      cases s <;> simp [Statement.collect, Statement.actionsOf, Statement.action?, Statement.streamNames,
        Item.needs, Item.mentions]
  rw [← List.mem_flatMap (f := fun entry : Nat × Item => entry.2.needs)]
  change name ∈ p.items.collect Item.needs ↔ _
  rw [collect_items ⟨fun _ => rfl, fun _ _ => rfl⟩, hbody, List.mem_append, mem_needs_saveItems]

end Program

/-- Streams without a shorthand are declared once, above all lines on which they are, in any listing. -/
theorem Program.streams_declared {text : String} (h : p.text = .ok text) :
    ∃ lines, text = Line.renderAll lines ∧ p.Declares lines := by
  obtain ⟨lines, htext, hlines⟩ := p.text_rows h
  refine ⟨lines, htext, hlines, p.actions_rows, p.saves_rows, Items.nodup_declaredIn_rows, fun name => ?_,
    fun _ _ _ hrows _ hn hs => declared_above hrows hn hs, fun depth a line _ hline name hn => ?_,
    fun _ hentry _ hn => shorthand_of_manual hentry hn⟩
  · rw [← p.exists_needs, rows, Items.mem_declaredIn_rows]
    simp
  · have hnames : Listing.writtenStream p.shorthand? name ∈
        (a.mapStreams (Listing.writtenStream p.shorthand?)).streamNames := by
      rw [Action.streamNames_mapStreams]
      exact List.mem_map_of_mem hn
    exact Action.occurs_render hline.2 hnames

/-- A stream that both branches of a conditional could be the first to use, a trace, a stream that is only
saved, and one that a tag stands for. -/
def branchedStreams : Program where
  body :=
    [.conditional (.bool true) false [.action (.save (.named "v1") "r2") ""] []
      (some [.action (.measure ⟨"pulse", "q", none, some "atr_1", [], some "r3"⟩) ""]) "",
      .action (.save (.named "v1") "r2") ""]
  results :=
    ⟨[⟨.save, "t", false, (ResultSource.mk "r2" false .values none false).token⟩,
      ⟨.saveAll, "u", false, (ResultSource.mk "r1" false .values none false).token⟩,
      ⟨.saveAll, "res", true, (ResultSource.mk "r3" false .timestamps none false).token⟩]⟩

theorem Program.streams_declared_branched : ∃ text lines, branchedStreams.text = .ok text ∧
    text = Line.renderAll lines ∧ branchedStreams.Declares lines ∧
      declaredIn branchedStreams.rows = ["r2", "atr_1", "r1"] := by
  let text := "from qm.qua import *\n\nwith program() as prog:\n    with if_(True):\n"
    ++ "        r2 = declare_stream()\n        save(v1, r2)\n    with else_():\n"
    ++ "        atr_1 = declare_stream(adc_trace=True)\n"
    ++ "        measure(\"pulse\", \"q\", atr_1, timestamp_stream=\"res\")\n    save(v1, r2)\n"
    ++ "    r1 = declare_stream()\n    with stream_processing():\n        r2.save(\"t\")\n"
    ++ "        r1.save_all(\"u\")\n"
  have ht : branchedStreams.text = .ok text := by decide +kernel
  obtain ⟨lines, htext, hlines⟩ := Program.streams_declared ht
  exact ⟨text, lines, ht, htext, hlines, by decide +kernel⟩

end Qua
