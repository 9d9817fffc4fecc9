import Qua.Program.Listing
import Qua.Proofs.Run
import Qua.Proofs.Script.Appended

/-!
# How the lines of a listing end

Every line of a listing ends in a parenthesis, a colon or `pass`, so that no line break of the script is
escaped, and nothing that is added after the script continues its last line. Main statement:
`Program.text_ended`.
-/

namespace Qua

namespace Text

/-- A line break after the text is not escaped. -/
def Closed (text : String) : Prop := ∃ c ∈ text.toList.getLast?, c ≠ '\\' ∧ c ≠ '\r'

theorem Closed.append (h : Closed text) (before : String) : Closed (before ++ text) := by
  obtain ⟨c, hc, h⟩ := h
  refine ⟨c, ?_, h⟩
  rw [String.toList_append, List.getLast?_append, Option.mem_def.mp hc]
  rfl

theorem closed_parenthesis : Closed ")" := ⟨')', rfl, by decide⟩
theorem closed_colon : Closed ":" := ⟨':', rfl, by decide⟩
theorem closed_header : Closed "):" := closed_colon.append ")"

theorem Closed.ended (h : Closed text) : Ended (text ++ "\n").toList := by
  obtain ⟨c, hc, h⟩ := h
  refine ⟨text.toList, by simp, fun d hd => ?_⟩
  rwa [Option.some.inj ((Option.mem_def.mp hd).symm.trans hc)]

end Text

open Text (Closed closed_parenthesis closed_colon closed_header)

namespace Line

/-- No line break after one of the lines is escaped. -/
def AllClosed (lines : List Line) : Prop := ∀ line ∈ lines, Closed line.text

theorem AllClosed.nil : AllClosed [] := fun _ h => nomatch h

theorem AllClosed.cons {depth : Nat} {text : String} (hs : AllClosed lines) (h : Closed text) :
    AllClosed (⟨depth, text⟩ :: lines) :=
  List.forall_mem_cons.mpr ⟨h, hs⟩

theorem AllClosed.append (h : AllClosed lines) (h' : AllClosed lines') : AllClosed (lines ++ lines') :=
  List.forall_mem_append.mpr ⟨h, h'⟩

theorem AllClosed.orPass (h : AllClosed lines) (depth : Nat) : AllClosed (Listing.orPass depth lines) := by
  unfold Listing.orPass
  split
  · exact .cons .nil ⟨'s', rfl, by decide⟩
  · exact h

/-- The lines of a loop whose parts have headers of their own. -/
theorem AllClosed.parts {header : String} (hheader : Closed header) (hinit : AllClosed init)
    (hcondition : AllClosed condition) (hupdate : AllClosed update) (hbody : AllClosed body) (depth : Nat) :
    AllClosed (⟨depth, header⟩
      :: ⟨depth + 1, "with for_init_():"⟩ :: Listing.orPass (depth + 2) init ++ condition
      ++ ⟨depth + 1, "with for_update_():"⟩ :: Listing.orPass (depth + 2) update
      ++ ⟨depth + 1, "with for_body_():"⟩ :: Listing.orPass (depth + 2) body) := by
  have hpart (name : String) {lines : List Line} (h : AllClosed lines) :
      AllClosed (⟨depth + 1, name ++ "):"⟩ :: Listing.orPass (depth + 2) lines) :=
    (h.orPass _).cons (closed_header.append name)
  exact ((((hpart "with for_init_(" hinit).cons hheader).append hcondition).append
    (hpart "with for_update_(" hupdate)).append (hpart "with for_body_(" hbody)

/-- A script whose last lines are closed ends in a line break that is not escaped. -/
theorem AllClosed.ended (h : AllClosed lines) (hne : lines ≠ []) (before : List Line) :
    Text.Ended (renderAll (before ++ lines)).toList := by
  obtain ⟨front, last, rfl⟩ := lines.eq_nil_or_concat.resolve_left hne
  rw [List.concat_eq_append] at h ⊢
  have hlast : Closed last.text := h last (by simp)
  rw [← List.append_assoc, Script.renderAll_append, Script.renderAll_singleton, render, ← String.append_assoc,
    ← String.append_assoc]
  exact (hlast.append _).ended

end Line

namespace Listing

-- ---------------------------------------------------------------------------
-- The texts of lines
-- ---------------------------------------------------------------------------

/-- What is written is closed. -/
def Closes (written : Except RenderError String) : Prop := ∀ ⦃text⦄, written = .ok text → Closed text

theorem Closes.pure (h : Closed text) : Closes (.ok text) := by
  rintro _ ⟨⟩
  exact h

theorem Closes.after {m : Except RenderError α} {f : α → Except RenderError String}
    (h : ∀ a, Closes (f a)) : Closes (m >>= f) := by
  intro text ht
  obtain ⟨a, -, ht⟩ := except_bind_eq_ok.mp ht
  exact h a ht

theorem Closes.parenthesis (text : String) : Closes (.ok (text ++ ")")) :=
  .pure (closed_parenthesis.append text)

theorem Closes.colon (text : String) : Closes (.ok (text ++ "):")) :=
  .pure (closed_header.append text)

theorem closes_action (a : Action) : Closes a.render := by
  cases a with
  | play p =>
    refine .after fun _ => .after fun _ => .after fun _ => .after fun _ => ?_
    cases p.chirp with
    | none => exact .after fun _ => .after fun _ => .parenthesis _
    | some => exact .after fun _ => .after fun _ => .parenthesis _
  | measure => exact .after fun _ => .after fun _ => .parenthesis _
  | wait => exact .after fun _ => .parenthesis _
  | align => exact .parenthesis _
  | assign => exact .after fun _ => .after fun _ => .parenthesis _
  | save => exact .after fun _ => .parenthesis _
  | pause => exact .parenthesis "pause("
  | updateFrequency => exact .after fun _ => .parenthesis _
  | updateCorrection => exact .after fun _ => .parenthesis _
  | setDcOffset => exact .after fun _ => .parenthesis _
  | advanceInputStream => exact .after fun _ => .parenthesis _
  | resetPhase => exact .parenthesis _
  | resetFrame => exact .parenthesis _
  | zRotation => exact .after fun _ => .parenthesis _
  | rampToZero => exact .parenthesis _
  | fastFrameRotation => exact .after fun _ => .after fun _ => .parenthesis _
  | waitForTrigger => exact .parenthesis _

theorem closes_declaration (d : Declaration) : Closes d.render := .after fun _ => .parenthesis _

theorem closes_save (entry : SaveEntry) : Closes entry.render := .after fun _ => .parenthesis _

theorem closed_streamDeclaration (name : String) : Closed (streamDeclaration name) := by
  refine Closed.append ?_ (name ++ " = ")
  split
  · exact closed_parenthesis.append "declare_stream(adc_trace=True"
  · exact closed_parenthesis.append "declare_stream("

theorem closes_ifHeader (condition : Expression) (isUnsafe : Bool) : Closes (ifHeader condition isUnsafe) :=
  .after fun _ => .colon _

theorem closes_elifHeader (condition : Expression) : Closes (elifHeader condition) :=
  .after fun _ => .colon _

theorem closed_forEachHeader (iterators : List Iterator) : Closed (forEachHeader iterators) :=
  (closed_header.append ")").append _

theorem closes_loopHeader (shape : LoopShape) : Closes shape.header := by
  cases shape with
  | infinite => exact .colon "with infinite_loop_("
  | «while» => exact .after fun _ => .colon _
  | counted => exact .after fun _ => .colon _
  | general => exact .colon "with for_("

-- ---------------------------------------------------------------------------
-- The lines of a body
-- ---------------------------------------------------------------------------

/-- The lines that are written are closed. -/
abbrev AllCloses (listing : Listing (List Line)) : Prop := Gives Line.AllClosed listing

open Line (AllClosed)

theorem allCloses_declareStream (depth : Nat) (name : String) :
    AllCloses (declareStream depth name) := by
  refine .after fun declared => ?_
  split
  · exact .pure .nil
  · exact .after fun _ => .pure (.cons .nil (closed_streamDeclaration name))

variable (shorthand? : String → Option String)

theorem allCloses_declareStreams (depth : Nat) (names : List String) :
    AllCloses (declareStreams shorthand? depth names) := by
  induction names with
  | nil => exact .pure .nil
  | cons name names ih =>
    rw [declareStreams]
    split
    · exact (Gives.pure AllClosed.nil).bind fun _ hfirst => ih.bind fun _ hrest => .pure (hfirst.append hrest)
    · exact (allCloses_declareStream depth name).bind fun _ hfirst =>
        ih.bind fun _ hrest => .pure (hfirst.append hrest)

theorem allCloses_action (depth : Nat) (a : Action) : AllCloses (action shorthand? depth a) :=
  (allCloses_declareStreams shorthand? depth _).bind fun _ hdeclarations =>
    (Gives.lift (closes_action _)).bind fun _ htext => .pure (hdeclarations.append (.cons .nil htext))

mutual

theorem allCloses_statement : (depth : Nat) → (s : Statement) → AllCloses (statement shorthand? depth s)
  | depth, .action a _ => by
    rw [statement]
    exact allCloses_action shorthand? depth a
  | depth, .conditional condition isUnsafe body elifs otherwise _ => by
    rw [statement]
    exact (Gives.lift (closes_ifHeader condition isUnsafe)).bind fun _ hheader =>
      (allCloses_block (depth + 1) body).bind fun _ hbody =>
        (allCloses_branches depth elifs).bind fun _ helifs =>
          (allCloses_alternative depth otherwise).bind fun _ hotherwise =>
            .pure (.append (.append (.cons (hbody.orPass _) hheader) helifs) hotherwise)
  | depth, .loop init condition update body _ => by
    rw [statement]
    refine (Gives.lift (closes_loopHeader _)).bind fun _ hheader => ?_
    split
    · refine (allCloses_block (depth + 2) init).bind fun _ hinit => ?_
      cases condition with
      | none =>
        refine (Gives.pure AllClosed.nil).bind fun _ hcondition => ?_
        exact (allCloses_block (depth + 2) update).bind fun _ hupdate =>
          (allCloses_block (depth + 2) body).bind fun _ hbody =>
            .pure (.parts hheader hinit hcondition hupdate hbody depth)
      | some =>
        refine .after fun _ =>
          (Gives.pure (AllClosed.nil.cons (closed_parenthesis.append _))).bind fun _ hcondition => ?_
        exact (allCloses_block (depth + 2) update).bind fun _ hupdate =>
          (allCloses_block (depth + 2) body).bind fun _ hbody =>
            .pure (.parts hheader hinit hcondition hupdate hbody depth)
    · exact (allCloses_block (depth + 1) body).bind fun _ hbody =>
        .pure (.cons (hbody.orPass _) hheader)
  | depth, .forEach iterators body _ => by
    rw [statement]
    exact (allCloses_block (depth + 1) body).bind fun _ hbody =>
      .pure (.cons (hbody.orPass _) (closed_forEachHeader iterators))
  | depth, .strictTiming body _ => by
    rw [statement]
    exact (allCloses_block (depth + 1) body).bind fun _ hbody =>
      .pure (.cons (hbody.orPass _) (closed_header.append "with strict_timing_("))

theorem allCloses_block : (depth : Nat) → (body : List Statement) → AllCloses (block shorthand? depth body)
  | _, [] => by
    rw [block]
    exact .pure .nil
  | depth, s :: rest => by
    rw [block]
    exact (allCloses_statement depth s).bind fun _ hfirst =>
      (allCloses_block depth rest).bind fun _ hrest => .pure (hfirst.append hrest)

theorem allCloses_branches : (depth : Nat) → (elifs : List (Branch Statement)) →
    AllCloses (branches shorthand? depth elifs)
  | _, [] => by
    rw [branches]
    exact .pure .nil
  | depth, ⟨condition, body, _⟩ :: rest => by
    rw [branches]
    exact (Gives.lift (closes_elifHeader condition)).bind fun _ hheader =>
      (allCloses_block (depth + 1) body).bind fun _ hbody =>
        (allCloses_branches depth rest).bind fun _ hrest =>
          .pure (.append (.cons (hbody.orPass _) hheader) hrest)

theorem allCloses_alternative : (depth : Nat) → (otherwise : Option (List Statement)) →
    AllCloses (alternative shorthand? depth otherwise)
  | _, none => by
    rw [alternative]
    exact .pure .nil
  | depth, some body => by
    rw [alternative]
    exact (allCloses_block (depth + 1) body).bind fun _ hbody =>
      .pure (.cons (hbody.orPass _) (closed_header.append "with else_("))

end

-- ---------------------------------------------------------------------------
-- Whole programs
-- ---------------------------------------------------------------------------

/-- The lines of items that have one each. -/
theorem allCloses_mapM {write : α → Listing Line} (h : ∀ a, Gives (fun line => Closed line.text) (write a))
    (items : List α) : AllCloses (items.mapM write) := by
  induction items with
  | nil => exact .pure .nil
  | cons a items ih =>
    rw [List.mapM_cons]
    exact (h a).bind fun _ hline => ih.bind fun _ hlines => .pure (.cons hlines hline)

theorem allCloses_results (depth : Nat) (saves : List SaveEntry) :
    AllCloses (results shorthand? depth saves) := by
  simp only [results]
  split
  · exact .pure .nil
  · refine (allCloses_declareStreams shorthand? depth _).bind fun _ hdeclarations =>
      (allCloses_mapM (fun entry => ?_) _).bind fun _ hlines =>
        .pure (hdeclarations.append (.cons hlines (closed_header.append "with stream_processing(")))
    exact (Gives.lift (closes_save entry)).bind fun _ htext => .pure htext

theorem allCloses_program (p : Program) : AllCloses (program p) := by
  refine (allCloses_mapM (fun d => ?_) _).bind fun _ hdeclarations =>
    (allCloses_block p.shorthand? 1 p.body).bind fun _ hbody =>
      (allCloses_results p.shorthand? 1 p.results.entries).bind fun _ hresults =>
        .pure (((hdeclarations.append hbody).append hresults).orPass 1)
  exact (Gives.lift (closes_declaration d)).bind fun _ htext => .pure htext

end Listing

/-- Nothing after the text of a program continues its last line. -/
theorem Program.text_ended {p : Program} {text : String} (h : p.text = .ok text) :
    Text.Ended text.toList := by
  obtain ⟨lines, hlines, rfl⟩ := except_map_eq_ok.mp h
  obtain ⟨lines, hprogram, hlines⟩ := except_bind_eq_ok.mp hlines
  obtain ⟨⟨written, streams⟩, hrun, rfl⟩ := except_map_eq_ok.mp hprogram
  obtain rfl := Except.ok.inj hlines
  have hheader : Closed "with program() as prog:" := closed_colon.append "with program() as prog"
  have hclosed : Line.AllClosed (⟨0, "with program() as prog:"⟩ :: written) :=
    (Listing.allCloses_program p hrun).cons hheader
  exact hclosed.ended (List.cons_ne_nil _ _) [⟨0, "from qm.qua import *"⟩, ⟨0, ""⟩]

end Qua
