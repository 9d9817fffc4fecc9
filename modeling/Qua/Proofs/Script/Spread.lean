import Qua.Proofs.Script.OneLine
import Qua.Proofs.Script.Outline

/-!
# Terms on several lines

Inside brackets a line break is no token of the layout, so that a list or a dictionary may be written
with each of its items on a line of its own.
-/

namespace Qua.Script

-- ---------------------------------------------------------------------------
-- Layout inside brackets
-- ---------------------------------------------------------------------------

/-- Inside `least` brackets or more, the layout leaves `ts'` of the tokens `ts`. -/
def Lays (least : Nat) (ts ts' : List Token) : Prop :=
  ∀ (levels : List Nat) (depth : Nat) (ls rest : List Located), least ≤ depth →
    ls.map Located.token = ts → ∃ ls', ls'.map Located.token = ts' ∧
      layoutFrom levels depth false (ls ++ rest) = (ls' ++ ·) <$> layoutFrom levels depth false rest

theorem Inline.lays (h : Inline ts) (least : Nat) : Lays least ts ts :=
  fun levels depth ls rest _ hl => ⟨ls, hl, h levels depth ls rest hl⟩

namespace Lays

theorem mono (h : Lays least ts ts') (hle : least ≤ least') : Lays least' ts ts' :=
  fun levels depth ls rest hd hl => h levels depth ls rest (Nat.le_trans hle hd) hl

theorem append (h : Lays least ts₁ ts₁') (h' : Lays least ts₂ ts₂') :
    Lays least (ts₁ ++ ts₂) (ts₁' ++ ts₂') := by
  intro levels depth ls rest hd hl
  obtain ⟨ls₁, ls₂, rfl, hl₁, hl₂⟩ := List.map_eq_append_iff.mp hl
  obtain ⟨ls₁', hl₁', hrun₁⟩ := h levels depth ls₁ (ls₂ ++ rest) hd hl₁
  obtain ⟨ls₂', hl₂', hrun₂⟩ := h' levels depth ls₂ rest hd hl₂
  refine ⟨ls₁' ++ ls₂', by simp [hl₁', hl₂'], ?_⟩
  rw [List.append_assoc, hrun₁, hrun₂]
  cases layoutFrom levels depth false rest <;> simp [Functor.map, Except.map]

/-- A line break inside brackets. -/
theorem newLine : Lays 1 [.newLine] [] := by
  intro levels depth ls rest hd hl
  obtain ⟨l, ls', rfl, ht, hn⟩ := List.map_eq_cons_iff.mp hl
  obtain rfl := List.map_eq_nil_iff.mp hn
  refine ⟨[], rfl, ?_⟩
  have hdepth : depth ≠ 0 := by omega
  rw [List.singleton_append, layoutFrom, ht]
  simp [hdepth]

/-- What stands between brackets is inside them. -/
theorem bracketed_run (h : Lays 1 ts ts') (hb : Brackets left right) {lo lc : Located}
    (ho : lo.token = left) (hc : lc.token = right) {ls : List Located}
    (hl : ls.map Located.token = ts) (levels : List Nat) (depth : Nat) (rest : List Located) :
    ∃ ls', ls'.map Located.token = ts' ∧ layoutFrom levels depth false (lo :: (ls ++ lc :: rest)) =
      (lo :: (ls' ++ [lc]) ++ ·) <$> layoutFrom levels depth false rest := by
  obtain ⟨ls', hl', hrun⟩ := h levels (depth + 1) ls (lc :: rest) (by omega) hl
  refine ⟨ls', hl', ?_⟩
  rw [hb.layout_left ho, hrun, hb.layout_right hc]
  cases layoutFrom levels depth false rest <;> simp [Functor.map, Except.map]

theorem bracketed (h : Lays 1 ts ts') (hb : Brackets left right) :
    Lays 0 (left :: (ts ++ [right])) (left :: (ts' ++ [right])) := by
  intro levels depth ls rest _ hl
  obtain ⟨lo, ls, rfl, ho, hm⟩ := List.map_eq_cons_iff.mp hl
  obtain ⟨ls, ls₂, rfl, hl₁, hl₂⟩ := List.map_eq_append_iff.mp hm
  obtain ⟨lc, ls₂, rfl, hc, hn⟩ := List.map_eq_cons_iff.mp hl₂
  obtain rfl := List.map_eq_nil_iff.mp hn
  obtain ⟨ls', hl', hrun⟩ := h.bracketed_run hb ho hc hl₁ levels depth rest
  refine ⟨lo :: (ls' ++ [lc]), by simp [hl', ho, hc], ?_⟩
  rw [List.cons_append, List.append_assoc]
  exact hrun

end Lays

-- ---------------------------------------------------------------------------
-- Text on several lines
-- ---------------------------------------------------------------------------

/-- The text is scanned as tokens of which the layout leaves some with a property. -/
def Spread (P : List Token → Prop) (text : String) : Prop :=
  ∃ raw ts, Scans text.toList raw EndsNumber ∧ Lays 0 raw ts ∧ P ts

theorem Written.spread (h : Written EndsNumber P text) : Spread P text := by
  obtain ⟨ts, hs, hi, ht⟩ := h.tokens
  exact ⟨ts, ts, hs, hi.lays 0, ht⟩

/-- A key and its value, which may go over several lines. -/
theorem Spread.entry (hk : IsPrimary key k) (h : Spread (ReadsTerm · v) text) :
    Spread (ReadsEntry · (k, v)) (key ++ ": " ++ text) := by
  obtain ⟨ks, hsₖ, hiₖ, hrₖ⟩ := hk.term.tokens
  obtain ⟨raw, ts, hs, hl, ht⟩ := h
  exact ⟨ks ++ .colon :: raw, ks ++ .colon :: ts, hsₖ.entry hs,
    (hiₖ.lays 0).append (((Inline.token (t := .colon) rfl).lays 0).append hl), ks, ts, rfl, hrₖ, ht⟩

/-- Lines inside brackets, each with an item and a comma. -/
def IsLines (reads : List Token → α → Prop) (stop : Token) (lines : String) (as : List α) : Prop :=
  ∃ raw ts, (Scans lines.toList raw fun _ => True) ∧ Lays 1 raw ts ∧ Listed reads stop (ts ++ [stop]) as

theorem IsLines.nil (reads : List Token → α → Prop) (stop : Token) : IsLines reads stop "" [] :=
  ⟨[], [], .nil _, Inline.nil.lays 1, .nil⟩

theorem IsLines.cons {reads : List Token → α → Prop} (h : Spread (reads · a) text)
    (hs : IsLines reads stop lines as) (depth : Nat) :
    IsLines reads stop (Line.indentation depth ++ text ++ ",\n" ++ lines) (a :: as) := by
  obtain ⟨raw, ts, hscan, hlays, hread⟩ := h
  obtain ⟨raw', ts', hscan', hlays', hlisted⟩ := hs
  refine ⟨[] ++ (raw ++ ([.comma] ++ ([.newLine] ++ raw'))), ts ++ ([.comma] ++ ([] ++ ts')), ?_,
    (hlays.mono (by omega)).append
      (((Inline.token (t := .comma) rfl).lays 1).append (Lays.newLine.append hlays')), ?_⟩
  · have hlines : Scans (',' :: ('\n' :: lines.toList)) ([.comma] ++ ([.newLine] ++ raw'))
        fun _ => True :=
      Scans.comma.append (Scans.newLine.append hscan' fun _ _ _ _ => trivial) fun _ _ _ _ => trivial
    have hitem := hscan.append_cons hlines ⟨by decide, by decide⟩
    have htext : (Line.indentation depth ++ text ++ ",\n" ++ lines).toList =
        (Line.indentation depth).toList ++ (text.toList ++ ',' :: '\n' :: lines.toList) := by simp
    rw [htext]
    exact (Scans.indentation depth).append hitem fun _ _ _ _ => trivial
  · rw [List.append_assoc]
    exact .cons hread .comma hlisted

/-- The tokens of brackets around lines. -/
theorem IsLines.scans {reads : List Token → α → Prop} (h : IsLines reads stop lines as) (depth : Nat)
    (hl : Scans [l] [left] fun _ => True) (hr : Scans [r] [right] fun _ => True) :
    ∃ raw ts, Scans (l :: '\n' :: (lines ++ Line.indentation depth).toList ++ [r])
      (left :: (raw ++ [right])) EndsNumber ∧ Lays 1 raw ts ∧ Listed reads stop (ts ++ [stop]) as := by
  obtain ⟨raw, ts, hscan, hlays, hlisted⟩ := h
  refine ⟨.newLine :: raw, ts, ?_, Lays.newLine.append hlays, hlisted⟩
  have hclose : Scans ((Line.indentation depth).toList ++ [r]) ([] ++ [right]) EndsNumber :=
    (Scans.indentation depth).append (hr.mono fun _ _ => trivial) fun _ _ _ _ => trivial
  have hlines := hscan.append hclose fun _ _ _ _ => trivial
  have hbreak := Scans.newLine.append hlines fun _ _ _ _ => trivial
  have hall := hl.append hbreak fun _ _ _ _ => trivial
  simpa using hall

/-- A list with each item on a line. -/
theorem Spread.list (h : IsLines ReadsTerm .rightBracket lines vs) (depth : Nat) :
    Spread (ReadsTerm · (.list vs)) ("[\n" ++ lines ++ Line.indentation depth ++ "]") := by
  obtain ⟨raw, ts, hscan, hlays, hlisted⟩ := h.scans depth Scans.leftBracket Scans.rightBracket
  refine ⟨_, _, ?_, hlays.bracketed .square, hlisted.list.primary.operand.term⟩
  simpa using hscan

/-- A dictionary with each key on a line. -/
theorem Spread.dict (h : IsLines ReadsEntry .rightBrace lines es) (depth : Nat) :
    Spread (ReadsTerm · (.dict es)) ("\x7b\n" ++ lines ++ Line.indentation depth ++ "\x7d") := by
  obtain ⟨raw, ts, hscan, hlays, hlisted⟩ := h.scans depth Scans.leftBrace Scans.rightBrace
  refine ⟨_, _, ?_, hlays.bracketed .curly, hlisted.dict.primary.operand.term⟩
  simpa using hscan

/-- A dictionary with each key on a line is a script of one statement. -/
theorem IsLines.parse (h : IsLines ReadsEntry .rightBrace lines es) :
    Script.parse ("\x7b\n" ++ lines ++ "\x7d") = .ok [.term 1 (.dict es)] := by
  obtain ⟨raw, ts, hscan, hlays, hlisted⟩ := h.scans 0 Scans.leftBrace Scans.rightBrace
  have htext : ("\x7b\n" ++ lines ++ "\x7d").toList =
      '\x7b' :: '\n' :: (lines ++ Line.indentation 0).toList ++ ['\x7d'] := by
    simp [Line.indentation]
  rw [← htext] at hscan
  obtain ⟨ls, finish, hl, hf, hrun⟩ := hscan.scan
  obtain ⟨lo, ls, rfl, ho, hm⟩ := List.map_eq_cons_iff.mp hl
  obtain ⟨ls, ls₂, rfl, hl₁, hl₂⟩ := List.map_eq_append_iff.mp hm
  obtain ⟨lc, ls₂, rfl, hc, hn⟩ := List.map_eq_cons_iff.mp hl₂
  obtain rfl := List.map_eq_nil_iff.mp hn
  obtain ⟨ls', hl', hlayout⟩ := hlays.bracketed_run .curly ho hc hl₁ [1] 0 [finish]
  have hhead : lo.line = 1 ∧ lo.column = 1 := by
    rw [Script.scan, htext] at hrun
    exact scanFrom_head (by decide) hrun
  have htokens : (lo :: (ls' ++ [lc])).map Located.token = .leftBrace :: (ts ++ [.rightBrace]) := by
    simp [hl', ho, hc]
  refine hlisted.dict.primary.operand.term.parse htokens hf ⟨lo, rfl, hhead.1⟩ ?_
  rw [Script.lex, hrun]
  have hlast : lo :: (ls ++ [lc]) ++ [finish] = lo :: (ls ++ lc :: [finish]) := by simp
  change layoutFrom [1] 0 true (lo :: (ls ++ [lc]) ++ [finish]) = _
  rw [hlast, layoutFrom_lineStart (by simp [ho]) (by simp [ho]) hhead.2, hlayout,
    layoutFrom_finish hf]
  rfl

end Qua.Script
