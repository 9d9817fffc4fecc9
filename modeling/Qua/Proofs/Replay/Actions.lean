import Qua.Proofs.Replay.Calls

/-!
# Actions read back

The line of an action is a call, whose step builds the action again. Its streams are those that their
texts stand for. Main statement: `Ready.action`.
-/

namespace Qua

/-- The keywords come behind an element, or there are none. -/
def WaitForTrigger.Separated (w : WaitForTrigger) : Prop :=
  w.elements ≠ [] ∨ w.pulse = none ∧ w.trigger = none ∧ w.timeTagTarget = none

/-- The step by which an action is built again that writes to the given streams. -/
def Action.rebuild (target : String → StreamTarget) : Action → Build Unit
  | .play p => Build.play p.pulse p.element (p.options (p.timestampStream.map target))
  | .measure m =>
    Build.measure m.pulse m.element
      (m.options (m.stream.map target) (m.timestampStream.map target))
  | .assign place value => Build.assign place value
  | .save source stream => Build.save source (target stream)
  | .fastFrameRotation cosine sine element => do
    Build.markFastFrameRotation
    Build.fastFrameRotation cosine sine element
  | .waitForTrigger w =>
    Build.waitForTrigger w.elements w.pulse w.trigger (w.timeTagTarget.map .named)
  | action => Build.act action

namespace Replay

open Script (IsPrimary IsOperand IsTerm IsSeparator)
open Text (IsIdentifier)

-- ---------------------------------------------------------------------------
-- Texts of calls
-- ---------------------------------------------------------------------------

/-- Keyword arguments behind the positional ones. -/
def Trails (s : State) (text : String) (entries : List (String × Value)) : Prop :=
  ∃ keywords, text = String.join (keywords.map (", " ++ ·)) ∧
    List.Forall₂ (KeywordMeans s) keywords entries

theorem Trails.nil : Trails s "" [] := ⟨[], rfl, .nil⟩

theorem Trails.append (h : Trails s text entries) (h' : Trails s text' entries') :
    Trails s (text ++ text') (entries ++ entries') := by
  obtain ⟨keywords, rfl, hk⟩ := h
  obtain ⟨keywords', rfl, hk'⟩ := h'
  exact ⟨keywords ++ keywords', by simp [String.join_append], List.rel_append hk hk'⟩

theorem Trails.one (hn : IsIdentifier name) (h : Means s text v) :
    Trails s (", " ++ name ++ "=" ++ text) [(name, v)] := by
  refine ⟨[name ++ "=" ++ text], ?_, .cons (.of hn h) .nil⟩
  simp [String.join, String.append_assoc]

theorem intercalate_append (sep first : String) (texts more : List String) :
    sep.intercalate (first :: texts ++ more) =
      sep.intercalate (first :: texts) ++ String.join (more.map (sep ++ ·)) := by
  induction texts generalizing first with
  | nil =>
    induction more generalizing first with
    | nil => simp
    | cons text more ih =>
      have h := ih text
      simp only [List.cons_append, List.nil_append] at h ⊢
      rw [String.intercalate_cons_cons, h]
      simp [String.append_assoc]
  | cons second texts ih =>
    simp only [List.cons_append] at ih ⊢
    rw [String.intercalate_cons_cons, ih, String.intercalate_cons_cons]
    simp [String.append_assoc]

/-- A comma and a blank. -/
theorem comma : IsSeparator ", " := .inr rfl

section

variable {s : State} {hs : List (String × Expression)}

/-- The call of a function by its name. -/
theorem Ready.call {name opening sep : String} (h : Ready hs s) (ho : opening = name ++ "(")
    (hn : IsIdentifier name) (hf : isAllocated name = false) (hsep : IsSeparator sep)
    (ha : List.Forall₂ (Means s) parts values)
    (ht : Takes (builtin name) (.of name values []) step) (hs : step s.draft = .ok (v, d)) :
    Yields IsPrimary s (opening ++ sep.intercalate parts ++ ")") v { s with draft := d } := by
  have hnone : List.Forall₂ (KeywordMeans s) [] [] := .nil
  have hy := yields_builtin hn (h.free name hf) h.inProgram hsep ha hnone (ht.perform hs)
  rw [List.append_nil] at hy
  rw [ho]
  exact hy

/-- The same with keyword arguments. -/
theorem Ready.callWith {name opening : String} (h : Ready hs s) (ho : opening = name ++ "(")
    (hn : IsIdentifier name) (hf : isAllocated name = false)
    (ha : List.Forall₂ (Means s) (first :: parts) values) (hk : Trails s trail entries)
    (ht : Takes (builtin name) (.of name values entries) step) (hs : step s.draft = .ok (v, d)) :
    Yields IsPrimary s (opening ++ String.intercalate ", " (first :: parts) ++ trail ++ ")") v
      { s with draft := d } := by
  obtain ⟨keywords, rfl, hk⟩ := hk
  have hy := yields_builtin hn (h.free name hf) h.inProgram comma ha hk (ht.perform hs)
  rw [intercalate_append] at hy
  rw [ho]
  simpa only [String.append_assoc] using hy

-- ---------------------------------------------------------------------------
-- Pulses
-- ---------------------------------------------------------------------------

theorem Ready.amp (h : Ready hs s) {amp : Amp} (he : ∀ e ∈ amp.expressions, e.Over hs) :
    ∃ text, amp.render = .ok text ∧ OperandMeans s text (.amp amp) := by
  cases amp with
  | scalar value =>
    obtain ⟨text, hr, ht⟩ := h.expression (he value List.mem_cons_self)
    have hcall := h.call (show "amp(" = "amp" ++ "(" by decide) (by decide) (by decide)
      (.inr rfl) (.cons ht.term .nil) (amp_takes [value]) rfl
    rw [String.intercalate_singleton] at hcall
    exact ⟨_, by rw [Amp.render, hr]; rfl, hcall.operand⟩
  | matrix values =>
    obtain ⟨texts, hr, ht⟩ := h.expressions he
    have hcall := h.call (show "amp(" = "amp" ++ "(" by decide) (by decide) (by decide)
      (.inr rfl) ht (amp_takes values.toList) rfl
    refine ⟨_, ?_, hcall.operand⟩
    change (_ <$> values.toList.mapM Expression.render) >>= _ = _
    rw [show values.toList.mapM Expression.render = .ok texts from hr]
    rfl

theorem Ready.pulse (h : Ready hs s) {pulse : Pulse} (he : ∀ e ∈ pulse.expressions, e.Over hs) :
    ∃ text v, pulse.render = .ok text ∧ OperandMeans s text v ∧ v.toPulse = .ok (pulse, none) ∧
      ∀ amp, binary .star v (.amp amp) = .ok (.pulse pulse (some amp)) := by
  cases pulse with
  | named name => exact ⟨_, _, rfl, (means_string name).operand, rfl, fun _ => rfl⟩
  | ramp rate =>
    obtain ⟨text, hr, ht⟩ := h.expression (he rate List.mem_cons_self)
    have hcall := h.call (show "ramp(" = "ramp" ++ "(" by decide) (by decide) (by decide)
      (.inr rfl) (.cons ht.term .nil) (ramp_takes rate) rfl
    rw [String.intercalate_singleton] at hcall
    exact ⟨_, _, by rw [Pulse.render, hr]; rfl, hcall.operand, rfl, fun _ => rfl⟩

/-- A pulse and what scales it. -/
theorem Ready.scaledPulse (h : Ready hs s) {pulse : Pulse} {amp : Option Amp}
    (hp : ∀ e ∈ pulse.expressions, e.Over hs)
    (ha : ∀ e ∈ amp.toList.flatMap Amp.expressions, e.Over hs) :
    ∃ text scale v, pulse.render = .ok text ∧ Amp.renderOptional amp = .ok scale ∧
      Means s (text ++ scale) v ∧ v.toPulse = .ok (pulse, amp) := by
  obtain ⟨text, v, hr, ht, hv, hstar⟩ := h.pulse hp
  cases amp with
  | none => exact ⟨text, "", v, hr, rfl, by rw [String.append_empty]; exact ht.term, hv⟩
  | some amp =>
    have ha : ∀ e ∈ amp.expressions, e.Over hs := by simpa using ha
    obtain ⟨scale, hs, hm⟩ := h.amp ha
    have hlevel : Script.Operator.level? .star = some 7 := rfl
    have hb := means_binary ht hm hlevel (by decide) (hstar amp)
    refine ⟨text, "*" ++ scale, .pulse pulse (some amp), hr, ?_, ?_, rfl⟩
    · rw [Amp.renderOptional, hs]
      rfl
    · rw [← String.append_assoc]
      exact hb

-- ---------------------------------------------------------------------------
-- Keywords of pulses
-- ---------------------------------------------------------------------------

theorem Ready.keyword (h : Ready hs s) (hn : IsIdentifier name) {value : Option Expression}
    (he : ∀ e ∈ value, e.Over hs) :
    ∃ text, renderKeyword name value = .ok text ∧
      Trails s text (keywordOf name (value.map Expression.replayed)) := by
  cases value with
  | none => exact ⟨"", rfl, .nil⟩
  | some e =>
    obtain ⟨text, hr, ht⟩ := h.expression (he e rfl)
    refine ⟨_, ?_, .one hn ht.term⟩
    rw [renderKeyword, hr]
    rfl

theorem trails_text (hn : IsIdentifier name) (text : Option String) :
    Trails s (text.elim "" fun text => ", " ++ name ++ "=" ++ Text.quote text)
      (keywordOf name (text.map .string)) := by
  cases text with
  | none => exact .nil
  | some text => exact .one hn (means_string text).means

/-- Where a piecewise rate changes, if it does. -/
theorem means_times {times : List Int64} (h : ∀ n ∈ times, n ≠ Int64.minValue) :
    Means s (if times.isEmpty then "None"
        else "[" ++ String.intercalate ", " (times.map integerText) ++ "]")
      (if times.isEmpty then .none else .list (times.map .int)) := by
  cases times.isEmpty with
  | true => exact means_none.means
  | false => exact (means_list (.inr rfl) (means_integers h)).means

theorem chirp_text (rate times units : String) :
    ", chirp=(" ++ rate ++ "," ++ times ++ "," ++ units ++ ")" =
      ", " ++ "chirp" ++ "=" ++ ("(" ++ String.intercalate "," [rate, times, units] ++ ")") := by
  have hprefix : ", chirp=(" = ", " ++ ("chirp" ++ ("=" ++ "(")) := by decide
  simp only [ hprefix, String.intercalate_cons_cons, String.intercalate_singleton,
    String.append_assoc]

theorem Ready.chirp (h : Ready hs s) {chirp : Option Chirp} (he : ∀ c ∈ chirp, c.rate.Over hs)
    (hi : ∀ c ∈ chirp, ∀ n ∈ c.times, n ≠ Int64.minValue) :
    ∃ text, (match chirp with
        | none => pure ""
        | some chirp => chirp.render) = Except.ok text ∧
      Trails s text
        (keywordOf "continue_chirp" (if chirp.any Chirp.continues then some (.bool true) else none) ++
          keywordOf "chirp" (chirp.map chirpValue)) := by
  cases chirp with
  | none => exact ⟨"", rfl, .nil⟩
  | some c =>
    obtain ⟨rate, hr, ht⟩ := h.expression (he c rfl)
    have hcontinues : Trails s (if c.continues then ", continue_chirp=True" else "")
        (keywordOf "continue_chirp" (if c.continues then some (.bool true) else none)) := by
      cases c.continues with
      | false => exact .nil
      | true => exact .one (show IsIdentifier "continue_chirp" by decide) (means_bool true).means
    have hsep : IsSeparator "," := .inl rfl
    have htuple := means_tuple (s := s) hsep
      (.cons ht.term (.cons (means_times (hi c rfl)) (.cons (means_string c.units.name).means .nil)))
      (by simp)
    have hchirp := Trails.one (show IsIdentifier "chirp" by decide) htuple.means
    rw [← chirp_text] at hchirp
    refine ⟨_, ?_, hcontinues.append hchirp⟩
    simp only [Chirp.render, hr, String.append_assoc]
    rfl

theorem trails_timestamps {stream : Option String} {written : String → String}
    {target : String → StreamTarget}
    (h : ∀ name ∈ stream, Means s (written name) (.ofTarget (target name))) :
    Trails s (timestampKeyword (stream.map written))
      (keywordOf "timestamp_stream" ((stream.map target).map .ofTarget)) := by
  cases stream with
  | none => exact .nil
  | some name => exact .one (show IsIdentifier "timestamp_stream" by decide) (h name rfl)

-- ---------------------------------------------------------------------------
-- Actions
-- ---------------------------------------------------------------------------

theorem noValue_run {step : Build Unit} {d d' : Draft} (h : step d = .ok ((), d')) :
    noValue step d = .ok (.none, d') := by
  rw [noValue, bind_run, h]
  rfl

theorem play_text (pulse scale element trail : String) :
    "play(" ++ pulse ++ scale ++ ", " ++ element ++ trail ++ ")" =
      "play(" ++ String.intercalate ", " [pulse ++ scale, element] ++ trail ++ ")" := by
  simp only [String.intercalate_cons_cons, String.intercalate_singleton, String.append_assoc]

theorem Ready.play (h : Ready hs s) {p : Play} (ho : (Action.play p).Over hs)
    {written : String → String} {target : String → StreamTarget}
    (hst : ∀ name ∈ p.timestampStream, Means s (written name) (.ofTarget (target name)))
    (hstep : Build.play p.pulse p.element (p.options (p.timestampStream.map target)) s.draft =
      .ok ((), d)) :
    ∃ text, Play.render { p with timestampStream := p.timestampStream.map written } = .ok text ∧
      Yields IsPrimary s text .none { s with draft := d } := by
  have he : ∀ e ∈ (Action.play p).expressions, e.Over hs := ho.expressions
  simp only [Action.expressions, List.mem_append, or_imp, forall_and] at he
  obtain ⟨⟨⟨⟨⟨hpulse, hamp⟩, hduration⟩, hcondition⟩, hrate⟩, htruncate⟩ := he
  have hi : ∀ c ∈ p.chirp, ∀ n ∈ c.times, n ≠ Int64.minValue := by
    intro c hc n hn
    exact ho.integers n (List.mem_flatMap.mpr ⟨c, by simpa using hc, hn⟩)
  obtain ⟨pulse, scale, v, hp, ha, hm, hv⟩ := h.scaledPulse hpulse hamp
  have hduration : ∀ e ∈ p.duration, e.Over hs := by simpa using hduration
  have hcondition : ∀ e ∈ p.condition, e.Over hs := by simpa using hcondition
  have hrate : ∀ c ∈ p.chirp, c.rate.Over hs := by simpa using hrate
  have htruncate : ∀ e ∈ p.truncate, e.Over hs := by simpa using htruncate
  obtain ⟨duration, hd, htd⟩ := h.keyword (show IsIdentifier "duration" by decide) hduration
  obtain ⟨condition, hc, htc⟩ := h.keyword (show IsIdentifier "condition" by decide) hcondition
  obtain ⟨chirp, hch, htch⟩ := h.chirp hrate hi
  obtain ⟨truncate, ht, htt⟩ := h.keyword (show IsIdentifier "truncate" by decide) htruncate
  have htg := trails_text (s := s) (show IsIdentifier "target" by decide) p.target
  have hts := trails_timestamps hst
  have htrail := htd.append (htc.append (htg.append (htch.append (htt.append hts))))
  have hcall := h.callWith (show "play(" = "play" ++ "(" by decide) (by decide) (by decide)
    (.cons hm (.cons (means_string p.element).means .nil)) htrail
    (by simpa only [playKeywords, List.append_assoc] using
      play_takes hv (p.timestampStream.map target))
    (noValue_run hstep)
  rw [← play_text] at hcall
  refine ⟨_, ?_, hcall⟩
  obtain ⟨_, element, amp, _, _, name, c, _, stream⟩ := p
  rw [Play.render]
  simp only [hp, ha, hd, hc, ht]
  -- The two keywords whose texts are made on the spot.
  have hkeyword : ", target=" = ", " ++ ("target" ++ "=") := by decide
  cases name <;> cases c <;>
  simp_all only [bind, Except.bind, pure, Except.pure, String.append_assoc, Option.elim,
    Except.ok.injEq]

theorem Ready.processes (h : Ready hs s) {processes : List MeasureProcess}
    (he : ∀ e ∈ processes.flatMap MeasureProcess.expressions, e.Over hs)
    (hi : ∀ n ∈ processes.flatMap MeasureProcess.integers, n ≠ Int64.minValue)
    (hp : ∀ process ∈ processes, process.Placed) :
    ∃ texts, processes.mapM MeasureProcess.render = .ok texts ∧
      List.Forall₂ (Means s) texts (processes.map .process) := by
  induction processes with
  | nil => exact ⟨[], rfl, .nil⟩
  | cons process processes ih =>
    simp only [List.flatMap_cons, List.mem_append, or_imp, forall_and, List.forall_mem_cons] at he hi hp
    obtain ⟨text, hr, ht⟩ := h.process he.1 hi.1 hp.1
    obtain ⟨texts, hrs, hts⟩ := ih he.2 hi.2 hp.2
    refine ⟨text :: texts, ?_, .cons ht hts⟩
    rw [List.mapM_cons, hr, hrs]
    rfl

theorem means_stream {stream : Option String} {written : String → String}
    {target : String → StreamTarget}
    (h : ∀ name ∈ stream, Means s (written name) (.ofTarget (target name))) :
    Means s ((stream.map written).getD "None") (streamValue (stream.map target)) := by
  cases stream with
  | none => exact means_none.means
  | some name => exact h name rfl

theorem Ready.measure (h : Ready hs s) {m : Measure} (ho : (Action.measure m).Over hs)
    {written : String → String} {target : String → StreamTarget}
    (hst : ∀ name ∈ (Action.measure m).streamNames, Means s (written name) (.ofTarget (target name)))
    (hstep : Build.measure m.pulse m.element
      (m.options (m.stream.map target) (m.timestampStream.map target)) s.draft = .ok ((), d)) :
    ∃ text, Measure.render { m with
        stream := m.stream.map written, timestampStream := m.timestampStream.map written } = .ok text ∧
      Yields IsPrimary s text .none { s with draft := d } := by
  have he : ∀ e ∈ (Action.measure m).expressions, e.Over hs := ho.expressions
  simp only [Action.expressions, List.mem_append, or_imp, forall_and] at he
  simp only [Action.streamNames, List.mem_append, Option.mem_toList, or_imp, forall_and] at hst
  have hpulse : ∀ e ∈ (Pulse.named m.pulse).expressions, e.Over hs := by simp [Pulse.expressions]
  obtain ⟨_, scale, v, hp, ha, hm, hv⟩ := h.scaledPulse hpulse he.1
  obtain rfl := Except.ok.inj hp
  obtain ⟨processes, hps, htp⟩ := h.processes he.2 ho.integers ho.formed
  have hcall := h.callWith (show "measure(" = "measure" ++ "(" by decide) (by decide) (by decide)
    (List.rel_append (.cons hm (.cons (means_string m.element).means
      (.cons (means_stream hst.1) .nil))) htp)
    (trails_timestamps hst.2)
    (measure_takes hv (m.stream.map target) (m.timestampStream.map target))
    (noValue_run hstep)
  refine ⟨_, ?_, hcall⟩
  rw [Measure.render]
  simp only [ha, hps]
  rfl

theorem forM_one (step : String → Build Unit) (element : String) :
    [element].forM step = step element := by
  change (step element >>= fun _ => pure ()) = _
  rw [bind_pure]

theorem joined_two (opening a b : String) :
    opening ++ a ++ ", " ++ b ++ ")" = opening ++ String.intercalate ", " [a, b] ++ ")" := by
  simp only [String.intercalate_cons_cons, String.intercalate_singleton, String.append_assoc]

theorem joined_three (opening a b c : String) :
    opening ++ a ++ ", " ++ b ++ ", " ++ c ++ ")" =
      opening ++ String.intercalate ", " [a, b, c] ++ ")" := by
  simp only [String.intercalate_cons_cons, String.intercalate_singleton, String.append_assoc]

theorem joined_four (opening a b c d : String) :
    opening ++ a ++ ", " ++ b ++ ", " ++ c ++ ", " ++ d ++ ")" =
      opening ++ String.intercalate ", " [a, b, c, d] ++ ")" := by
  simp only [String.intercalate_cons_cons, String.intercalate_singleton, String.append_assoc]

/-- A call whose name is one of those of the build. -/
theorem Ready.builds {name opening sep : String} (h : Ready hs s) (ho : opening = name ++ "(")
    (hn : IsIdentifier name ∧ isAllocated name = false) (hsep : IsSeparator sep)
    (ha : List.Forall₂ (Means s) parts values)
    (ht : Takes (builtin name) (.of name values []) (noValue step))
    (hs : step s.draft = .ok ((), d)) :
    Yields IsPrimary s (opening ++ sep.intercalate parts ++ ")") .none { s with draft := d } :=
  h.call ho hn.1 hn.2 hsep ha ht (noValue_run hs)

theorem trails_pulse (pulse : Option String) :
    Trails s (match pulse with
        | some pulse => ", pulse_to_play=" ++ Text.quote pulse
        | none => "")
      (keywordOf "pulse_to_play" (pulse.map .string)) := by
  cases pulse with
  | none => exact .nil
  | some pulse => exact .one (show IsIdentifier "pulse_to_play" by decide) (means_string pulse).means

theorem trails_trigger (trigger : Option TriggerElement) :
    Trails s (match trigger with
        | some trigger => ", trigger_element=" ++ WaitForTrigger.renderTrigger trigger
        | none => "")
      (keywordOf "trigger_element" (trigger.map triggerValue)) := by
  cases trigger with
  | none => exact .nil
  | some trigger =>
    obtain ⟨element, output⟩ := trigger
    refine .one (show IsIdentifier "trigger_element" by decide) ?_
    cases output with
    | none => exact (means_string element).means
    | some output =>
      have ht := means_tuple (s := s) comma
        (means_quoted (s := s) [element, output]) (by simp)
      have htext := joined_two "(" (Text.quote element) (Text.quote output)
      rw [List.map_cons, List.map_cons, List.map_nil, ← htext] at ht
      exact ht.means

theorem Ready.trails_target (h : Ready hs s) (target : Option String) :
    (∀ name ∈ target, (Expression.named name).Over hs) →
    Trails s (match target with
        | some target => ", time_tag_target=" ++ target
        | none => "")
      (keywordOf "time_tag_target" ((target.map Expression.named).map Expression.replayed)) := by
  intro ht
  cases target with
  | none => exact .nil
  | some target =>
    exact .one (show IsIdentifier "time_tag_target" by decide) (h.named (ht target rfl)).means

theorem wait_text (elements pulse trigger target : String) :
    "wait_for_trigger(" ++ elements ++ pulse ++ trigger ++ target ++ ")" =
      "wait_for_trigger(" ++ elements ++ (pulse ++ (trigger ++ target)) ++ ")" := by
  simp only [String.append_assoc]

theorem wait_text_nil : WaitForTrigger.render ⟨[], none, none, none⟩ =
    "wait_for_trigger(" ++ String.intercalate ", " [] ++ ")" := by decide +kernel

theorem Ready.separatedTrigger (h : Ready hs s) {w : WaitForTrigger} (hw : w.Separated)
    (ht : ∀ name ∈ w.timeTagTarget, (Expression.named name).Over hs)
    (hstep : Build.waitForTrigger w.elements w.pulse w.trigger (w.timeTagTarget.map .named) s.draft =
      .ok ((), d)) :
    Yields IsPrimary s w.render .none { s with draft := d } := by
  have htakes := waitForTrigger_takes w
  obtain ⟨elements, pulse, trigger, target⟩ := w
  cases elements with
  | nil =>
    obtain hne | ⟨hpulse, htrigger, htarget⟩ := hw
    · exact absurd rfl hne
    · simp only at hpulse htrigger htarget
      subst hpulse htrigger htarget
      have hcall := h.call (show "wait_for_trigger(" = "wait_for_trigger" ++ "(" by decide)
        (by decide) (by decide) comma .nil htakes (noValue_run hstep)
      rw [wait_text_nil]
      exact hcall
  | cons first rest =>
    have hcall := h.callWith (show "wait_for_trigger(" = "wait_for_trigger" ++ "(" by decide)
      (by decide) (by decide) (means_quoted (first :: rest))
      ((trails_pulse pulse).append ((trails_trigger trigger).append (h.trails_target target ht)))
      htakes (noValue_run hstep)
    rw [← wait_text] at hcall
    exact hcall

theorem Ready.waitForTrigger (h : Ready hs s) {w : WaitForTrigger}
    (ho : (Action.waitForTrigger w).Over hs)
    (hstep : Build.waitForTrigger w.elements w.pulse w.trigger (w.timeTagTarget.map .named) s.draft =
      .ok ((), d)) :
    Yields IsPrimary s w.render .none { s with draft := d } := by
  refine h.separatedTrigger (.inl ho.formed) (fun name hn => ho.expressions _ ?_) hstep
  rw [Option.mem_def] at hn
  simp [Action.expressions, hn]

/-- The line of an action stands for a call that builds the action again. -/
theorem Ready.action (h : Ready hs s) {a : Action} (ho : a.Over hs)
    {written : String → String} {target : String → StreamTarget}
    (hst : ∀ name ∈ a.streamNames, Means s (written name) (.ofTarget (target name)))
    (hstep : a.rebuild target s.draft = .ok ((), d)) :
    ∃ text, (a.mapStreams written).render = .ok text ∧
      Yields IsPrimary s text .none { s with draft := d } := by
  have he := ho.expressions
  cases a with
  | play p =>
    exact h.play ho (by simpa [Action.streamNames] using hst) hstep
  | measure m => exact h.measure ho hst hstep
  | wait duration elements =>
    obtain ⟨text, hr, ht⟩ := h.expression (he duration List.mem_cons_self)
    have hcall := h.builds (show "wait(" = "wait" ++ "(" by decide) (by decide) (.inr rfl)
      (.cons ht.term (means_quoted elements)) (wait_takes elements duration) hstep
    exact ⟨_, by simp only [Action.mapStreams, Action.render, hr]; rfl, hcall⟩
  | align elements =>
    have hcall := h.builds (show "align(" = "align" ++ "(" by decide) (by decide) (.inr rfl)
      (means_quoted elements) (align_takes elements) hstep
    exact ⟨_, rfl, hcall⟩
  | assign place value =>
    obtain ⟨text, hr, ht⟩ := h.expression (he place List.mem_cons_self)
    obtain ⟨text', hr', ht'⟩ := h.expression (he value (by simp [Action.expressions]))
    have hcall := h.builds (show "assign(" = "assign" ++ "(" by decide) (by decide) (.inr rfl)
      (.cons ht.term (.cons ht'.term .nil)) (assign_takes place value) hstep
    rw [← joined_two] at hcall
    exact ⟨_, by simp only [Action.mapStreams, Action.render, hr, hr']; rfl, hcall⟩
  | save source stream =>
    obtain ⟨text, hr, ht⟩ := h.expression (he source List.mem_cons_self)
    have hcall := h.builds (show "save(" = "save" ++ "(" by decide) (by decide) (.inr rfl)
      (.cons ht.term (.cons (hst stream List.mem_cons_self) .nil)) (save_takes source (target stream))
      hstep
    rw [← joined_two] at hcall
    exact ⟨_, by simp only [Action.mapStreams, Action.render, hr]; rfl, hcall⟩
  | pause =>
    have hcall := h.builds (show "pause(" = "pause" ++ "(" by decide) (by decide) comma .nil
      pause_takes hstep
    exact ⟨_, rfl, hcall⟩
  | updateFrequency element value units keepPhase =>
    obtain ⟨text, hr, ht⟩ := h.expression (he value List.mem_cons_self)
    have hcall := h.builds (show "update_frequency(" = "update_frequency" ++ "(" by decide)
      (by decide) (.inr rfl)
      (.cons (means_string element).means (.cons ht.term
        (.cons (means_string units.name).means (.cons (means_bool keepPhase).means .nil))))
      (updateFrequency_takes element value units keepPhase) hstep
    rw [← joined_four] at hcall
    exact ⟨_, by simp only [Action.mapStreams, Action.render, hr]; rfl, hcall⟩
  | updateCorrection element correction =>
    obtain ⟨texts, hr, ht⟩ := h.expressions he
    have hcall := h.builds (show "update_correction(" = "update_correction" ++ "(" by decide)
      (by decide) (.inl rfl) (.cons (means_string element).means ht)
      (updateCorrection_takes element correction) hstep
    refine ⟨_, ?_, hcall⟩
    simp only [Action.mapStreams, Action.render,
      show correction.toList.mapM Expression.render = .ok texts from hr]
    rfl
  | setDcOffset element input offset =>
    obtain ⟨text, hr, ht⟩ := h.expression (he offset List.mem_cons_self)
    have hcall := h.builds (show "set_dc_offset(" = "set_dc_offset" ++ "(" by decide) (by decide)
      (.inr rfl) (.cons (means_string element).means (.cons (means_string input).means
        (.cons ht.term .nil))) (setDcOffset_takes element input offset) hstep
    rw [← joined_three] at hcall
    exact ⟨_, by simp only [Action.mapStreams, Action.render, hr]; rfl, hcall⟩
  | advanceInputStream stream =>
    obtain ⟨text, hr, ht⟩ := h.expression (he stream List.mem_cons_self)
    have hcall := h.builds (show "advance_input_stream(" = "advance_input_stream" ++ "(" by decide)
      (by decide) comma (.cons ht.term .nil) (advanceInputStream_takes stream) hstep
    rw [String.intercalate_singleton] at hcall
    exact ⟨_, by simp only [Action.mapStreams, Action.render, hr]; rfl, hcall⟩
  | resetPhase element =>
    have hcall := h.builds (show "reset_phase(" = "reset_phase" ++ "(" by decide) (by decide)
      comma (means_quoted [element]) (resetPhase_takes element) hstep
    exact ⟨_, rfl, hcall⟩
  | resetFrame element =>
    have hcall := h.builds (show "reset_frame(" = "reset_frame" ++ "(" by decide) (by decide)
      comma (means_quoted [element]) (resetFrame_takes [element])
      (by rwa [forM_one])
    exact ⟨_, rfl, hcall⟩
  | zRotation angle element =>
    obtain ⟨text, hr, ht⟩ := h.expression (he angle List.mem_cons_self)
    have hcall := h.builds (show "frame_rotation_2pi(" = "frame_rotation_2pi" ++ "(" by decide)
      (by decide) (.inr rfl) (.cons ht.term (means_quoted [element]))
      (frameRotation2pi_takes [element] angle) (by rwa [forM_one])
    rw [List.map_singleton, ← joined_two] at hcall
    exact ⟨_, by simp only [Action.mapStreams, Action.render, hr]; rfl, hcall⟩
  | rampToZero element duration =>
    cases duration with
    | none =>
      have hcall := h.builds (show "ramp_to_zero(" = "ramp_to_zero" ++ "(" by decide) (by decide)
        comma (means_quoted [element]) (rampToZero_takes element none) hstep
      refine ⟨_, ?_, hcall⟩
      simp only [Action.mapStreams, Action.render, String.append_empty]
      rfl
    | some duration =>
      have hcall := h.builds (show "ramp_to_zero(" = "ramp_to_zero" ++ "(" by decide) (by decide)
        (.inr rfl) (.cons (means_string element).means
          (.cons (means_integer (ho.integers duration List.mem_cons_self)).term .nil))
        (rampToZero_takes element (some duration)) hstep
      rw [← joined_two] at hcall
      refine ⟨_, ?_, hcall⟩
      simp only [Action.mapStreams, Action.render, String.append_assoc]
  | fastFrameRotation cosine sine element =>
    obtain ⟨text, hr, ht⟩ := h.expression (he cosine List.mem_cons_self)
    obtain ⟨text', hr', ht'⟩ := h.expression (he sine (by simp [Action.expressions]))
    have hcall := h.builds (show "fast_frame_rotation(" = "fast_frame_rotation" ++ "(" by decide)
      (by decide) (.inr rfl) (.cons ht.term (.cons ht'.term (means_quoted [element])))
      (fastFrameRotation_takes [element] cosine sine) (by rwa [forM_one])
    rw [List.map_singleton, ← joined_three] at hcall
    exact ⟨_, by simp only [Action.mapStreams, Action.render, hr, hr']; rfl, hcall⟩
  | waitForTrigger w => exact ⟨_, rfl, h.waitForTrigger ho hstep⟩

end

end Replay
end Qua
