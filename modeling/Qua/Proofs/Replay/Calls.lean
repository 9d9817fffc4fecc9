import Qua.Proofs.Replay.Processes

/-!
# Calls that build actions

For each function that builds an action, the arguments that are written for it and the step it gives.
-/

namespace Qua

/-- The options by which a change of the frequency is built again. -/
def Chirp.options (c : Chirp) : ChirpOptions :=
  ⟨.expression c.rate, if c.times.isEmpty then none else some c.times, c.units.name⟩

/-- The options by which an action is built again that writes its timestamps to a stream. -/
def Play.options (p : Play) (stream : Option StreamTarget) : PlayOptions :=
  { amp := p.amp
    duration := p.duration
    condition := p.condition
    chirp := p.chirp.map Chirp.options
    truncate := p.truncate
    timestampStream := stream
    continueChirp := p.chirp.any Chirp.continues
    target := p.target }

def Measure.options (m : Measure) (stream timestamps : Option StreamTarget) : MeasureOptions :=
  { amp := m.amp
    stream := stream
    processes := m.processes
    timestampStream := timestamps }

namespace Replay

open Taking

-- ---------------------------------------------------------------------------
-- Values
-- ---------------------------------------------------------------------------

/-- The value of the text of a change of the frequency. -/
def chirpValue (c : Chirp) : Value :=
  .tuple [c.rate.replayed, if c.times.isEmpty then .none else .list (c.times.map .int),
    .string c.units.name]

theorem chirpRate_replayed (rate : Expression) : chirpRate rate.replayed = .ok (.expression rate) := by
  have hrate : chirpRate rate.replayed = ChirpRate.expression <$> rate.replayed.toExpression := by
    cases rate with
    | literal value => cases value <;> rfl
    | _ => rfl
  rw [hrate, toExpression_replayed]
  rfl

theorem chirp_chirpValue (c : Chirp) : chirp (chirpValue c) = .ok c.options := by
  have hints : (Value.list (c.times.map .int)).toInts = .ok c.times :=
    mapM_map_ok (v := Value.int) (fun _ => rfl) c.times
  rw [chirp, chirpValue]
  change (do
    let rate ← chirpRate c.rate.replayed
    let times ← if (if c.times.isEmpty then Value.none else .list (c.times.map .int)).isNone then
        pure none
      else some <$> (if c.times.isEmpty then Value.none else .list (c.times.map .int)).toInts
    let units ← (Value.string c.units.name).toText
    return (⟨rate, times, units⟩ : ChirpOptions)) = _
  rw [chirpRate_replayed, Chirp.options]
  cases hc : c.times.isEmpty with
  | true => rfl
  | false =>
    simp only [Bool.false_eq_true, if_false, hints]
    rfl

/-- The element whose signal is a trigger, and its output. -/
def triggerValue (trigger : TriggerElement) : Value :=
  match trigger.output with
  | some output => .tuple [.string trigger.element, .string output]
  | none => .string trigger.element

theorem triggerElement_triggerValue (trigger : TriggerElement) :
    triggerElement (triggerValue trigger) = .ok trigger := by
  obtain ⟨element, output⟩ := trigger
  cases output <;> rfl

theorem read_expression (e : Expression) :
    e.replayed.toExpression = .ok (id e) ∧ e.replayed.isNone = false :=
  ⟨toExpression_replayed e, isNone_replayed e⟩

theorem read_text (text : String) :
    (Value.string text).toText = .ok (id text) ∧ (Value.string text).isNone = false := ⟨rfl, rfl⟩

theorem read_target (target : StreamTarget) :
    (Value.ofTarget target).toStreamTarget = .ok (id target) ∧
      (Value.ofTarget target).isNone = false := by
  cases target <;> exact ⟨rfl, rfl⟩

theorem read_chirp (c : Chirp) :
    chirp (chirpValue c) = .ok c.options ∧ (chirpValue c).isNone = false :=
  ⟨chirp_chirpValue c, rfl⟩

theorem read_trigger (trigger : TriggerElement) :
    triggerElement (triggerValue trigger) = .ok (id trigger) ∧
      (triggerValue trigger).isNone = false := by
  refine ⟨triggerElement_triggerValue trigger, ?_⟩
  obtain ⟨element, output⟩ := trigger
  cases output <;> rfl

-- ---------------------------------------------------------------------------
-- Pulses and measurements
-- ---------------------------------------------------------------------------

/-- The keywords of `play`, each with its value if it has one, in the order in which they are written. -/
def playKeywords (p : Play) (stream : Option StreamTarget) : List (String × Value) :=
  keywordOf "duration" (p.duration.map Expression.replayed) ++
    (keywordOf "condition" (p.condition.map Expression.replayed) ++
      (keywordOf "target" (p.target.map .string) ++
        (keywordOf "continue_chirp" (if p.chirp.any Chirp.continues then some (.bool true) else none) ++
          (keywordOf "chirp" (p.chirp.map chirpValue) ++
            (keywordOf "truncate" (p.truncate.map Expression.replayed) ++
              keywordOf "timestamp_stream" (stream.map .ofTarget))))))

theorem play_takes {v : Value} {p : Play} (hv : v.toPulse = .ok (p.pulse, p.amp))
    (stream : Option StreamTarget) :
    Takes (builtin "play") (.of "play" [v, .string p.element] (playKeywords p stream))
      (noValue (Build.play p.pulse p.element (p.options stream))) := by
  rw [Arguments.of_eq, playKeywords]
  simp only [List.map_append, map_keywordOf]
  change Takes play _ _
  refine .required (.of_lift hv (.text ?_))
  refine .optional_keyword (by decide) ?_
  simp only [splitKeyword_same, splitKeyword_other, splitKeyword_last_other, ne_eq,
    not_false_eq_true, String.reduceEq]
  refine .read_optional (fun e _ => read_expression e) ?_
  refine .optional_keyword (by decide) ?_
  simp only [splitKeyword_same, splitKeyword_other, splitKeyword_last_other, ne_eq,
    not_false_eq_true, String.reduceEq]
  refine .read_optional (fun e _ => read_expression e) ?_
  refine .optional_keyword (by decide) ?_
  simp only [splitKeyword_same, splitKeyword_other, splitKeyword_last_other, ne_eq,
    not_false_eq_true, String.reduceEq]
  refine .read_optional (fun c _ => read_chirp c) ?_
  refine .optional_keyword (by decide) ?_
  simp only [splitKeyword_same, splitKeyword_other, splitKeyword_last_other, ne_eq,
    not_false_eq_true, String.reduceEq]
  refine .read_optional (fun e _ => read_expression e) ?_
  refine .optional_keyword (by decide) ?_
  simp only [splitKeyword_other, splitKeyword_last, ne_eq,
    not_false_eq_true, String.reduceEq]
  refine .read_optional (fun target _ => read_target target) ?_
  refine .flag_keyword (by decide) (b := p.chirp.any Chirp.continues) ?_ ?_
  · simp only [splitKeyword_same, splitKeyword_other, splitKeyword_last_other, ne_eq,
      not_false_eq_true, String.reduceEq]
  simp only [splitKeyword_same, splitKeyword_other, splitKeyword_last_other, ne_eq,
    not_false_eq_true, String.reduceEq]
  refine .optional_keyword (by decide) ?_
  simp only [splitKeyword_same, splitKeyword_other, splitKeyword_last_other, ne_eq,
    not_false_eq_true, String.reduceEq]
  refine .read_optional (fun text _ => read_text text) ?_
  simp only [Option.map_id]
  refine .done _ ?_
  simp only [List.mem_append]
  rintro k (hk | hk | hk | hk | hk | hk | hk) <;> exact slot_taken hk

/-- A stream that is given, or `None`. -/
def streamValue : Option StreamTarget → Value
  | none => .none
  | some target => .ofTarget target

theorem measure_takes {v : Value} {m : Measure} (hv : v.toPulse = .ok (.named m.pulse, m.amp))
    (stream timestamps : Option StreamTarget) :
    Takes (builtin "measure")
      (.of "measure" ([v, .string m.element, streamValue stream] ++ m.processes.map .process)
        (keywordOf "timestamp_stream" (timestamps.map .ofTarget)))
      (noValue (Build.measure m.pulse m.element (m.options stream timestamps))) := by
  have hprocesses : (m.processes.map Value.process).mapM Value.toProcess = .ok m.processes :=
    mapM_map_ok (v := Value.process) (fun _ => rfl) m.processes
  rw [Arguments.of_eq]
  simp only [map_keywordOf]
  change Takes measure _ _
  refine .required (.of_lift hv (.text ?_))
  have hrest : Takes (do
      let timestampStream ← optionalAs Value.toStreamTarget (← keyword "timestamp_stream")
      let processes ← rest 3
      let processes ← processes.mapM fun value => liftM value.toProcess
      return noValue (Build.measure m.pulse m.element
        { amp := m.amp, stream, processes, timestampStream }))
      (.after "measure" 3 (m.processes.map .process)
        (slot false "timestamp_stream" (timestamps.map .ofTarget)))
      (noValue (Build.measure m.pulse m.element (m.options stream timestamps))) := by
    refine .keyword ?_
    simp only [splitKeyword_last]
    refine .read_optional (fun target _ => read_target target) (.allRest (.mapped hprocesses ?_))
    simp only [Option.map_id]
    exact .done _ fun k hk => slot_taken hk
  cases stream with
  | none => exact .given_none hrest
  | some stream => exact .given (read_target stream).1 (read_target stream).2 hrest

theorem ramp_takes (rate : Expression) :
    Takes (builtin "ramp") (.of "ramp" [rate.replayed] []) (pure (.pulse (.ramp rate) none)) :=
  .expression (toExpression_replayed rate) (.done _ (by simp))

theorem amp_takes (values : List Expression) :
    Takes (builtin "amp") (.of "amp" (values.map Expression.replayed) [])
      (Value.amp <$> Build.amp values) := by
  have hvalues := mapM_map_ok toExpression_replayed values
  exact .allRest (.mapped hvalues (.done _ (by simp)))

-- ---------------------------------------------------------------------------
-- Other actions
-- ---------------------------------------------------------------------------

section

variable (element : String) (elements : List String)

theorem wait_takes (duration : Expression) :
    Takes (builtin "wait") (.of "wait" (duration.replayed :: elements.map .string) [])
      (noValue (Build.act (.wait duration elements))) :=
  .expression (toExpression_replayed duration) (.texts (.done _ (by simp)))

theorem align_takes :
    Takes (builtin "align") (.of "align" (elements.map .string) [])
      (noValue (Build.act (.align elements))) :=
  .texts (.done _ (by simp))

theorem pause_takes : Takes (builtin "pause") (.of "pause" [] []) (noValue (Build.act .pause)) := by
  rw [Arguments.of_eq]
  exact .done _ (by simp)

theorem assign_takes (target value : Expression) :
    Takes (builtin "assign") (.of "assign" [target.replayed, value.replayed] [])
      (noValue (Build.assign target value)) :=
  .expression (toExpression_replayed target)
    (.expression (toExpression_replayed value) (.done _ (by simp)))

theorem save_takes (source : Expression) (stream : StreamTarget) :
    Takes (builtin "save") (.of "save" [source.replayed, .ofTarget stream] [])
      (noValue (Build.save source stream)) :=
  .expression (toExpression_replayed source)
    (.required (.of_lift (read_target stream).1 (.done _ (by simp))))

theorem updateFrequency_takes (value : Expression) (units : FrequencyUnits) (keepPhase : Bool) :
    Takes (builtin "update_frequency")
      (.of "update_frequency"
        [.string element, value.replayed, .string units.name, .bool keepPhase] [])
      (noValue (Build.act (.updateFrequency element value units keepPhase))) := by
  have hunits : FrequencyUnits.ofName? units.name = some units := by cases units <;> rfl
  exact .text (.expression (toExpression_replayed value)
    (.choice hunits (.flag (.done _ (by simp)))))

theorem updateCorrection_takes (correction : Matrix) :
    Takes (builtin "update_correction")
      (.of "update_correction" (.string element :: correction.toList.map Expression.replayed) [])
      (noValue (Build.act (.updateCorrection element correction))) :=
  .text (.expression (toExpression_replayed _) (.expression (toExpression_replayed _)
    (.expression (toExpression_replayed _) (.expression (toExpression_replayed _)
      (.done _ (by simp))))))

theorem setDcOffset_takes (input : String) (offset : Expression) :
    Takes (builtin "set_dc_offset")
      (.of "set_dc_offset" [.string element, .string input, offset.replayed] [])
      (noValue (Build.act (.setDcOffset element input offset))) :=
  .text (.text (.expression (toExpression_replayed offset) (.done _ (by simp))))

theorem advanceInputStream_takes (stream : Expression) :
    Takes (builtin "advance_input_stream") (.of "advance_input_stream" [stream.replayed] [])
      (noValue (Build.act (.advanceInputStream stream))) :=
  .expression (toExpression_replayed stream) (.done _ (by simp))

theorem resetPhase_takes :
    Takes (builtin "reset_phase") (.of "reset_phase" [.string element] [])
      (noValue (Build.act (.resetPhase element))) :=
  .text (.done _ (by simp))

theorem resetFrame_takes :
    Takes (builtin "reset_frame") (.of "reset_frame" (elements.map .string) [])
      (noValue (elements.forM Build.resetFrame)) :=
  .texts (.done _ (by simp))

theorem frameRotation2pi_takes (angle : Expression) :
    Takes (builtin "frame_rotation_2pi")
      (.of "frame_rotation_2pi" (angle.replayed :: elements.map .string) [])
      (noValue (elements.forM (Build.frameRotation2pi angle))) :=
  .expression (toExpression_replayed angle) (.texts (.done _ (by simp)))

theorem fastFrameRotation_takes (cosine sine : Expression) :
    Takes (builtin "fast_frame_rotation")
      (.of "fast_frame_rotation" (cosine.replayed :: sine.replayed :: elements.map .string) [])
      (noValue do
        Build.markFastFrameRotation
        elements.forM (Build.fastFrameRotation cosine sine)) :=
  .expression (toExpression_replayed cosine)
    (.expression (toExpression_replayed sine) (.texts (.done _ (by simp))))

theorem rampToZero_takes (duration : Option Int64) :
    Takes (builtin "ramp_to_zero")
      (.of "ramp_to_zero" (.string element :: duration.toList.map .int) [])
      (noValue (Build.act (.rampToZero element duration))) := by
  rw [Arguments.of_eq]
  cases duration with
  | none => exact .text (.optional_keyword (by simp) (.bind rfl (.done _ (by simp [splitKeyword_nil]))))
  | some duration => exact .text (.given rfl rfl (.done _ (by simp)))

theorem waitForTrigger_takes (w : WaitForTrigger) :
    Takes (builtin "wait_for_trigger")
      (.of "wait_for_trigger" (w.elements.map .string)
        (keywordOf "pulse_to_play" (w.pulse.map .string) ++
          (keywordOf "trigger_element" (w.trigger.map triggerValue) ++
            keywordOf "time_tag_target" ((w.timeTagTarget.map Expression.named).map Expression.replayed))))
      (noValue (Build.waitForTrigger w.elements w.pulse w.trigger (w.timeTagTarget.map .named))) := by
  rw [Arguments.of_eq]
  simp only [List.map_append, map_keywordOf]
  change Takes waitForTrigger _ _
  refine .keyword ?_
  simp only [splitKeyword_same, splitKeyword_other, splitKeyword_last_other, ne_eq,
    not_false_eq_true, String.reduceEq]
  refine .read_optional (fun text _ => read_text text) (.keyword ?_)
  simp only [splitKeyword_same, splitKeyword_other, splitKeyword_last_other, ne_eq,
    not_false_eq_true, String.reduceEq]
  refine .read_optional (fun trigger _ => read_trigger trigger) (.keyword ?_)
  simp only [splitKeyword_other, splitKeyword_last, ne_eq, not_false_eq_true, String.reduceEq]
  refine .read_optional (fun e _ => read_expression e) (.texts ?_)
  simp only [Option.map_id]
  refine .done _ ?_
  simp only [List.mem_append]
  rintro k (hk | hk | hk) <;> exact slot_taken hk

end

end Replay
end Qua
