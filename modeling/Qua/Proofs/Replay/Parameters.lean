import Qua.Proofs.Replay.Signatures

/-!
# The parameters of the functions

The signature of every function, scope and method that a script can call, and that each of them keeps to its
own. Main statements: `builtin_bounds`, `scope_bounds`, `moduleFunction_bounds` and `method_bounds`.
-/

namespace Qua.Replay

open Taking Signature

-- ---------------------------------------------------------------------------
-- Functions of a program
-- ---------------------------------------------------------------------------

/-- The parameters of a function that is called by its name. -/
def Signature.builtin : String → Signature
  | "declare" => { named := ["t", "value", "size"] }
  | "declare_input_stream" => { named := ["t", "name", "value", "size"] }
  | "declare_stream" => { named := ["adc_trace"] }
  | "play" =>
    { named := ["pulse", "element", "duration", "condition", "chirp", "truncate", "timestamp_stream",
        "continue_chirp", "target"] }
  | "measure" =>
    { named := ["pulse", "element", "stream"], variadic := true, keywordOnly := ["timestamp_stream"] }
  | "ramp" => { named := ["v"] }
  | "amp" => { variadic := true }
  | "wait" => { named := ["duration"], variadic := true }
  | "align" => { variadic := true }
  | "update_frequency" => { named := ["element", "new_frequency", "units", "keep_phase"] }
  | "update_correction" => { named := ["element", "c00", "c01", "c10", "c11"] }
  | "set_dc_offset" => { named := ["element", "element_input", "offset"] }
  | "reset_phase" => { named := ["element"] }
  | "reset_frame" => { variadic := true }
  | "frame_rotation" => { named := ["angle"], variadic := true }
  | "frame_rotation_2pi" => { named := ["angle"], variadic := true }
  | "fast_frame_rotation" => { named := ["cosine", "sine"], variadic := true }
  | "ramp_to_zero" => { named := ["element", "duration"] }
  | "wait_for_trigger" =>
    { variadic := true, keywordOnly := ["pulse_to_play", "trigger_element", "time_tag_target"] }
  | "assign" => { named := ["var", "_exp"] }
  | "save" => { named := ["var", "stream_or_tag"] }
  | "advance_input_stream" => { named := ["input_stream"] }
  | "call_library_function" => { named := ["lib_name", "func_name", "args"] }
  | "for_cond" => { named := ["cond"] }
  | _ => {}

theorem declare_bounds : Bounds (.builtin "declare") 0 declare :=
  bounds_required rfl fun _ => (advances_read rfl _).then fun _ => (advances_read rfl _).then fun _ =>
    (quiet_pure _).bounds

theorem declareInputStream_bounds : Bounds (.builtin "declare_input_stream") 0 declareInputStream :=
  bounds_required rfl fun _ => (advances_text rfl).then fun _ => (advances_read rfl _).then fun _ =>
    (advances_read rfl _).then fun _ => (quiet_pure _).bounds

theorem play_bounds : Bounds (.builtin "play") 0 play :=
  bounds_required rfl fun _ => (advances_text rfl).then fun _ =>
    bounds_optional rfl fun _ => bounds_optional rfl fun _ => bounds_optional rfl fun _ =>
    bounds_optional rfl fun _ => bounds_optional rfl fun _ => (advances_flag rfl).then fun _ =>
    bounds_optional rfl fun _ => (quiet_pure _).bounds

/-- The processes are behind the stream, whose timestamps only have a keyword. -/
theorem measure_bounds : Bounds (.builtin "measure") 0 measure := by
  refine bounds_required rfl fun (pulse, amp) => ?_
  cases pulse with
  | ramp => exact (quiet_throw _).bounds
  | named pulse =>
    exact (advances_text rfl).then fun _ => bounds_optional rfl fun _ =>
      bounds_keyword List.mem_cons_self fun _ => (bounds_rest rfl).bind fun _ =>
      (quiet_mapM (fun _ => quiet_lift _) _).bind fun _ => quiet_pure _

theorem amp_bounds : Bounds (.builtin "amp") 0 amp :=
  (bounds_rest rfl).bind fun _ => (quiet_mapM (fun _ => quiet_lift _) _).bind fun _ => quiet_pure _

theorem updateFrequency_bounds : Bounds (.builtin "update_frequency") 0 updateFrequency :=
  (advances_text rfl).then fun _ => (advances_expression rfl).then fun _ =>
    (advances_choice rfl _).then fun _ => (advances_flag rfl).then fun _ => (quiet_pure _).bounds

theorem updateCorrection_bounds : Bounds (.builtin "update_correction") 0 updateCorrection :=
  (advances_text rfl).then fun _ => (advances_expression rfl).then fun _ =>
    (advances_expression rfl).then fun _ => (advances_expression rfl).then fun _ =>
    (advances_expression rfl).then fun _ => (quiet_pure _).bounds

theorem waitForTrigger_bounds : Bounds (.builtin "wait_for_trigger") 0 waitForTrigger :=
  bounds_keyword (by decide) fun _ => bounds_keyword (by decide) fun _ =>
    bounds_keyword (by decide) fun _ => (bounds_texts rfl).bind fun _ => quiet_pure _

theorem callLibraryFunction_bounds : Bounds (.builtin "call_library_function") 0 callLibraryFunction := by
  refine (advances_text rfl).then fun library => ?_
  split
  · exact (quiet_throw _).bounds
  · exact (advances_text rfl).then fun _ => bounds_required rfl fun _ =>
      ((quiet_mapM (fun _ => quiet_lift _) _).bind fun _ => quiet_pure _).bounds

/-- The elements behind the first parameters. -/
theorem bounds_elements {sig : Signature} {next : Nat} {g : List String → α} (hv : sig.variadic = true) :
    sig.Bounds next (texts next >>= fun elements => pure (g elements)) :=
  (bounds_texts hv).bind fun _ => quiet_pure _

theorem builtin_bounds (name : String) : Bounds (.builtin name) 0 (Replay.builtin name) := by
  unfold Replay.builtin
  split
  · exact declare_bounds
  · exact declareInputStream_bounds
  · exact (advances_flag rfl).then fun _ => (quiet_pure _).bounds
  · exact play_bounds
  · exact measure_bounds
  · exact (advances_expression rfl).then fun _ => (quiet_pure _).bounds
  · exact amp_bounds
  · exact (advances_expression rfl).then fun _ => bounds_elements rfl
  · exact bounds_elements rfl
  · exact (quiet_pure _).bounds
  · exact updateFrequency_bounds
  · exact updateCorrection_bounds
  · exact (advances_text rfl).then fun _ => (advances_text rfl).then fun _ =>
      (advances_expression rfl).then fun _ => (quiet_pure _).bounds
  · exact (advances_text rfl).then fun _ => (quiet_pure _).bounds
  · exact bounds_elements rfl
  · exact (advances_expression rfl).then fun _ => bounds_elements rfl
  · exact (advances_expression rfl).then fun _ => bounds_elements rfl
  · exact (advances_expression rfl).then fun _ => (advances_expression rfl).then fun _ => bounds_elements rfl
  · exact (advances_text rfl).then fun _ => bounds_optional rfl fun _ => (quiet_pure _).bounds
  · exact waitForTrigger_bounds
  · exact (advances_expression rfl).then fun _ => (advances_expression rfl).then fun _ => (quiet_pure _).bounds
  · exact (advances_expression rfl).then fun _ => bounds_required rfl fun _ => (quiet_pure _).bounds
  · exact (advances_expression rfl).then fun _ => (quiet_pure _).bounds
  · exact callLibraryFunction_bounds
  · exact (advances_expression rfl).then fun _ => (quiet_pure _).bounds
  · exact (quiet_throw _).bounds

-- ---------------------------------------------------------------------------
-- Scopes
-- ---------------------------------------------------------------------------

/-- The parameters of a scope. -/
def Signature.scope : String → Signature
  | "if_" => { named := ["condition", "unsafe"] }
  | "elif_" => { named := ["condition"] }
  | "switch_" => { named := ["expression", "unsafe"] }
  | "case_" => { named := ["case_exp"] }
  | "for_" => { named := ["var", "init", "cond", "update"] }
  | "while_" => { named := ["cond"] }
  | "for_each_" => { named := ["var", "values"] }
  | _ => {}

theorem forEach_bounds : Bounds (.scope "for_each_") 0 forEach :=
  (advances_required rfl).then fun _ => (advances_required rfl).then fun _ => (quiet_lift _).then fun _ =>
    ((quiet_mapM (fun _ => quiet_lift _) _).bind fun _ => quiet_pure _).bounds

/-- Without arguments, the loop takes none. -/
theorem countedLoop_bounds : Bounds (.scope "for_") 0 countedLoop := by
  refine quiet_get.then fun a => ?_
  split
  · exact (quiet_pure _).bounds
  · exact (advances_expression rfl).then fun _ => (advances_expression rfl).then fun _ =>
      (advances_expression rfl).then fun _ => (advances_expression rfl).then fun _ => (quiet_pure _).bounds

theorem scope_bounds (name : String) : Bounds (.scope name) 0 (Replay.scope name) := by
  unfold Replay.scope
  split
  · exact (advances_expression rfl).then fun _ => (advances_flag rfl).then fun _ => (quiet_pure _).bounds
  · exact (advances_expression rfl).bounds.map _
  · exact (quiet_pure _).bounds
  · exact (advances_expression rfl).then fun _ => (advances_flag rfl).then fun _ => (quiet_pure _).bounds
  · exact (advances_expression rfl).bounds.map _
  · exact (quiet_pure _).bounds
  · exact countedLoop_bounds
  · exact (quiet_pure _).bounds
  · exact (quiet_pure _).bounds
  · exact (quiet_pure _).bounds
  · refine (advances_optional rfl).then fun condition => ?_
    cases condition with
    | none => exact (quiet_pure _).bounds
    | some condition => exact ((quiet_lift _).bind fun _ => quiet_pure _).bounds
  · exact (quiet_pure _).bounds
  · exact forEach_bounds
  · exact (quiet_pure _).bounds
  · exact (quiet_pure _).bounds
  · exact (quiet_throw _).bounds

-- ---------------------------------------------------------------------------
-- Modules
-- ---------------------------------------------------------------------------

namespace Signature

/-- The parameters of a demodulation or integration with one pair of weights and output. -/
def single : String → Signature
  | "full" => { named := ["iw", "target", "element_output"] }
  | "sliced" => { named := ["iw", "target", "samples_per_chunk", "element_output"] }
  | "accumulated" => { named := ["iw", "target", "samples_per_chunk", "element_output"] }
  | "moving_window" =>
    { named := ["iw", "target", "samples_per_chunk", "chunks_per_window", "element_output"] }
  | _ => { named := ["iw", "target"] }

/-- The same with two pairs. -/
def dual : String → Signature
  | "full" => { named := ["iw1", "element_output1", "iw2", "element_output2", "target"] }
  | "sliced" =>
    { named := ["iw1", "element_output1", "iw2", "element_output2", "samples_per_chunk", "target"] }
  | "accumulated" =>
    { named := ["iw1", "element_output1", "iw2", "element_output2", "samples_per_chunk", "target"] }
  | "moving_window" =>
    { named := ["iw1", "element_output1", "iw2", "element_output2", "samples_per_chunk",
        "chunks_per_window", "target"] }
  | _ => { named := ["iw1", "element_output1", "iw2", "element_output2"] }

def process (module name : String) : Signature :=
  match module with
  | "demod" => single name
  | "integration" => single name
  | "dual_demod" => dual name
  | "dual_integration" => dual name
  | "time_tagging" => { named := ["target", "max_time", "targetLen", "element_output"] }
  | "counting" => { named := ["target", "max_time", "element_outputs"] }
  | _ => {}

def streamFunction : String → Signature
  | "average" => { named := ["axis"] }
  | "dot_product" => { named := ["vector"] }
  | "multiply_by" => { named := ["scalar_or_vector"] }
  | "convolution" => { named := ["constant_vector", "mode"] }
  | "tuple_convolution" => { named := ["mode"] }
  | "fft" => { named := ["output"] }
  | "demod" => { named := ["frequency", "iw_cos", "iw_sin", "integrate"] }
  | _ => {}

/-- The parameters of a function of a module: a library takes its arguments by position. -/
def moduleFunction (module name : String) : Signature :=
  match Library.ofNamespace? module with
  | some _ => { variadic := true }
  | none => if module = functionsModule then streamFunction name else process module name

end Signature

theorem advances_output {sig : Signature} {next : Nat} (hn : sig.named[next]? = some "element_output") :
    sig.Advances next (next + 1) (output next) :=
  (advances_optional hn).bind fun _ => ((quiet_optionalAs _ _).bind fun _ => quiet_pure _).advances

theorem quiet_ofExpression (result : Except ExpressionError α) : Quiet (ofExpression result) :=
  quiet_lift _

theorem singleProcess_bounds (kind : AnalogKind) (module name : String) :
    Bounds (.single name) 0 (singleProcess kind module name) := by
  unfold Signature.single
  split
  · exact (advances_text rfl).then fun _ => (advances_expression rfl).then fun _ =>
      (advances_output rfl).then fun _ => (quiet_ofExpression _).bounds.map _
  · exact (advances_text rfl).then fun _ => (advances_expression rfl).then fun _ =>
      (advances_int rfl).then fun _ => (advances_output rfl).then fun _ =>
      (quiet_ofExpression _).bounds.map _
  · exact (advances_text rfl).then fun _ => (advances_expression rfl).then fun _ =>
      (advances_int rfl).then fun _ => (advances_output rfl).then fun _ =>
      (quiet_ofExpression _).bounds.map _
  · exact (advances_text rfl).then fun _ => (advances_expression rfl).then fun _ =>
      (advances_int rfl).then fun _ => (advances_int rfl).then fun _ => (advances_output rfl).then fun _ =>
      (quiet_ofExpression _).bounds.map _
  · refine (advances_text rfl).then fun _ => (advances_expression rfl).then fun _ => ?_
    split
    case h_5 => exact (quiet_throw _).bounds
    all_goals contradiction

theorem dualProcess_bounds (kind : AnalogKind) (name : String) :
    Bounds (.dual name) 0 (dualProcess kind name) := by
  unfold Signature.dual
  split
  · exact (advances_text rfl).then fun _ => (advances_text rfl).then fun _ => (advances_text rfl).then fun _ =>
      (advances_text rfl).then fun _ => (advances_expression rfl).then fun _ =>
      (quiet_ofExpression _).bounds.map _
  · exact (advances_text rfl).then fun _ => (advances_text rfl).then fun _ => (advances_text rfl).then fun _ =>
      (advances_text rfl).then fun _ => (advances_int rfl).then fun _ => (advances_expression rfl).then fun _ =>
      (quiet_ofExpression _).bounds.map _
  · exact (advances_text rfl).then fun _ => (advances_text rfl).then fun _ => (advances_text rfl).then fun _ =>
      (advances_text rfl).then fun _ => (advances_int rfl).then fun _ => (advances_expression rfl).then fun _ =>
      (quiet_ofExpression _).bounds.map _
  · exact (advances_text rfl).then fun _ => (advances_text rfl).then fun _ => (advances_text rfl).then fun _ =>
      (advances_text rfl).then fun _ => (advances_int rfl).then fun _ => (advances_int rfl).then fun _ =>
      (advances_expression rfl).then fun _ => (quiet_ofExpression _).bounds.map _
  · refine (advances_text rfl).then fun _ => (advances_text rfl).then fun _ => (advances_text rfl).then fun _ =>
      (advances_text rfl).then fun _ => ?_
    split
    case h_5 => exact (quiet_throw _).bounds
    all_goals contradiction

theorem timeTagging_bounds (name : String) :
    Bounds { named := ["target", "max_time", "targetLen", "element_output"] } 0 (timeTagging name) := by
  refine (advances_expression rfl).then fun _ => (advances_int rfl).then fun _ =>
    bounds_optional rfl fun _ => (advances_output rfl).then fun _ => ?_
  split
  · exact (quiet_ofExpression _).bounds
  · exact (quiet_throw _).bounds

theorem counting_bounds (name : String) :
    Bounds { named := ["target", "max_time", "element_outputs"] } 0 (counting name) := by
  unfold counting
  split
  · exact (advances_expression rfl).then fun _ => (advances_int rfl).then fun _ =>
      bounds_optional rfl fun _ => (quiet_ofExpression _).bounds
  · exact (quiet_throw _).bounds

theorem measureProcess_bounds (module name : String) :
    Bounds (.process module name) 0 (measureProcess module name) := by
  unfold measureProcess
  split
  · exact singleProcess_bounds _ _ name
  · exact singleProcess_bounds _ _ name
  · exact dualProcess_bounds _ name
  · exact dualProcess_bounds _ name
  · exact timeTagging_bounds name
  · exact counting_bounds name
  · exact (quiet_throw _).bounds

theorem streamFunction_bounds (name : String) :
    Bounds (.streamFunction name) 0 (Replay.streamFunction name) := by
  unfold Replay.streamFunction
  split
  · refine (advances_optional rfl).then fun axes => ?_
    cases axes with
    | none => exact (quiet_pure _).bounds
    | some axes => exact (quiet_lift _).bounds
  · exact bounds_required rfl fun _ => (quiet_pure _).bounds
  · exact (quiet_pure _).bounds
  · exact (advances_required rfl).then fun _ => (quiet_lift _).bounds
  · exact (quiet_pure _).bounds
  · exact bounds_required rfl fun _ => (advances_choice rfl _).then fun _ => (quiet_pure _).bounds
  · exact (advances_choice rfl _).bounds.map _
  · exact (advances_choice rfl _).bounds.map _
  · exact (quiet_pure _).bounds
  · exact bounds_required rfl fun _ => bounds_required rfl fun _ => bounds_required rfl fun _ =>
      bounds_optional rfl fun _ => (quiet_pure _).bounds
  · exact (quiet_throw _).bounds

theorem moduleFunction_bounds (inProgram : Bool) (module name : String) :
    Bounds (.moduleFunction module name) 0 (Replay.moduleFunction inProgram module name) := by
  unfold Replay.moduleFunction Signature.moduleFunction
  cases Library.ofNamespace? module with
  | some library =>
    dsimp only
    split
    · exact (bounds_rest rfl).bind fun _ => (quiet_mapM (fun _ => quiet_lift _) _).bind fun _ => quiet_pure _
    · exact (quiet_function.bind fun _ => quiet_throw _).bounds
  | none =>
    dsimp only
    split
    · exact (streamFunction_bounds name).bind fun _ => quiet_pure _
    · exact (measureProcess_bounds module name).bind fun _ => quiet_pure _

-- ---------------------------------------------------------------------------
-- Methods
-- ---------------------------------------------------------------------------

/-- The parameters of a method, whatever value it is one of. -/
def Signature.method : String → Signature
  | "buffer" => { variadic := true }
  | "buffer_and_skip" => { named := ["length", "skip"] }
  | "map" => { named := ["function"] }
  | "skip" => { named := ["length"] }
  | "skip_last" => { named := ["length"] }
  | "take" => { named := ["length"] }
  | "histogram" => { named := ["bins"] }
  | "zip" => { named := ["other"] }
  | "add" => { named := ["other"] }
  | "subtract" => { named := ["other"] }
  | "multiply" => { named := ["other"] }
  | "divide" => { named := ["other"] }
  | "save" => { named := ["tag"] }
  | "save_all" => { named := ["tag"] }
  | name => if mappedMethods.contains name then streamFunction name else {}

theorem Signature.method_mapped (h : mappedMethods.contains name = true) :
    method name = streamFunction name := by
  simp only [mappedMethods, List.contains_iff_mem, List.mem_cons, List.not_mem_nil, or_false] at h
  obtain rfl | rfl | rfl | rfl | rfl | rfl | rfl | rfl := h <;> rfl

theorem streamArithmetic_bounds (operator : ArithmeticOperator) (stream : StreamToken) :
    Bounds { named := ["other"] } 0 (streamArithmetic operator stream) :=
  bounds_required rfl fun _ => (quiet_pure _).bounds

theorem streamMethod_bounds (name : String) (stream : StreamToken) :
    Bounds (.method name) 0 (streamMethod name stream) := by
  unfold streamMethod
  split
  · exact (quiet_pure _).bounds
  · exact (bounds_rest rfl).bind fun _ => (quiet_mapM (fun _ => quiet_lift _) _).bind fun _ => quiet_pure _
  · exact (advances_int rfl).then fun _ => (advances_int rfl).then fun _ => (quiet_pure _).bounds
  · refine (advances_required rfl).then fun function => Quiet.bounds ?_
    split
    · exact quiet_pure _
    · exact quiet_lift _
  · exact (quiet_pure _).bounds
  · exact (advances_int rfl).then fun _ => (quiet_pure _).bounds
  · exact (advances_int rfl).then fun _ => (quiet_pure _).bounds
  · exact (advances_int rfl).then fun _ => (quiet_pure _).bounds
  · exact bounds_required rfl fun _ => ((quiet_mapM (fun _ => quiet_lift _) _).bind fun _ => quiet_pure _).bounds
  · refine (advances_required rfl).then fun other => Quiet.bounds ?_
    split
    · exact quiet_pure _
    · exact quiet_pure _
    · exact quiet_lift _
  · exact streamArithmetic_bounds _ _
  · exact streamArithmetic_bounds _ _
  · exact streamArithmetic_bounds _ _
  · exact streamArithmetic_bounds _ _
  · split
    · next hmapped =>
      rw [Signature.method_mapped hmapped]
      exact (streamFunction_bounds name).bind fun _ => quiet_pure _
    · exact (quiet_throw _).bounds

theorem callStream_bounds (inProgram : Bool) (name : String) (stream : StreamToken) :
    Bounds (.method name) 0 (callStream inProgram name stream) := by
  unfold callStream
  split
  · next kind hsave =>
    have htag : (Signature.method name).named[0]? = some "tag" := by
      unfold saveMethod? at hsave
      split at hsave
      · rfl
      · rfl
      · cases hsave
    refine (advances_text htag).then fun _ => Quiet.bounds ?_
    split
    · exact quiet_pure _
    · exact quiet_throw _
  · exact (streamMethod_bounds name stream).bind fun _ => quiet_pure _

theorem method_bounds (inProgram : Bool) (receiver : Value) (name : String) :
    Bounds (.method name) 0 (Replay.method inProgram receiver name) := by
  unfold Replay.method
  split
  · split
    · exact ((quiet_ofExpression _).bind fun _ => quiet_pure _).bounds
    · exact (quiet_lift _).bounds
  · split
    · exact (quiet_pure _).bounds
    · exact callStream_bounds inProgram name _
  · exact callStream_bounds inProgram name _
  · exact (quiet_lift _).bounds

-- ---------------------------------------------------------------------------
-- Calls
-- ---------------------------------------------------------------------------

/-- The signature of what a call calls, where the names that are bound do not stand for modules. -/
def Signature.called (isBound : String → Bool) : Script.Term → Signature
  | .name name => builtin name
  | .attribute (.name module) name =>
    if !isBound module && isModule module then moduleFunction module name else method name
  | .attribute _ name => method name
  | _ => {}

end Qua.Replay
