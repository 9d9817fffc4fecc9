import Qua.Proofs.Configuration.Literal
import Qua.Proofs.Replay.WholeScript

/-!
# Configurations of scripts

The configuration at the end of a script is evaluated when the script is replayed. Integers of a script
have a sign and 64 bits, so that a configuration with larger ones is written but not read; with those
that fit, the script builds what its listing builds. Main statement:
`Program.toScript_replays_configured`.
-/

namespace Qua

namespace Replay

open Script (Term)
open Script.Term (value? values? members?)

mutual

/-- What a script makes of a value. -/
def Value.ofJson : Json → Value
  | .null => .none
  | .bool b => .bool b
  | .integer n => .int (Int64.ofInt n)
  | .real x => .float x
  | .string s => .string s
  | .array items => .list (Value.ofItems items)
  | .object _ => .dict

def Value.ofItems : List Json → List Value
  | [] => []
  | item :: rest => Value.ofJson item :: Value.ofItems rest

end

theorem Value.ofItems_eq (items : List Json) : ofItems items = items.map ofJson := by
  induction items with
  | nil => rfl
  | cons item rest ih => rw [ofItems, ih, List.map_cons]

/-- The bound of integers in a script. -/
def integerBound : Nat := 2 ^ 63

theorem integer_eq {n : UInt64} (h : n.toNat < integerBound) :
    integer n = .ok (.int (Int64.ofInt n.toNat)) := by
  have hmax : Int64.maxValue.toInt = integerBound - 1 := rfl
  have hvalue : n.toInt64 = Int64.ofInt n.toNat := by
    rw [Int64.ofInt_eq_ofNat, ← UInt64.toInt64_ofNat', UInt64.ofNat_toNat]
  rw [integer, if_pos (by omega), hvalue]

-- ---------------------------------------------------------------------------
-- Literals
-- ---------------------------------------------------------------------------

theorem value_unary_eq_some {operand : Term} (h : (Term.unary op operand).value? = some v) :
    op = .minus ∧ ((∃ n, operand.value? = some (.integer n) ∧ v = .integer (-n)) ∨
      ∃ x, operand.value? = some (.real x) ∧ v = .real (-x)) := by
  cases op with
  | minus =>
    rw [value?] at h
    split at h
    · next n hn => exact ⟨rfl, .inl ⟨n, hn, (Option.some.inj h).symm⟩⟩
    · next x hx => exact ⟨rfl, .inr ⟨x, hx, (Option.some.inj h).symm⟩⟩
    · contradiction
  | _ => simp [value?] at h

theorem value_binary_eq_some {left right : Term} (h : (Term.binary op left right).value? = some v) :
    ∃ items, left.value? = some (.array items) ∧
      ((op = .star ∧ ∃ n, right.value? = some (.integer n) ∧
        v = .array (List.replicate n.toNat items).flatten) ∨
      (op = .plus ∧ ∃ others, right.value? = some (.array others) ∧ v = .array (items ++ others))) := by
  cases op with
  | star =>
    rw [value?] at h
    split at h
    · next items n hitems hn => exact ⟨items, hitems, .inl ⟨rfl, n, hn, (Option.some.inj h).symm⟩⟩
    · contradiction
  | plus =>
    rw [value?] at h
    split at h
    · next items others hitems hothers =>
      exact ⟨items, hitems, .inr ⟨rfl, others, hothers, (Option.some.inj h).symm⟩⟩
    · contradiction
  | _ => simp [value?] at h

theorem members_cons_eq_some (h : members? before ((key, t) :: es) = some found) :
    ∃ name v, key = .string name ∧ t.value? = some v ∧
      members? (Json.insert name v before) es = some found := by
  cases key with
  | string name =>
    obtain ⟨v, hv, h⟩ := Option.bind_eq_some_iff.mp h
    exact ⟨name, v, rfl, hv, h⟩
  | _ => simp [members?] at h

/-- An integer is written with a sign at most. -/
theorem natAbs_of_value : (t : Term) → t.value? = some (.integer n) → t.Within bound → n.natAbs < bound
  | .int m, h, hb => by
    obtain rfl : (m.toNat : Int) = n := by simpa [value?] using h
    simpa [Term.Within] using hb
  | .unary op operand, h, hb => by
    obtain ⟨rfl, ⟨m, hm, hv⟩ | ⟨x, -, hv⟩⟩ := value_unary_eq_some h
    · obtain rfl := Json.integer.inj hv
      rw [Int.natAbs_neg]
      exact natAbs_of_value operand hm hb
    · contradiction
  | .binary _ left right, h, _ => by
    obtain ⟨_, -, ⟨-, _, -, hv⟩ | ⟨-, _, -, hv⟩⟩ := value_binary_eq_some h <;> contradiction
  | .list _, h, _ | .dict _, h, _ | .float _, h, _ | .string _, h, _ | .bool _, h, _ | .none, h, _
  | .name _, h, _ | .tuple _, h, _ | .call .., h, _ | .attribute .., h, _ | .index .., h, _ => by
    simp [value?] at h

-- ---------------------------------------------------------------------------
-- Evaluation
-- ---------------------------------------------------------------------------

theorem binary_star_ofJson {n : Int} (items : List Json) (h : n.natAbs < integerBound) :
    binary .star (.ofJson (.array items)) (.ofJson (.integer n)) =
      .ok (.ofJson (.array (List.replicate n.toNat items).flatten)) := by
  have hn : (Int64.ofInt n).toInt = n := by
    rw [integerBound] at h
    exact Int64.toInt_ofInt_of_le (by omega) (by omega)
  simp [Value.ofJson, binary, Value.isStream, repeated, hn, Value.ofItems_eq, List.map_flatten]

theorem binary_plus_ofJson (items others : List Json) :
    binary .plus (.ofJson (.array items)) (.ofJson (.array others)) =
      .ok (.ofJson (.array (items ++ others))) := by
  simp [Value.ofJson, binary, Value.isStream, Value.ofItems_eq]

theorem evaluate_binary {left right : Term} (hl : evaluate left s = .ok (v, s))
    (hr : evaluate right s = .ok (w, s)) (h : binary op v w = .ok value) :
    evaluate (.binary op left right) s = .ok (value, s) := by
  rw [evaluate, bind_run, hl]
  simp only
  rw [bind_run, hr]
  simp only [h]
  rfl

theorem evaluate_unary {operand : Term} (ho : evaluate operand s = .ok (v, s)) (h : unary op v = .ok value) :
    evaluate (.unary op operand) s = .ok (value, s) := by
  rw [evaluate, bind_run, ho]
  simp only [h]
  rfl

mutual

/-- A literal with integers that fit is evaluated as the value that it denotes, and changes nothing. -/
theorem evaluate_of_value : (t : Term) → t.value? = some v → t.Within integerBound → (s : State) →
    evaluate t s = .ok (.ofJson v, s)
  | .int n, h, hb, s => by
    obtain rfl := Option.some.inj h
    rw [evaluate, integer_eq hb]
    rfl
  | .float _, h, _, s | .string _, h, _, s | .bool _, h, _, s | .none, h, _, s => by
    obtain rfl := Option.some.inj h
    rw [evaluate]
    rfl
  | .list items, h, hb, s => by
    obtain ⟨vs, hvs, rfl⟩ := Option.map_eq_some_iff.mp h
    rw [evaluate, bind_run, evaluateAll_of_values items hvs hb s]
    rfl
  | .dict entries, h, hb, s => by
    obtain ⟨found, hfound, rfl⟩ := Option.map_eq_some_iff.mp h
    rw [evaluate, bind_run, evaluateEntries_of_members entries hfound hb s]
    rfl
  | .unary _ operand, h, hb, s => by
    obtain ⟨rfl, ⟨n, hn, rfl⟩ | ⟨x, hx, rfl⟩⟩ := value_unary_eq_some h
    · refine evaluate_unary (evaluate_of_value operand hn hb s) ?_
      rw [Value.ofJson, Value.ofJson, Int64.ofInt_neg]
      rfl
    · exact evaluate_unary (evaluate_of_value operand hx hb s) rfl
  | .binary _ left right, h, hb, s => by
    obtain ⟨items, hitems, ⟨rfl, n, hn, rfl⟩ | ⟨rfl, others, hothers, rfl⟩⟩ := value_binary_eq_some h
    · exact evaluate_binary (evaluate_of_value left hitems hb.1 s) (evaluate_of_value right hn hb.2 s)
        (binary_star_ofJson items (natAbs_of_value right hn hb.2))
    · exact evaluate_binary (evaluate_of_value left hitems hb.1 s) (evaluate_of_value right hothers hb.2 s)
        (binary_plus_ofJson items others)
  | .name _, h, _, _ | .tuple _, h, _, _ | .call .., h, _, _ | .attribute .., h, _, _
  | .index .., h, _, _ => by simp [value?] at h

theorem evaluateAll_of_values : (ts : List Term) → values? ts = some vs → Term.AllWithin integerBound ts →
    (s : State) → evaluateAll ts s = .ok (Value.ofItems vs, s)
  | [], h, _, s => by
    obtain rfl := Option.some.inj h
    rfl
  | t :: ts, h, hb, s => by
    obtain ⟨v, hv, h⟩ := Option.bind_eq_some_iff.mp h
    obtain ⟨vs, hvs, h⟩ := Option.bind_eq_some_iff.mp h
    obtain rfl := Option.some.inj h
    exact evaluateAll_cons (evaluate_of_value t hv hb.1 s) (evaluateAll_of_values ts hvs hb.2 s)

theorem evaluateEntries_of_members : (es : List (Term × Term)) → members? before es = some found →
    Term.EntriesWithin integerBound es → (s : State) → evaluateEntries es s = .ok ((), s)
  | [], _, _, s => rfl
  | (key, t) :: es, h, hb, s => by
    obtain ⟨name, v, rfl, hv, h⟩ := members_cons_eq_some h
    rw [evaluateEntries, bind_run, evaluate]
    simp only [pure_run]
    rw [bind_run, evaluate_of_value t hv hb.2.1 s]
    exact evaluateEntries_of_members es h hb.2.2 s

end

end Replay

-- ---------------------------------------------------------------------------
-- Whole scripts
-- ---------------------------------------------------------------------------

namespace Program

/-- A script with a configuration builds what the listing builds, for every configuration that has a
literal and whose integers fit into 64 bits with their sign. -/
theorem toScript_replays_configured {p q : Program} {text : String} (ht : p.text = .ok text)
    (hq : ofScript text = .ok q) (options : ScriptOptions) {v : Json} (hc : options.configuration = some v)
    (hw : v.WellFormed) (hb : v.Within Replay.integerBound) {literal : String}
    (hl : Configuration.literal v = .ok literal) :
    ∃ front replayed, p.toScript options = .ok (front ++ ("config = " ++ literal ++ "\n")) ∧
      ofScript (front ++ ("config = " ++ literal ++ "\n")) = .ok replayed ∧
      q.unlocated = replayed.unlocated := by
  have hconfiguration : options.configurationText = (literal, "") := by
    rw [ScriptOptions.configurationText, hc]
    simp only [hl]
  obtain ⟨comment, hcomment, hscript⟩ := toScript_eq ht hconfiguration
  obtain ⟨t, found, hspread, hvalue, -, hbound⟩ := Configuration.literal_spread v hw hl
  have hname : Text.IsIdentifier "config" := by decide
  obtain ⟨replayed, hreplayed, hsame⟩ := ofScript_continued hq (text_ended ht) options.blank_headerText
    hcomment hname hspread fun s => ⟨_, Replay.evaluate_of_value t hvalue (hbound _ hb) s⟩
  have htext : options.headerText ++ (text ++ (comment ++ Line.render ⟨0, "config" ++ " = " ++ literal⟩)) =
      options.headerText ++ text ++ comment ++ ("config = " ++ literal ++ "\n") := by
    rw [← String.toList_inj]
    simp [Line.render, Line.indentation]
  rw [htext] at hscript hreplayed
  exact ⟨_, replayed, hscript, hreplayed, hsame⟩

/-- The listing of a program without statements. -/
def emptyListing : String := "from qm.qua import *\n\nwith program() as prog:\n    pass\n"

theorem text_empty : ({} : Program).text = .ok emptyListing := by decide +kernel

theorem ofScript_emptyListing : ∃ q, ofScript emptyListing = .ok q := by
  have hreplays : (fun _ => ()) <$> ofScript emptyListing = .ok () := by
    rw [ofScript, Script.parse, show emptyListing = String.ofList _ from rfl, Script.lex_ofList]
    decide +kernel
  obtain ⟨q, hq, -⟩ := except_map_eq_ok.mp hreplays
  exact ⟨q, hq⟩

/-- A configuration of lists and objects, with the least and the greatest integer that is read. -/
def sampleConfiguration : Json :=
  .object [
    ("version", .integer (2 ^ 63 - 1)),
    ("offset", .integer (-(2 ^ 63 - 1))),
    ("waveforms", .object [("step", .array [.real ⟨0⟩, .real ⟨0⟩, .real ⟨0⟩, .string "end", .null])]),
    ("elements", .array [.object [("name", .string "qe1")], .object []])]

theorem toScript_replays_sampleConfiguration :
    ∃ q literal, ({} : Program).text = .ok emptyListing ∧ ofScript emptyListing = .ok q ∧
      sampleConfiguration.WellFormed ∧ sampleConfiguration.Within Replay.integerBound ∧
        Configuration.literal sampleConfiguration = .ok literal ∧ ∃ front replayed,
          ({} : Program).toScript { configuration := some sampleConfiguration } =
            .ok (front ++ ("config = " ++ literal ++ "\n")) ∧
          ofScript (front ++ ("config = " ++ literal ++ "\n")) = .ok replayed ∧
          q.unlocated = replayed.unlocated := by
  have hw : sampleConfiguration.WellFormed := by
    simp [sampleConfiguration, Json.WellFormed, Json.MembersWellFormed, Json.AllWellFormed]
    decide
  have hb : sampleConfiguration.Within Replay.integerBound := by
    simp [sampleConfiguration, Json.Within, Json.MembersWithin, Json.AllWithin, Replay.integerBound]
  obtain ⟨literal, hl⟩ : ∃ literal, Configuration.literal sampleConfiguration = .ok literal := ⟨_, rfl⟩
  obtain ⟨q, hq⟩ := ofScript_emptyListing
  exact ⟨q, literal, text_empty, hq, hw, hb, hl, toScript_replays_configured text_empty hq _ rfl hw hb hl⟩

/-- A configuration with the greatest integer of all. -/
def maskConfiguration : Json := .object [("mask", .integer 18446744073709551615)]

def maskScript : String :=
  "# Single QUA script generated by qua-rs\n# qua-rs version: 0.1.0\n\n" ++ emptyListing ++
    "\nconfig = \x7b\n    \"mask\": 18446744073709551615,\n\x7d\n"

/-- The integer has a literal, which is too large to be read in a script. -/
theorem toScript_not_replays_configured :
    (∃ q, ({} : Program).text = .ok emptyListing ∧ ofScript emptyListing = .ok q) ∧
      maskConfiguration.WellFormed ∧
      Configuration.literal maskConfiguration = .ok "\x7b\n    \"mask\": 18446744073709551615,\n\x7d" ∧
      ({} : Program).toScript { configuration := some maskConfiguration } = .ok maskScript ∧
      ofScript maskScript = .error ⟨.expression (.integerOutOfRange 18446744073709551615), some 9⟩ := by
  obtain ⟨q, hq⟩ := ofScript_emptyListing
  have hw : maskConfiguration.WellFormed := by
    simp only [maskConfiguration, Json.WellFormed, Json.MembersWellFormed]
    exact ⟨List.nodup_singleton _, by omega, trivial⟩
  have htext : maskScript = "# Single QUA script generated by qua-rs\n# qua-rs version: 0.1.0\n
from qm.qua import *

with program() as prog:
    pass

config = \x7b
    \"mask\": 18446744073709551615,
\x7d
" := by decide +kernel
  have hfails : (fun _ => ()) <$> ofScript maskScript =
      .error ⟨.expression (.integerOutOfRange 18446744073709551615), some 9⟩ := by
    set_option maxRecDepth 4000 in
    rw [ofScript, Script.parse, htext.trans (show _ = String.ofList _ from rfl), Script.lex_ofList]
    decide +kernel
  refine ⟨⟨q, text_empty, hq⟩, hw, by decide +kernel, by decide +kernel, ?_⟩
  cases he : ofScript maskScript with
  | ok _ =>
    rw [he] at hfails
    cases hfails
  | error e =>
    rw [he] at hfails
    exact congrArg _ (Except.error.inj hfails)

end Program
end Qua
