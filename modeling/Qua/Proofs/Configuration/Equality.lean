import Mathlib
import Qua.Json
import Qua.Proofs.Sameness

/-!
# Equal JSON values

Equality takes the two zeros to be one and objects to be maps. On what a document can hold
(`Json.WellFormed`) it is an equivalence, for which it matters that no name occurs twice in an object
and that no real is NaN.
-/

namespace Qua

namespace Json

mutual

/-- What a document can hold: integers of 64 bits with or without a sign, finite reals, no more items
than an index can count, and no name twice in an object. -/
def WellFormed : Json → Prop
  | .integer n => -2 ^ 63 ≤ n ∧ n < 2 ^ 64
  | .real x => x.isFinite = true
  | .array items => items.length < UInt64.size ∧ AllWellFormed items
  | .object members => (members.map Prod.fst).Nodup ∧ MembersWellFormed members
  | _ => True

def AllWellFormed : List Json → Prop
  | [] => True
  | item :: rest => item.WellFormed ∧ AllWellFormed rest

def MembersWellFormed : List (String × Json) → Prop
  | [] => True
  | (_, value) :: rest => value.WellFormed ∧ MembersWellFormed rest

end

theorem allWellFormed_iff {items : List Json} :
    AllWellFormed items ↔ ∀ item ∈ items, item.WellFormed := by
  induction items with
  | nil => simp [AllWellFormed]
  | cons item rest ih => simp [AllWellFormed, ih]

theorem membersWellFormed_mem (h : MembersWellFormed members) (hm : (key, value) ∈ members) :
    value.WellFormed := by
  induction members with
  | nil => contradiction
  | cons member rest ih =>
    obtain ⟨name, other⟩ := member
    obtain ⟨rfl, rfl⟩ | hm := List.mem_cons.mp hm |>.imp_left Prod.mk.inj
    · exact h.1
    · exact ih h.2 hm

-- ---------------------------------------------------------------------------
-- Members by name
-- ---------------------------------------------------------------------------

theorem mem_of_lookup {members : List (String × Json)} (h : lookup key members = some value) :
    (key, value) ∈ members := by
  induction members with
  | nil => contradiction
  | cons member rest ih =>
    obtain ⟨name, other⟩ := member
    rw [lookup] at h
    split at h
    · next hname =>
      obtain rfl := Option.some.inj h
      simp [hname]
    · exact List.mem_cons_of_mem _ (ih h)

theorem lookup_of_mem {members : List (String × Json)} (hn : (members.map Prod.fst).Nodup)
    (h : (key, value) ∈ members) : lookup key members = some value := by
  induction members with
  | nil => contradiction
  | cons member rest ih =>
    obtain ⟨name, other⟩ := member
    obtain ⟨hname, hn⟩ := List.nodup_cons.mp hn
    rw [lookup]
    obtain ⟨rfl, rfl⟩ | h := List.mem_cons.mp h |>.imp_left Prod.mk.inj
    · simp
    · have hne : name ≠ key := by
        rintro rfl
        exact hname (List.mem_map.mpr ⟨_, h, rfl⟩)
      rw [if_neg hne, ih hn h]

/-- Every member of the one has its equal under its name in the other. -/
theorem sameMembers_iff {as bs : List (String × Json)} :
    sameMembers as bs = true ↔
      ∀ key value, (key, value) ∈ as → ∃ other, lookup key bs = some other ∧ same value other = true := by
  induction as with
  | nil => simp [sameMembers]
  | cons member rest ih =>
    obtain ⟨name, first⟩ := member
    rw [sameMembers, Bool.and_eq_true, ih]
    constructor
    · rintro ⟨hfirst, hrest⟩ key value hm
      obtain ⟨rfl, rfl⟩ | hm := List.mem_cons.mp hm |>.imp_left Prod.mk.inj
      · cases hl : lookup key bs with
        | none => simp [hl] at hfirst
        | some other => exact ⟨other, rfl, by simpa [hl] using hfirst⟩
      · exact hrest key value hm
    · intro h
      obtain ⟨other, hl, hs⟩ := h name first List.mem_cons_self
      exact ⟨by simpa [hl] using hs, fun key value hm => h key value (List.mem_cons_of_mem _ hm)⟩

/-- As many distinct names, all of them names of the other, are all the names of the other. -/
theorem names_subset {as bs : List (String × Json)} (hn : (as.map Prod.fst).Nodup)
    (hlength : as.length = bs.length) (h : sameMembers as bs = true) :
    ∀ key ∈ bs.map Prod.fst, key ∈ as.map Prod.fst := by
  have hsubset : as.map Prod.fst ⊆ bs.map Prod.fst := by
    intro key hkey
    obtain ⟨⟨_, value⟩, hm, rfl⟩ := List.mem_map.mp hkey
    obtain ⟨other, hl, -⟩ := sameMembers_iff.mp h _ _ hm
    exact List.mem_map.mpr ⟨_, mem_of_lookup hl, rfl⟩
  have hperm := (List.subperm_of_subset hn hsubset).perm_of_length_le (by simp [hlength])
  exact fun key hkey => hperm.mem_iff.mpr hkey

-- ---------------------------------------------------------------------------
-- Reflexivity
-- ---------------------------------------------------------------------------

mutual

theorem same_refl : (v : Json) → v.WellFormed → same v v = true
  | .null, _ => rfl
  | .bool _, _ | .integer _, _ | .string _, _ => by simp [same]
  | .real x, h => by
    simp [same, Binary64.same_iff, Binary64.not_isNaN_of_isFinite h]
  | .array items, h => by
    rw [same]
    exact sameItems_refl items h.2
  | .object members, h => by
    rw [same, sameMembers_refl members h.2 members fun key value hm => lookup_of_mem h.1 hm]
    simp

theorem sameItems_refl : (items : List Json) → AllWellFormed items → sameItems items items = true
  | [], _ => rfl
  | item :: rest, h => by
    rw [sameItems, same_refl item h.1, sameItems_refl rest h.2]
    rfl

theorem sameMembers_refl : (members : List (String × Json)) → MembersWellFormed members →
    (bs : List (String × Json)) → (∀ key value, (key, value) ∈ members → lookup key bs = some value) →
    sameMembers members bs = true
  | [], _, _, _ => rfl
  | (key, value) :: rest, h, bs, hl => by
    rw [sameMembers, hl key value List.mem_cons_self]
    simp only [same_refl value h.1, Bool.true_and]
    exact sameMembers_refl rest h.2 bs fun key value hm => hl key value (List.mem_cons_of_mem _ hm)

end

-- ---------------------------------------------------------------------------
-- Symmetry
-- ---------------------------------------------------------------------------

mutual

theorem same_symm : (a : Json) → a.WellFormed → (b : Json) → b.WellFormed → same a b = true →
    same b a = true
  | .null, _, b, _, h => by
    cases b <;> first | contradiction | rfl
  | .bool x, _, b, _, h => by
    cases b <;> first | contradiction | simp_all [same]
  | .integer n, _, b, _, h => by
    cases b <;> first | contradiction | simp_all [same]
  | .string s, _, b, _, h => by
    cases b <;> first | contradiction | simp_all [same]
  | .real x, ha, b, hb, h => by
    cases b with
    | real y =>
      simp only [same, Bool.and_eq_true, Binary64.same_iff] at h
      simp [same, Binary64.same_iff, h.1, Binary64.not_isNaN_of_isFinite hb]
    | _ => contradiction
  | .array as, ha, b, hb, h => by
    cases b with
    | array bs => exact sameItems_symm as ha.2 bs hb.2 h
    | _ => contradiction
  | .object as, ha, b, hb, h => by
    cases b with
    | object bs =>
      simp only [same, Bool.and_eq_true, beq_iff_eq] at h ⊢
      refine ⟨h.1.symm, sameMembers_iff.mpr fun key value hm => ?_⟩
      have hkey := names_subset ha.1 h.1 h.2 key (List.mem_map.mpr ⟨_, hm, rfl⟩)
      obtain ⟨⟨_, other⟩, hother, rfl⟩ := List.mem_map.mp hkey
      obtain ⟨value', hl, hs⟩ := sameMembers_iff.mp h.2 _ _ hother
      obtain rfl : value = value' := by
        have hvalue := lookup_of_mem hb.1 hm
        exact Option.some.inj (hvalue.symm.trans hl)
      exact ⟨other, lookup_of_mem ha.1 hother,
        sameMembers_symm as ha.2 _ other hother value (membersWellFormed_mem hb.2 hm) hs⟩
    | _ => contradiction

theorem sameItems_symm : (as : List Json) → AllWellFormed as → (bs : List Json) → AllWellFormed bs →
    sameItems as bs = true → sameItems bs as = true
  | [], _, bs, _, h => by
    cases bs <;> first | contradiction | rfl
  | a :: as, ha, bs, hb, h => by
    cases bs with
    | nil => contradiction
    | cons b bs =>
      simp only [sameItems, Bool.and_eq_true] at h ⊢
      exact ⟨same_symm a ha.1 b hb.1 h.1, sameItems_symm as ha.2 bs hb.2 h.2⟩

theorem sameMembers_symm : (members : List (String × Json)) → MembersWellFormed members →
    (key : String) → (a : Json) → (key, a) ∈ members → (b : Json) → b.WellFormed → same a b = true →
    same b a = true
  | (name, first) :: rest, h, key, a, hm, b, hb, hs => by
    by_cases hfirst : (key, a) = (name, first)
    · obtain ⟨rfl, rfl⟩ := Prod.mk.inj hfirst
      exact same_symm a h.1 b hb hs
    · exact sameMembers_symm rest h.2 key a ((List.mem_cons.mp hm).resolve_left hfirst) b hb hs

end

-- ---------------------------------------------------------------------------
-- Transitivity
-- ---------------------------------------------------------------------------

mutual

theorem same_trans : (a b c : Json) → same a b = true → same b c = true → same a c = true
  | .null, b, c, h, h' => by
    cases b <;> first | contradiction | exact h'
  | .bool x, b, c, h, h' => by
    cases b <;> cases c <;> first | contradiction | simp_all [same]
  | .integer n, b, c, h, h' => by
    cases b <;> cases c <;> first | contradiction | simp_all [same]
  | .string s, b, c, h, h' => by
    cases b <;> cases c <;> first | contradiction | simp_all [same]
  | .real x, b, c, h, h' => by
    cases b with
    | real y =>
      cases c with
      | real z =>
        simp only [same, Bool.and_eq_true, Binary64.same_iff] at h h' ⊢
        exact ⟨h.1.trans h'.1, h.2⟩
      | _ => contradiction
    | _ => contradiction
  | .array as, b, c, h, h' => by
    cases b with
    | array bs =>
      cases c with
      | array cs => exact sameItems_trans as bs cs h h'
      | _ => contradiction
    | _ => contradiction
  | .object as, b, c, h, h' => by
    cases b with
    | object bs =>
      cases c with
      | object cs =>
        simp only [same, Bool.and_eq_true, beq_iff_eq] at h h' ⊢
        exact ⟨h.1.trans h'.1, sameMembers_trans as bs cs h.2 h'.2⟩
      | _ => contradiction
    | _ => contradiction

theorem sameItems_trans : (as bs cs : List Json) → sameItems as bs = true → sameItems bs cs = true →
    sameItems as cs = true
  | [], bs, cs, h, h' => by
    cases bs <;> first | contradiction | exact h'
  | a :: as, bs, cs, h, h' => by
    cases bs with
    | nil => contradiction
    | cons b bs =>
      cases cs with
      | nil => contradiction
      | cons c cs =>
        simp only [sameItems, Bool.and_eq_true] at h h' ⊢
        exact ⟨same_trans a b c h.1 h'.1, sameItems_trans as bs cs h.2 h'.2⟩

theorem sameMembers_trans : (as bs cs : List (String × Json)) → sameMembers as bs = true →
    sameMembers bs cs = true → sameMembers as cs = true
  | [], _, _, _, _ => rfl
  | (key, value) :: rest, bs, cs, h, h' => by
    obtain ⟨other, hl, hs⟩ := sameMembers_iff.mp h key value List.mem_cons_self
    obtain ⟨third, hl', hs'⟩ := sameMembers_iff.mp h' key other (mem_of_lookup hl)
    rw [sameMembers, Bool.and_eq_true] at h ⊢
    refine ⟨?_, sameMembers_trans rest bs cs h.2 h'⟩
    rw [hl']
    exact same_trans value other third hs hs'

end

end Json
end Qua
