import Mathlib.Data.List.Basic
import Mathlib.Tactic.Ring
import Qua.Storage

/-!
# Forms of stored values

A reader has forms: the bytes that it takes for a value, whatever follows them. A type is lawfully
stored if its reader takes exactly the bytes that are written for a value. Forms are said up to a
limit on their number of bytes, since the length of a list is stored as a word of 64 bits.
-/

namespace Qua

/-- The reader takes the bytes that `R` relates to a value, if they are fewer than the limit, and
takes no others. -/
structure Forms (limit : Nat) (r : Reader α) (R : α → List UInt8 → Prop) : Prop where
  reads : R x bs → bs.length < limit → ∀ rest, r (bs ++ rest) = some (x, rest)
  taken : r input = some (x, rest) → ∃ bs, R x bs ∧ input = bs ++ rest

open Stored (write read variant readVariant writeCounted readCounted writeChoice readChoice)

-- ---------------------------------------------------------------------------
-- Composed readers
-- ---------------------------------------------------------------------------

namespace Forms

theorem congr (h : Forms limit r R) (hR : ∀ x bs, R x bs ↔ R' x bs) : Forms limit r R' := by
  obtain rfl : R = R' := funext fun x => funext fun bs => propext (hR x bs)
  exact h

theorem mono (h : Forms limit r R) (hl : limit' ≤ limit) : Forms limit' r R :=
  ⟨fun hx hb => h.reads hx (Nat.lt_of_lt_of_le hb hl), h.taken⟩

theorem pure (limit : Nat) (a : α) : Forms limit (Pure.pure a) fun x bs => x = a ∧ bs = [] where
  reads := by
    rintro x bs ⟨rfl, rfl⟩ - rest
    rfl
  taken := by
    rintro input x rest h
    cases h
    exact ⟨[], ⟨rfl, rfl⟩, rfl⟩

theorem fail (limit : Nat) : Forms limit (Reader.fail : Reader α) fun _ _ => False where
  reads := False.elim
  taken h := nomatch h

/-- Without fuel there is no room for bytes. -/
theorem empty : Forms 0 (Reader.fail : Reader α) R where
  reads _ hb := absurd hb (Nat.not_lt_zero _)
  taken h := nomatch h

theorem bind {f : α → Reader β} {R' : α → β → List UInt8 → Prop} (h : Forms limit r R)
    (h' : ∀ a, Forms limit (f a) (R' a)) :
    Forms limit (r >>= f) fun y bs => ∃ a first second,
      R a first ∧ R' a y second ∧ bs = first ++ second where
  reads := by
    rintro y bs ⟨a, first, second, ha, hy, rfl⟩ hb rest
    rw [List.length_append] at hb
    change (r (first ++ second ++ rest)).bind (fun (a, rest) => f a rest) = _
    rw [List.append_assoc, h.reads ha (by omega)]
    exact (h' a).reads hy (by omega) rest
  taken := by
    intro input y rest hr
    obtain ⟨⟨a, middle⟩, ha, hy⟩ := Option.bind_eq_some_iff.mp hr
    obtain ⟨first, hfirst, rfl⟩ := h.taken ha
    obtain ⟨second, hsecond, rfl⟩ := (h' a).taken hy
    exact ⟨first ++ second, ⟨a, first, second, hfirst, hsecond, rfl⟩, by simp⟩

theorem map (f : α → β) (h : Forms limit r R) :
    Forms limit (f <$> r) fun y bs => ∃ a, y = f a ∧ R a bs := by
  rw [map_eq_pure_bind]
  refine (h.bind fun a => Forms.pure limit (f a)).congr fun y bs => ?_
  constructor
  · rintro ⟨a, first, second, hfirst, ⟨rfl, rfl⟩, rfl⟩
    exact ⟨a, rfl, by simpa using hfirst⟩
  · rintro ⟨a, rfl, h⟩
    exact ⟨a, bs, [], h, ⟨rfl, rfl⟩, by simp⟩

-- ---------------------------------------------------------------------------
-- Bytes and words
-- ---------------------------------------------------------------------------

theorem byte (limit : Nat) : Forms limit Reader.byte fun b bs => bs = [b] where
  reads := by
    rintro b bs rfl - rest
    rfl
  taken := by
    intro input b rest h
    cases input with
    | nil => contradiction
    | cons c rest' =>
      obtain ⟨rfl, rfl⟩ := Prod.mk.inj (Option.some.inj h)
      exact ⟨[c], rfl, rfl⟩

theorem bytes (limit n : Nat) : Forms limit (Reader.bytes n) fun x bs => bs = x ∧ x.length = n where
  reads := by
    rintro x bs ⟨rfl, rfl⟩ - rest
    simp [Reader.bytes]
  taken := by
    intro input x rest h
    unfold Reader.bytes at h
    split at h
    · next hn =>
      obtain ⟨rfl, rfl⟩ := Prod.mk.inj (Option.some.inj h)
      exact ⟨input.take n, ⟨rfl, by simpa using hn⟩, by simp⟩
    · contradiction

end Forms

@[simp] theorem length_wordBytes (width n : Nat) : (wordBytes width n).length = width := by
  induction width generalizing n with
  | zero => rfl
  | succ width ih => simp [wordBytes, ih]

theorem ofNat_toNat_add (b : UInt8) (n : Nat) : UInt8.ofNat (b.toNat + 256 * n) = b := by
  apply UInt8.toNat_inj.mp
  have := b.toNat_lt
  simp

/-- A number that fits into the width is stored as its word. -/
theorem Forms.word (limit width : Nat) :
    Forms limit (Reader.word width) fun n bs => n < 256 ^ width ∧ bs = wordBytes width n := by
  induction width with
  | zero =>
    refine (Forms.pure limit 0).congr fun n bs => ?_
    simp [wordBytes]
  | succ width ih =>
    refine ((byte limit).bind fun low => ih.bind fun high => Forms.pure limit _).congr fun n bs => ?_
    rw [pow_succ]
    constructor
    · rintro ⟨low, _, _, rfl, ⟨high, _, _, ⟨hhigh, rfl⟩, ⟨rfl, rfl⟩, rfl⟩, rfl⟩
      have hlow := low.toNat_lt
      refine ⟨by omega, ?_⟩
      rw [wordBytes, ofNat_toNat_add, show (low.toNat + 256 * high) / 256 = high by omega]
      simp
    · rintro ⟨hn, rfl⟩
      refine ⟨UInt8.ofNat n, _, wordBytes width (n / 256), rfl,
        ⟨n / 256, _, _, ⟨by omega, rfl⟩, ⟨?_, rfl⟩, by simp⟩, rfl⟩
      simp
      omega

theorem wordBytes_inj {width m n : Nat} (hm : m < 256 ^ width) (hn : n < 256 ^ width) :
    wordBytes width m = wordBytes width n ↔ m = n := by
  refine ⟨fun h => ?_, congrArg _⟩
  have hread := (Forms.word (width + 1) width).reads ⟨hm, rfl⟩ (by simp) []
  rw [h, (Forms.word (width + 1) width).reads ⟨hn, rfl⟩ (by simp) []] at hread
  exact (Prod.mk.inj (Option.some.inj hread)).1.symm

-- ---------------------------------------------------------------------------
-- Lawfully stored types
-- ---------------------------------------------------------------------------

/-- The number of bytes below which counts fit into their word. -/
def Stored.limit : Nat := 256 ^ 8

/-- What is read for a value are the bytes that are written for it. -/
class LawfulStored (α : Type) [Stored α] : Prop where
  forms : Forms Stored.limit (read : Reader α) fun x bs => bs = write x

/-- Every value takes a byte at least, so that lists of values are no longer than their bytes. -/
class TakesBytes (α : Type) [Stored α] : Prop where
  write_ne_nil : ∀ x : α, write x ≠ []

namespace Forms

theorem stored [Stored α] [LawfulStored α] (hl : limit ≤ Stored.limit) :
    Forms limit (read : Reader α) fun x bs => bs = write x :=
  LawfulStored.forms.mono hl

/-- A stored value and what is read after it. -/
theorem read_bind [Stored α] [LawfulStored α] {f : α → Reader β} {R : α → β → List UInt8 → Prop}
    (hl : limit ≤ Stored.limit) (h : ∀ a, Forms limit (f a) (R a)) :
    Forms limit (read >>= f) fun y bs => ∃ a rest, R a y rest ∧ bs = write a ++ rest :=
  ((stored hl).bind h).congr fun _ _ =>
    ⟨fun ⟨a, _, rest, hw, hr, hb⟩ => ⟨a, rest, hr, hw ▸ hb⟩,
      fun ⟨a, rest, hr, hb⟩ => ⟨a, _, rest, rfl, hr, hb⟩⟩

/-- Items one after the other, each of which takes a byte at least. -/
theorem many {item : Reader α} {w : α → List UInt8} (h : Forms limit item fun x bs => bs = w x) (n : Nat) :
    Forms limit (Reader.many item n) fun xs bs => xs.length = n ∧ bs = xs.flatMap w := by
  induction n with
  | zero =>
    refine (Forms.pure limit []).congr fun xs bs => ?_
    constructor
    · rintro ⟨rfl, rfl⟩
      exact ⟨rfl, rfl⟩
    · rintro ⟨hl, rfl⟩
      obtain rfl := List.length_eq_zero_iff.mp hl
      exact ⟨rfl, rfl⟩
  | succ n ih =>
    refine (h.bind fun head => ih.bind fun rest => Forms.pure limit (head :: rest)).congr fun xs bs => ?_
    constructor
    · rintro ⟨head, _, _, rfl, ⟨rest, _, _, ⟨rfl, rfl⟩, ⟨rfl, rfl⟩, rfl⟩, rfl⟩
      simp
    · rintro ⟨hl, rfl⟩
      cases xs with
      | nil => contradiction
      | cons head rest =>
        exact ⟨head, _, rest.flatMap w, rfl, ⟨rest, _, [], ⟨by simpa using hl, rfl⟩, ⟨rfl, rfl⟩, by simp⟩,
          by simp⟩

theorem length_le_flatMap {w : α → List UInt8} (hw : ∀ x, w x ≠ []) (xs : List α) :
    xs.length ≤ (xs.flatMap w).length := by
  induction xs with
  | nil => exact Nat.le_refl 0
  | cons x xs ih =>
    have hx := List.length_pos_iff.mpr (hw x)
    simp only [List.length_cons, List.flatMap_cons, List.length_append]
    omega

/-- A list is stored behind its length. -/
theorem counted {item : Reader α} {w : α → List UInt8} (h : Forms limit item fun x bs => bs = w x)
    (hw : ∀ x, w x ≠ []) (hl : limit ≤ Stored.limit) :
    Forms limit (readCounted item) fun xs bs => bs = writeCounted xs.length (xs.flatMap w) where
  reads := by
    rintro xs bs rfl hb rest
    refine ((word limit 8).bind fun n => h.many n).reads ⟨xs.length, _, _, ⟨?_, rfl⟩, ⟨rfl, rfl⟩, rfl⟩ hb rest
    have := length_le_flatMap hw xs
    rw [writeCounted, List.length_append, length_wordBytes] at hb
    exact Nat.lt_of_lt_of_le (by omega) hl
  taken := by
    intro input xs rest hr
    obtain ⟨_, ⟨_, _, _, ⟨-, rfl⟩, ⟨rfl, rfl⟩, rfl⟩, rfl⟩ := ((word limit 8).bind fun n => h.many n).taken hr
    exact ⟨_, rfl, rfl⟩

end Forms

theorem variant_append_inj {m n : Nat} (hm : m < 256 ^ 4) (hn : n < 256 ^ 4) {bs bs' : List UInt8} :
    variant m ++ bs = variant n ++ bs' ↔ m = n ∧ bs = bs' := by
  constructor
  · intro h
    obtain ⟨hv, hb⟩ := List.append_inj h (by simp [variant])
    exact ⟨(wordBytes_inj hm hn).mp hv, hb⟩
  · rintro ⟨rfl, rfl⟩
    rfl

/-- The bytes start with an index below a number. -/
def StartsBelow (count : Nat) (bs : List UInt8) : Prop := ∃ n < count, ∃ rest, variant n ++ rest = bs

theorem StartsBelow.variant (hn : n < count) (rest : List UInt8) : StartsBelow count (variant n ++ rest) :=
  ⟨n, hn, rest, rfl⟩

theorem StartsBelow.append (h : StartsBelow count bs) (rest : List UInt8) : StartsBelow count (bs ++ rest) := by
  obtain ⟨n, hn, inner, rfl⟩ := h
  exact ⟨n, hn, inner ++ rest, by simp⟩

theorem StartsBelow.ne_nil (h : StartsBelow count bs) : bs ≠ [] := by
  obtain ⟨n, hn, inner, rfl⟩ := h
  simp [Stored.variant, wordBytes]

/-- No choice has the index. -/
theorem Forms.unknown {w : α → List UInt8} (hw : ∀ x, StartsBelow count (w x)) (hc : count ≤ n)
    (hn : n < 256 ^ 4) : Forms limit (Reader.fail : Reader α) fun x bs => variant n ++ bs = w x where
  reads := by
    intro x bs hx
    obtain ⟨m, hm, rest, hx'⟩ := hw x
    have := ((variant_append_inj (by omega) hn).mp (hx'.trans hx.symm)).1
    omega
  taken h := nomatch h

/-- A choice is stored as its index and its content. The index takes a byte at least. -/
theorem Forms.choice {w : α → List UInt8} {k : Nat → Reader α} (hw : ∀ x, StartsBelow count (w x))
    (hc : count ≤ 256 ^ 4) (h : ∀ n < 256 ^ 4, Forms limit (k n) fun x bs => variant n ++ bs = w x) :
    Forms (limit + 1) (readVariant >>= k) fun x bs => bs = w x where
  reads := by
    rintro x bs rfl hb rest
    obtain ⟨n, hn, bs, hx⟩ := hw x
    rw [← hx, List.length_append, variant, length_wordBytes] at hb
    change (readVariant (w x ++ rest)).bind (fun (n, rest) => k n rest) = _
    rw [← hx, List.append_assoc, readVariant, variant,
      (word 5 4).reads ⟨Nat.lt_of_lt_of_le hn hc, rfl⟩ (by simp)]
    exact (h n (Nat.lt_of_lt_of_le hn hc)).reads hx (by omega) rest
  taken := by
    intro input x rest hr
    obtain ⟨⟨n, middle⟩, hn, hx⟩ := Option.bind_eq_some_iff.mp hr
    obtain ⟨_, ⟨hlt, rfl⟩, rfl⟩ := (word limit 4).taken hn
    obtain ⟨bs, hbs, rfl⟩ := (h n hlt).taken hx
    exact ⟨w x, rfl, by rw [← hbs, List.append_assoc, variant]⟩

/-- A choice whose content does not exceed what can be stored. -/
theorem Forms.storedChoice {w : α → List UInt8} {k : Nat → Reader α}
    (hw : ∀ x, StartsBelow count (w x)) (hc : count ≤ 256 ^ 4)
    (h : ∀ n < 256 ^ 4, Forms Stored.limit (k n) fun x bs => variant n ++ bs = w x) :
    Forms Stored.limit (readVariant >>= k) fun x bs => bs = w x :=
  (Forms.choice hw hc h).mono (Nat.le_succ _)

/-- Fuel for every byte of the input is enough. -/
theorem Forms.fueled {r : Nat → Reader α} (h : ∀ fuel, Forms (min fuel limit) (r fuel) R) :
    Forms limit (fun input => r (input.length + 1) input) R where
  reads := by
    intro x bs hx hb rest
    refine (h _).reads hx ?_ rest
    rw [List.length_append]
    omega
  taken hr := (h _).taken hr

end Qua
