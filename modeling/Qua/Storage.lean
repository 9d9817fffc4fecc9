import Qua.Bytes
import Qua.Program

/-!
# The binary form: words, lists and choices

A stored value is a sequence of bytes that says itself where it ends. Numbers are little-endian words
of a fixed width, lists start with their length and choices with their index; options and booleans
take one byte for it.
-/

namespace Qua

/-- Reads a value off the front of some bytes and leaves the others. -/
abbrev Reader (α : Type) := StateT (List UInt8) Option α

namespace Reader

def fail : Reader α := fun _ => none

def byte : Reader UInt8
  | [] => none
  | b :: rest => some (b, rest)

/-- The next `n` bytes. -/
def bytes (n : Nat) : Reader (List UInt8) := fun input =>
  if n ≤ input.length then some (input.take n, input.drop n) else none

/-- A word of the given number of bytes, the least one first. -/
def word : Nat → Reader Nat
  | 0 => pure 0
  | width + 1 => do
    let low ← byte
    let high ← word width
    return low.toNat + 256 * high

/-- The given number of items. -/
def many (item : Reader α) : Nat → Reader (List α)
  | 0 => pure []
  | n + 1 => do
    let head ← item
    let rest ← many item n
    return head :: rest

end Reader

/-- Types with a binary form. -/
class Stored (α : Type) where
  write : α → List UInt8
  read : Reader α

open Stored (write read)

namespace Stored

/-- The index of a choice. -/
def variant (index : Nat) : List UInt8 := wordBytes 4 index

def readVariant : Reader Nat := Reader.word 4

instance : Stored Bool where
  write b := [if b then 1 else 0]
  read := do
    match ← Reader.byte with
    | 0 => return false
    | 1 => return true
    | _ => Reader.fail

instance : Stored UInt8 where
  write n := [n]
  read := Reader.byte

instance : Stored UInt64 where
  write n := wordBytes 8 n.toNat
  read := do
    let n ← Reader.word 8
    return UInt64.ofNat n

instance : Stored Int32 where
  write n := wordBytes 4 n.toUInt32.toNat
  read := do
    let n ← Reader.word 4
    return (UInt32.ofNat n).toInt32

instance : Stored Int64 where
  write n := wordBytes 8 n.toUInt64.toNat
  read := do
    let n ← Reader.word 8
    return (UInt64.ofNat n).toInt64

instance : Stored Binary64 where
  write x := write x.bits
  read := do
    let bits ← read
    return ⟨bits⟩

/-- The bytes of items, behind their number. -/
def writeCounted (count : Nat) (items : List UInt8) : List UInt8 := wordBytes 8 count ++ items

def readCounted (item : Reader α) : Reader (List α) := do
  let count ← Reader.word 8
  Reader.many item count

instance [Stored α] : Stored (List α) where
  write items := writeCounted items.length (items.flatMap write)
  read := readCounted read

instance [Stored α] : Stored (Option α) where
  write
    | none => [0]
    | some value => 1 :: write value
  read := do
    match ← Reader.byte with
    | 0 => return none
    | 1 => some <$> read
    | _ => Reader.fail

/-- A string is the bytes of its UTF-8 form. -/
instance : Stored String where
  write s := writeCounted s.utf8ByteSize (utf8Bytes s)
  read := do
    let count ← Reader.word 8
    let bytes ← Reader.bytes count
    match String.fromUTF8? ⟨bytes.toArray⟩ with
    | some s => return s
    | none => Reader.fail

/-- A choice without content, by its place in the list of all choices. -/
def readChoice (choices : List α) : Reader α := do
  let index ← readVariant
  match choices[index]? with
  | some choice => return choice
  | none => Reader.fail

def writeChoice [BEq α] (choices : List α) (choice : α) : List UInt8 :=
  variant (choices.idxOf choice)

end Stored
end Qua
