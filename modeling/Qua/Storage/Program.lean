import Qua.Storage.Action

/-!
# The binary form of programs

Main definitions: `Program.serialize` and `Program.deserialize?`. What follows a program in the bytes
is not looked at.
-/

namespace Qua

open Stored

instance : Stored Iterator where
  write it := write it.variableName ++ write it.array
  read := return ⟨← read, ← read⟩

namespace Statement

mutual

def bytes : Statement → List UInt8
  | .action a l => variant a.index ++ a.content ++ write l
  | .conditional condition isUnsafe body elifs otherwise l =>
    variant 17 ++ write condition ++ write isUnsafe
      ++ writeCounted body.length (bytesOfBlock body)
      ++ writeCounted elifs.length (bytesOfBranches elifs) ++ bytesOfOtherwise otherwise ++ write l
  | .loop init condition update body l =>
    variant 18 ++ writeCounted init.length (bytesOfBlock init) ++ write condition
      ++ writeCounted update.length (bytesOfBlock update)
      ++ writeCounted body.length (bytesOfBlock body) ++ write l
  | .forEach iterators body l =>
    variant 19 ++ write iterators ++ writeCounted body.length (bytesOfBlock body) ++ write l
  | .strictTiming body l =>
    variant 20 ++ writeCounted body.length (bytesOfBlock body) ++ write l

def bytesOfBlock : List Statement → List UInt8
  | [] => []
  | s :: rest => s.bytes ++ bytesOfBlock rest

def bytesOfBranches : List (Branch Statement) → List UInt8
  | [] => []
  | ⟨condition, body, l⟩ :: rest =>
    write condition ++ writeCounted body.length (bytesOfBlock body) ++ write l
      ++ bytesOfBranches rest

def bytesOfOtherwise : Option (List Statement) → List UInt8
  | none => [0]
  | some body => 1 :: writeCounted body.length (bytesOfBlock body)

end

/-- Reads an optional block. -/
def readOtherwise (statement : Reader Statement) : Reader (Option (List Statement)) := do
  match ← Reader.byte with
  | 0 => return none
  | 1 => some <$> readCounted statement
  | _ => Reader.fail

def readBranch (statement : Reader Statement) : Reader (Branch Statement) := do
  let condition ← read
  let body ← readCounted statement
  let l ← read
  return ⟨condition, body, l⟩

/-- Reads a statement that is nested less deeply than the fuel. -/
def ofBytes : Nat → Reader Statement
  | 0 => Reader.fail
  | fuel + 1 => do
    match ← readVariant with
    | 17 => do
      let condition ← read
      let isUnsafe ← read
      let body ← readCounted (ofBytes fuel)
      let elifs ← readCounted (readBranch (ofBytes fuel))
      let otherwise ← readOtherwise (ofBytes fuel)
      let l ← read
      return .conditional condition isUnsafe body elifs otherwise l
    | 18 => do
      let init ← readCounted (ofBytes fuel)
      let condition ← read
      let update ← readCounted (ofBytes fuel)
      let body ← readCounted (ofBytes fuel)
      let l ← read
      return .loop init condition update body l
    | 19 => do
      let iterators ← read
      let body ← readCounted (ofBytes fuel)
      let l ← read
      return .forEach iterators body l
    | 20 => do
      let body ← readCounted (ofBytes fuel)
      let l ← read
      return .strictTiming body l
    | index => do
      let a ← Action.ofContent index
      let l ← read
      return .action a l

end Statement

/-- Every level of nesting takes a byte, so their number bounds the depth. -/
instance : Stored Statement where
  write := Statement.bytes
  read := fun input => Statement.ofBytes (input.length + 1) input

instance : Stored ScalarType where
  write := writeChoice ScalarType.all
  read := readChoice ScalarType.all

instance : Stored Declaration where
  write d :=
    write d.name ++ write d.scalarType ++ write d.size ++ write d.dimension
      ++ write d.isInputStream ++ write d.value
  read := return ⟨← read, ← read, ← read, ← read, ← read, ← read⟩

instance : Stored SaveKind where
  write := writeChoice SaveKind.all
  read := readChoice SaveKind.all

instance : Stored SaveEntry where
  write entry := write entry.kind ++ write entry.tag ++ write entry.auto ++ write entry.pipeline
  read := return ⟨← read, ← read, ← read, ← read⟩

instance : Stored ResultAnalysis where
  write saves := write saves.entries
  read := return ⟨← read⟩

instance : Stored Metadata where
  write m := write m.usesCommandTimestamps ++ write m.usesFastFrameRotation
  read := return ⟨← read, ← read⟩

instance : Stored Program where
  write p := write p.declarations ++ write p.body ++ write p.results ++ write p.metadata
  read := return ⟨← read, ← read, ← read, ← read⟩

namespace Program

def serialize (p : Program) : List UInt8 := write p

/-- The program that the bytes start with. -/
def deserialize? (bytes : List UInt8) : Option Program :=
  ((read : Reader Program).run bytes).map Prod.fst

end Program
end Qua
