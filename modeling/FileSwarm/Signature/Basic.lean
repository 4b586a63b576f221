import FileSwarm.ByteRange
import FileSwarm.Sha256

/-!
# Signatures of files

A `Signature` describes a file as blocks of one size (the last may be shorter), each with a weak and
a strong checksum, and the hash of the whole file.

* `blockRange` : the bytes a block stands for;
* `flaw?` : what is wrong with a signature, if anything: `none` says that its blocks are numbered in
  order and tile the file;
* `defaultBlockLength` : the square root of the file's length, between 512 and 65536.
-/

namespace FileSwarm

/-- Checksums of one block. -/
structure Block where
  index : UInt64
  weak : UInt32
  strong : Digest
deriving DecidableEq

/-- Checksums of a file. -/
structure Signature where
  fileLength : UInt64
  blockLength : UInt64
  blocks : List Block
  digest : Digest
deriving DecidableEq

/-- What is wrong with a signature. -/
inductive Flaw where
  | zeroBlockLength
  | blockTooLong (length : Nat)
  | wrongCount (expected found : Nat)
  | wrongIndex (position index : Nat)
deriving DecidableEq, Repr, Inhabited

namespace Signature

/-- The smallest block length chosen for a file. -/
def minBlockLength : Nat := 512

/-- The largest block length of a signature. -/
def maxBlockLength : Nat := 65536

/-- The bytes of the block with a given index; empty past the end of the file. -/
def blockRange (s : Signature) (index : UInt64) : ByteRange :=
  let start := mulCapped index.toNat s.blockLength.toNat
  ByteRange.ofBounds start (min (addCapped start s.blockLength.toNat) s.fileLength.toNat)

/-- How many blocks the file has. -/
def blockCount (s : Signature) : Nat :=
  (s.fileLength.toNat + s.blockLength.toNat - 1) / s.blockLength.toNat

/-- What is wrong, if anything. -/
def flaw? (s : Signature) : Option Flaw :=
  if 0 < s.fileLength ∧ s.blockLength = 0 then some .zeroBlockLength
  else if maxBlockLength < s.blockLength.toNat then some (.blockTooLong s.blockLength.toNat)
  else
    let expected := if s.fileLength = 0 then 0 else s.blockCount
    if s.blocks.length ≠ expected then some (.wrongCount expected s.blocks.length)
    else (s.blocks.zipIdx.find? fun (b, i) => b.index.toNat != i).map
      fun (b, i) => .wrongIndex i b.index.toNat

/-- The root of `n` in `bits` binary digits below those of `root`. -/
def refineRoot : (bits root n : Nat) → Nat
  | 0, root, _ => root
  | bits + 1, root, n =>
    let next := root + (1 <<< bits)
    refineRoot bits (if next * next ≤ n then next else root) n

/-- The square root of a file's length, rounded down, but no less than 512 and no more than 65536. -/
def defaultBlockLength (fileLength : Nat) : Nat :=
  max minBlockLength (min maxBlockLength (refineRoot 17 0 fileLength))

end Signature

namespace Flaw

def text : Flaw → String
  | zeroBlockLength => "zero part length"
  | blockTooLong length => s!"part length {length} exceeds {Signature.maxBlockLength}"
  | wrongCount expected found => s!"expected {expected} parts, found {found}"
  | wrongIndex position index => s!"part at position {position} has index {index}"

end Flaw

end FileSwarm
