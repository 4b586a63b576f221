import FileSwarm.RollingSum
import FileSwarm.Signature.Basic

/-!
# Building a signature from bytes as they come

A `Builder` takes the bytes of a file in any number of pieces. It keeps the bytes of the block begun,
which is never full: as soon as it is, its checksums are taken and the next block is begun.

* `take` : the block begun takes some bytes, no more than it has room for;
* `fill` : the bytes of a piece from an offset on, block by block;
* `update`, `finish` : a whole piece, and the signature at the end;
* `update?` : `update` with 64-bit lengths.
-/

namespace FileSwarm

/-- The checksums of a block's bytes. -/
def Block.ofBytes (index : Nat) (b : ByteArray) : Block :=
  ⟨index.toUInt64, weakSum b, Sha256.digest b⟩

/-- A signature under way: the blocks that are full, the bytes of the block begun, and all bytes so
far. -/
structure Signature.Builder where
  blockLength : Nat
  blocks : Array Block
  rest : ByteArray
  content : ByteArray
  /-- The block begun is not full. -/
  rest_lt : rest.size < blockLength

namespace Signature.Builder

/-- For blocks of the given length, or the nearest one a signature can have. -/
def start (blockLength : Nat) : Builder where
  blockLength := max 1 (min blockLength maxBlockLength)
  blocks := #[]
  rest := ByteArray.empty
  content := ByteArray.empty
  rest_lt := Nat.lt_of_lt_of_le Nat.one_pos (Nat.le_max_left _ _)

/-- How many bytes the block begun can still take. -/
def room (s : Builder) : Nat := s.blockLength - s.rest.size

theorem room_pos (s : Builder) : 0 < s.room := Nat.sub_pos_of_lt s.rest_lt

theorem size_append_le {s : Builder} {bytes : ByteArray} (h : bytes.size ≤ s.room) :
    (s.rest ++ bytes).size ≤ s.blockLength := by
  have := s.rest_lt
  simp only [ByteArray.size_append, room] at h ⊢
  omega

/-- The block begun takes some bytes. If it is full then, the next one is begun. -/
def take (s : Builder) (bytes : ByteArray) (h : bytes.size ≤ s.room) : Builder :=
  if hfull : (s.rest ++ bytes).size = s.blockLength then
    { s with
      blocks := s.blocks.push (Block.ofBytes s.blocks.size (s.rest ++ bytes))
      rest := ByteArray.empty
      rest_lt := Nat.lt_of_le_of_lt (Nat.zero_le _) s.rest_lt }
  else { s with rest := s.rest ++ bytes, rest_lt := Nat.lt_of_le_of_ne (size_append_le h) hfull }

/-- Take the bytes of a piece from `offset` on, each time as many as there is room for. -/
def fill (s : Builder) (piece : ByteArray) (offset : Nat) : Builder :=
  if _h : offset < piece.size then
    fill (s.take (piece.extract offset (offset + min s.room (piece.size - offset)))
      (by rw [ByteArray.size_extract]; omega)) piece (offset + min s.room (piece.size - offset))
  else s
termination_by piece.size - offset
decreasing_by
  have := s.room_pos
  omega

/-- The next bytes of the file. -/
def update (s : Builder) (piece : ByteArray) : Builder :=
  fill { s with content := s.content ++ piece } piece 0

/-- The signature of all bytes; what is left makes a last, shorter block. -/
def finish (s : Builder) : Signature where
  fileLength := s.content.size.toUInt64
  blockLength := s.blockLength.toUInt64
  blocks :=
    (if s.rest.isEmpty then s.blocks
    else s.blocks.push (Block.ofBytes s.blocks.size s.rest)).toList
  digest := Sha256.digest s.content

/-! ## On 64-bit lengths -/

/-- `update`, a fault if the file is longer than any offset. -/
def update? (s : Builder) (piece : ByteArray) : Except Fault Builder :=
  (addChecked s.content.size piece.size).map fun _ => s.update piece

end Signature.Builder

/-- The signature of a byte string. -/
def Signature.ofBytes (blockLength : Nat) (b : ByteArray) : Signature :=
  ((Builder.start blockLength).update b).finish

end FileSwarm
