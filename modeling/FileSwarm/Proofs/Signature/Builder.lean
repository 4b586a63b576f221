import Mathlib.Data.List.Basic
import FileSwarm.Proofs.Bytes
import FileSwarm.Proofs.Signature.Tiling
import FileSwarm.Signature.Builder

/-!
# What a builder builds

However the bytes of a file are cut into pieces, the builder ends with the same signature: block `i`
has the checksums of the bytes from `i` times the block length on.

* `Signature.describe` : that signature, block by block;
* `Builder.Took s b` : the builder `s` has taken the bytes `b`; one lemma each for `start`, `take`, `fill`,
  `update` and `finish`;
* `Builder.Took.updates?_eq` : when taking some pieces is a fault;
* `blockRange_describe` : the place of its blocks;
* `Describes` : what it says, field by field;
* `flaw?_describe` : it has no flaw.
-/

namespace FileSwarm

namespace Signature

/-- The block length a signature has if it is asked for another one. -/
def clampLength (blockLength : Nat) : Nat := max 1 (min blockLength maxBlockLength)

theorem clampLength_pos (n : Nat) : 0 < clampLength n := Nat.le_max_left 1 _

theorem clampLength_le (n : Nat) : clampLength n ≤ maxBlockLength :=
  Nat.max_le.2 ⟨by decide, Nat.min_le_right _ _⟩

/-- Block `i` of a byte string. -/
def blockOf (k : Nat) (b : ByteArray) (i : Nat) : Block := Block.ofBytes i (b.extract (i * k) (i * k + k))

/-- The signature of a byte string, block by block. -/
def describe (k : Nat) (b : ByteArray) : Signature where
  fileLength := b.size.toUInt64
  blockLength := k.toUInt64
  blocks := (List.range ((b.size + k - 1) / k)).map (blockOf k b)
  digest := Sha256.digest b

theorem blockOf_append {k i : Nat} {b : ByteArray} (h : i * k + k ≤ b.size) (piece : ByteArray) :
    blockOf k (b ++ piece) i = blockOf k b i := by
  have hextract : (b ++ piece).extract (i * k) (i * k + k) = b.extract (i * k) (i * k + k) := by
    apply Bytes.ext_byte?
    intro o
    rw [Bytes.byte?_extract, Bytes.byte?_extract, Bytes.byte?_append, ByteArray.size_append]
    have hmin : min (i * k + k) (b.size + piece.size) = min (i * k + k) b.size := by omega
    rw [hmin]
    split
    · rw [if_pos (by omega)]
    · rfl
  rw [blockOf, blockOf, hextract]

namespace Builder

/-- The bytes of `b` are in the blocks that are full and in the block begun. -/
structure Holds (s : Builder) (b : ByteArray) : Prop where
  size : s.blocks.size * s.blockLength + s.rest.size = b.size
  blocks : s.blocks.toList = (List.range s.blocks.size).map (blockOf s.blockLength b)
  rest : s.rest = b.extract (s.blocks.size * s.blockLength) b.size

/-- The builder has taken the bytes of `b`. -/
structure Took (s : Builder) (b : ByteArray) : Prop extends s.Holds b where
  content : s.content = b

theorem took_start (blockLength : Nat) : (start blockLength).Took ByteArray.empty where
  size := Nat.zero_mul _
  blocks := rfl
  rest := (Bytes.extract_empty _ _).symm
  content := rfl

variable {s : Builder} {b : ByteArray}

theorem Holds.blocks_le (h : s.Holds b) : s.blocks.size * s.blockLength ≤ b.size :=
  h.size ▸ Nat.le_add_right _ _

theorem Holds.rest_append (h : s.Holds b) (bytes : ByteArray) :
    s.rest ++ bytes = (b ++ bytes).extract (s.blocks.size * s.blockLength) (b ++ bytes).size := by
  have hle := h.blocks_le
  apply Bytes.ext_byte?
  intro o
  rw [h.rest]
  simp only [Bytes.byte?_append, Bytes.byte?_extract, ByteArray.size_append, ByteArray.size_extract]
  have hnone : ∀ {i}, bytes.size ≤ i → Bytes.byte? bytes i = none := fun hi => Bytes.byte?_eq_none.2 hi
  grind

theorem Holds.blocks_append (h : s.Holds b) (bytes : ByteArray) :
    s.blocks.toList = (List.range s.blocks.size).map (blockOf s.blockLength (b ++ bytes)) := by
  rw [h.blocks]
  refine List.map_congr_left fun i hi => (blockOf_append ?_ bytes).symm
  have hi : i + 1 ≤ s.blocks.size := List.mem_range.1 hi
  rw [← Nat.succ_mul]
  exact Nat.le_trans (Nat.mul_le_mul_right _ hi) h.blocks_le

@[simp] theorem blockLength_take (bytes : ByteArray) (hroom : bytes.size ≤ s.room) :
    (s.take bytes hroom).blockLength = s.blockLength := by
  unfold take
  split <;> rfl

@[simp] theorem content_take (bytes : ByteArray) (hroom : bytes.size ≤ s.room) :
    (s.take bytes hroom).content = s.content := by
  unfold take
  split <;> rfl

/-- Bytes for which there is room go to the block begun. If they fill it, it is the next full block. -/
theorem Holds.take (h : s.Holds b) {bytes : ByteArray} (hroom : bytes.size ≤ s.room) :
    (s.take bytes hroom).Holds (b ++ bytes) := by
  have hsize : s.blocks.size * s.blockLength + (s.rest ++ bytes).size = (b ++ bytes).size := by
    rw [ByteArray.size_append, ByteArray.size_append, ← Nat.add_assoc, h.size]
  have hrest := h.rest_append bytes
  have hblocks := h.blocks_append bytes
  unfold Builder.take
  split
  · next hfull =>
    have hnext : (s.blocks.size + 1) * s.blockLength = (b ++ bytes).size := by
      rw [Nat.succ_mul, ← hsize, hfull]
    have hlast : blockOf s.blockLength (b ++ bytes) s.blocks.size =
        Block.ofBytes s.blocks.size (s.rest ++ bytes) := by
      rw [blockOf, hrest, ← hnext, Nat.succ_mul]
    refine ⟨?_, ?_, ?_⟩
    · rw [Array.size_push, hnext]
      rfl
    · rw [Array.size_push, Array.toList_push, hblocks, List.range_succ, List.map_append, ← hlast]
      rfl
    · rw [Array.size_push, hnext, ByteArray.extract_same]
  · exact ⟨hsize, hblocks, hrest⟩

/-- What is left of a piece is taken, each time as much as the block begun has room for. -/
theorem Holds.fill {piece : ByteArray} {offset : Nat} (h : s.Holds (b ++ piece.extract 0 offset))
    (hle : offset ≤ piece.size) : (s.fill piece offset).Holds (b ++ piece) := by
  induction s, offset using Builder.fill.induct piece with
  | case1 s offset hlt ih =>
    rw [Builder.fill, dif_pos hlt]
    refine ih ?_ (by omega)
    have hroom : (piece.extract offset (offset + min s.room (piece.size - offset))).size ≤ s.room := by
      rw [ByteArray.size_extract]
      omega
    have htaken := h.take hroom
    rwa [ByteArray.append_assoc, Bytes.extract_append_extract (Nat.zero_le _) (Nat.le_add_right _ _)] at htaken
  | case2 s offset hge =>
    rw [Builder.fill, dif_neg hge]
    rwa [show offset = piece.size by omega, ByteArray.extract_zero_size] at h

theorem fill_keeps (s : Builder) (piece : ByteArray) (offset : Nat) :
    (s.fill piece offset).blockLength = s.blockLength ∧ (s.fill piece offset).content = s.content := by
  induction s, offset using Builder.fill.induct piece with
  | case1 s offset hlt ih =>
    rw [Builder.fill, dif_pos hlt]
    rwa [blockLength_take, content_take] at ih
  | case2 s offset hge =>
    rw [Builder.fill, dif_neg hge]
    exact ⟨rfl, rfl⟩

theorem update_blockLength (s : Builder) (piece : ByteArray) : (s.update piece).blockLength = s.blockLength :=
  (fill_keeps _ piece 0).1

/-- The blocks made so far and the bytes that are left are those of all bytes taken. -/
theorem Took.update (h : s.Took b) (piece : ByteArray) : (s.update piece).Took (b ++ piece) where
  toHolds := by
    refine Holds.fill (s := { s with content := s.content ++ piece }) ?_ (Nat.zero_le _)
    rw [ByteArray.extract_same, ByteArray.append_empty]
    exact ⟨h.size, h.blocks, h.rest⟩
  content := by rw [Builder.update, (fill_keeps _ piece 0).2, h.content]

theorem Took.updates (h : s.Took b) (pieces : List ByteArray) :
    (pieces.foldl Builder.update s).Took (pieces.foldl (· ++ ·) b) := by
  induction pieces generalizing s b with
  | nil => exact h
  | cons piece pieces ih => exact ih (h.update piece)

theorem updates_blockLength (s : Builder) (pieces : List ByteArray) :
    (pieces.foldl Builder.update s).blockLength = s.blockLength := by
  induction pieces generalizing s with
  | nil => rfl
  | cons piece pieces ih => exact (ih _).trans (update_blockLength s piece)

/-- One piece after the other, up to the first fault. -/
def updates? (s : Builder) (pieces : List ByteArray) : Except Fault Builder := pieces.foldlM update? s

theorem size_le_foldl (pieces : List ByteArray) (b : ByteArray) : b.size ≤ (pieces.foldl (· ++ ·) b).size := by
  induction pieces generalizing b with
  | nil => exact Nat.le_refl _
  | cons piece pieces ih =>
    refine Nat.le_trans ?_ (ih (b ++ piece))
    rw [ByteArray.size_append]
    exact Nat.le_add_right _ _

/-- The pieces are taken as long as the file's length is an offset, and no longer. -/
theorem Took.updates?_eq (h : s.Took b) (hb : b.size ≤ maxOffset) (pieces : List ByteArray) :
    s.updates? pieces = if (pieces.foldl (· ++ ·) b).size ≤ maxOffset then .ok (pieces.foldl Builder.update s)
      else .error .addOverflow := by
  induction pieces generalizing s b with
  | nil => rw [List.foldl_nil, if_pos hb]; rfl
  | cons piece pieces ih =>
    have hle := size_le_foldl pieces (b ++ piece)
    rw [updates?, List.foldlM_cons, update?, h.content, List.foldl_cons, List.foldl_cons]
    rw [ByteArray.size_append] at hle
    by_cases hfits : b.size + piece.size ≤ maxOffset
    · rw [addChecked_eq_ok hfits]
      exact ih (h.update piece) (by rwa [ByteArray.size_append])
    · rw [addChecked, if_neg hfits, if_neg (by omega)]
      rfl

theorem Holds.count_eq (h : s.Holds b) : (b.size + s.blockLength - 1) / s.blockLength =
    if s.rest.size = 0 then s.blocks.size else s.blocks.size + 1 := by
  have hlt := s.rest_lt
  have hsize := h.size
  split
  · refine Nat.div_eq_of_lt_le ?_ ?_
    · omega
    · rw [Nat.succ_mul]; omega
  · refine Nat.div_eq_of_lt_le ?_ ?_
    · rw [Nat.succ_mul]; omega
    · rw [Nat.succ_mul, Nat.succ_mul]; omega

theorem Took.finish (h : s.Took b) : s.finish = describe s.blockLength b := by
  have hblocks : (if s.rest.isEmpty then s.blocks
      else s.blocks.push (Block.ofBytes s.blocks.size s.rest)).toList =
      (List.range ((b.size + s.blockLength - 1) / s.blockLength)).map (blockOf s.blockLength b) := by
    rw [h.count_eq]
    by_cases hz : s.rest.size = 0
    · rw [if_pos hz, if_pos (Bytes.isEmpty_iff.2 hz), h.blocks]
    · -- the block begun is cut off by the end of the file
      have hlast : s.rest = b.extract (s.blocks.size * s.blockLength)
          (s.blocks.size * s.blockLength + s.blockLength) := by
        have hlt := s.rest_lt
        have hsize := h.size
        rw [h.rest, ← Bytes.extract_min b _ (_ + _), Nat.min_eq_right (by omega)]
      rw [if_neg hz, if_neg fun he => hz (Bytes.isEmpty_iff.1 he), Array.toList_push, h.blocks,
        List.range_succ, List.map_append, List.map_cons, List.map_nil, blockOf, ← hlast]
  simp only [Builder.finish, describe, hblocks, h.content]

end Builder

theorem ofBytes_eq (blockLength : Nat) (b : ByteArray) :
    ofBytes blockLength b = describe (clampLength blockLength) b := by
  have h := ((Builder.took_start blockLength).update b).finish
  rwa [ByteArray.empty_append, Builder.update_blockLength] at h

/-- However the bytes come, the signature is that of all of them. -/
theorem finish_pieces (blockLength : Nat) (pieces : List ByteArray) :
    (pieces.foldl Builder.update (Builder.start blockLength)).finish =
      ofBytes blockLength (pieces.foldl (· ++ ·) ByteArray.empty) := by
  rw [((Builder.took_start blockLength).updates pieces).finish, Builder.updates_blockLength, ofBytes_eq]
  rfl

/-! ## The places of the blocks -/

section Describe

variable {k : Nat} {b : ByteArray}

theorem fileLength_describe (hb : b.size ≤ maxOffset) : (describe k b).fileLength.toNat = b.size :=
  UInt64.toNat_ofNat_of_lt (Nat.lt_succ_of_le hb)

theorem blockLength_describe (hk : k ≤ maxBlockLength) : (describe k b).blockLength.toNat = k :=
  UInt64.toNat_ofNat_of_lt (Nat.lt_of_le_of_lt hk (by decide))

theorem length_blocks_describe : (describe k b).blocks.length = (b.size + k - 1) / k := by
  rw [describe, List.length_map, List.length_range]

theorem mem_blocks_describe (hk : 0 < k) {x : Block} :
    x ∈ (describe k b).blocks ↔ ∃ i, i * k < b.size ∧ x = blockOf k b i := by
  simp only [describe, List.mem_map, List.mem_range, lt_blockCount_iff hk]
  exact exists_congr fun i => and_congr_right fun _ => eq_comm

theorem index_blockOf (hb : b.size ≤ maxOffset) (hk : 0 < k) {i : Nat} (hi : i * k < b.size) :
    (blockOf k b i).index.toNat = i := by
  have hle : i ≤ i * k := Nat.le_mul_of_pos_right i hk
  exact UInt64.toNat_ofNat_of_lt (by unfold maxOffset at hb; show i < 18446744073709551616; omega)

/-- Block `i` stands for the bytes its checksums are of. -/
theorem blockRange_describe (hb : b.size ≤ maxOffset) (hk : 0 < k) (hle : k ≤ maxBlockLength) {i : Nat}
    (hi : i * k < b.size) :
    (describe k b).blockRange (blockOf k b i).index = ⟨i * k, min (i * k + k) b.size - i * k⟩ := by
  have hindex := index_blockOf hb hk hi
  have hrange := blockRange_of_lt (s := describe k b) (i := (blockOf k b i).index)
    (by rwa [hindex, blockLength_describe hle, fileLength_describe hb])
  rw [hrange, hindex, blockLength_describe hle, fileLength_describe hb, ByteRange.mk.injEq]
  exact ⟨rfl, by omega⟩

/-- What a signature of `b` in blocks of `k` bytes, the last one cut off by the end of the file, says. -/
structure Describes (s : Signature) (k : Nat) (b : ByteArray) : Prop where
  fileLength : s.fileLength.toNat = b.size
  blockLength : s.blockLength.toNat = k
  count : s.blocks.length = (b.size + k - 1) / k
  block : ∀ i x, s.blocks[i]? = some x → x.index.toNat = i ∧
    x.weak = weakSum (b.extract (i * k) (min ((i + 1) * k) b.size)) ∧
    x.strong = Sha256.digest (b.extract (i * k) (min ((i + 1) * k) b.size))
  digest : s.digest = Sha256.digest b

theorem describes_describe (hb : b.size ≤ maxOffset) (hk : 0 < k) (hle : k ≤ maxBlockLength) :
    (describe k b).Describes k b where
  fileLength := fileLength_describe hb
  blockLength := blockLength_describe hle
  count := length_blocks_describe
  block := by
    intro i x hx
    have hlt : i < (b.size + k - 1) / k := length_blocks_describe (b := b) ▸ (List.getElem?_eq_some_iff.1 hx).1
    have hextract : b.extract (i * k) (min ((i + 1) * k) b.size) = b.extract (i * k) (i * k + k) := by
      rw [Bytes.extract_min, Nat.succ_mul]
    obtain rfl : blockOf k b i = x := by simpa [describe, hlt] using hx
    rw [hextract]
    exact ⟨index_blockOf hb hk ((lt_blockCount_iff hk).1 hlt), rfl, rfl⟩
  digest := rfl

theorem flaw?_describe (hb : b.size ≤ maxOffset) (hk : 0 < k) (hle : k ≤ maxBlockLength) :
    (describe k b).flaw? = none := by
  have hdescribes := describes_describe hb hk hle
  have hcount : (describe k b).blocks.length =
      if (describe k b).fileLength = 0 then 0 else (describe k b).blockCount := by
    rw [hdescribes.count, blockCount, hdescribes.fileLength, hdescribes.blockLength]
    split
    · next hz =>
      have hsize : b.size = 0 := by
        rw [← hdescribes.fileLength, hz]
        rfl
      rw [hsize, Nat.div_eq_of_lt (by omega)]
    · rfl
  refine flaw?_eq_none_iff.2 ⟨fun _ => ?_, ?_, hcount, fun i x hx => (hdescribes.block i x hx).1⟩
  · rwa [hdescribes.blockLength]
  · rwa [hdescribes.blockLength]

end Describe

end Signature

end FileSwarm
