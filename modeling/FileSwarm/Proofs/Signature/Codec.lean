import Mathlib.Algebra.Group.Nat.Defs
import FileSwarm.Proofs.Signature.Builder
import FileSwarm.Signature.Codec

/-!
# Signatures survive their encoding

`Bytes.Holds b start piece` : the bytes of `piece` stand in `b` from `start` on. A number put down
with `putLittle` is read back from wherever it stands (`takeLittle_of_holds`), and so is a hash and a
block. An encoded signature is a chain of pieces, each of which stands behind those before it.

* `holds_encode` : what stands where in an encoded signature;
* `decode_of_holds`, `decode_encode` : a signature without a flaw is read back from its bytes.
-/

namespace FileSwarm

namespace Bytes

/-- The bytes of `piece` stand in `b` from `start` on. -/
def Holds (b : ByteArray) (start : Nat) (piece : ByteArray) : Prop :=
  ∀ i < piece.size, byteAt b (start + i) = byteAt piece i

theorem holds_self (b : ByteArray) : Holds b 0 b := fun i _ => by rw [Nat.zero_add]

theorem byteAt_eq (b : ByteArray) (i : Nat) : byteAt b i = (byte? b i).getD 0 := by
  unfold byteAt
  split
  · next h => rw [byte?_of_lt h]; rfl
  · next h => rw [byte?_eq_none.2 (Nat.le_of_not_lt h)]; rfl

theorem byteAt_append (a b : ByteArray) (i : Nat) :
    byteAt (a ++ b) i = if i < a.size then byteAt a i else byteAt b (i - a.size) := by
  rw [byteAt_eq, byteAt_eq, byteAt_eq, byte?_append]
  split <;> rfl

theorem holds_append {b p q : ByteArray} {start : Nat} :
    Holds b start (p ++ q) ↔ Holds b start p ∧ Holds b (start + p.size) q := by
  constructor
  · intro h
    refine ⟨fun i hi => ?_, fun i hi => ?_⟩
    · have := h i (by rw [ByteArray.size_append]; omega)
      rwa [byteAt_append, if_pos hi] at this
    · have := h (p.size + i) (by rw [ByteArray.size_append]; omega)
      rwa [byteAt_append, if_neg (by omega), Nat.add_sub_cancel_left, ← Nat.add_assoc] at this
  · rintro ⟨hp, hq⟩ i hi
    rw [byteAt_append]
    split
    · next hlt => exact hp i hlt
    · next hge =>
      have := hq (i - p.size) (by rw [ByteArray.size_append] at hi; omega)
      rwa [Nat.add_assoc, Nat.add_sub_cancel' (Nat.le_of_not_lt hge)] at this

/-- The low `width` bytes of a number. -/
def little (width n : Nat) : ByteArray := putLittle ByteArray.empty width n

theorem push_eq (b : ByteArray) (x : UInt8) : b.push x = b ++ ByteArray.empty.push x :=
  ByteArray.ext (by rw [ByteArray.data_append, ByteArray.data_push]; exact Array.push_eq_append)

theorem putLittle_eq (b : ByteArray) (width n : Nat) : putLittle b width n = b ++ little width n := by
  induction width generalizing b n with
  | zero => exact ByteArray.append_empty.symm
  | succ width ih =>
    have hlittle : little (width + 1) n = ByteArray.empty.push n.toUInt8 ++ little width (n / 256) :=
      ih (ByteArray.empty.push n.toUInt8) (n / 256)
    rw [putLittle, ih, hlittle, push_eq b, ByteArray.append_assoc]

theorem little_succ (width n : Nat) :
    little (width + 1) n = ByteArray.empty.push n.toUInt8 ++ little width (n / 256) :=
  putLittle_eq (ByteArray.empty.push n.toUInt8) width (n / 256)

@[simp] theorem size_little (width n : Nat) : (little width n).size = width := by
  induction width generalizing n with
  | zero => rfl
  | succ width ih =>
    rw [little_succ, ByteArray.size_append, ih]
    exact Nat.add_comm 1 width

/-- A number is read back from the bytes it was put down as. -/
theorem takeLittle_of_holds {b : ByteArray} {start width n : Nat} (h : Holds b start (little width n))
    (hn : n < 256 ^ width) : takeLittle b start width = n := by
  induction width generalizing start n with
  | zero =>
    rw [Nat.pow_zero] at hn
    exact (Nat.lt_one_iff.1 hn).symm
  | succ width ih =>
    rw [little_succ, holds_append] at h
    obtain ⟨hlow, hhigh⟩ := h
    have hbyte : byteAt b start = n.toUInt8 := hlow 0 Nat.one_pos
    have hrest : takeLittle b (start + 1) width = n / 256 :=
      ih hhigh (Nat.div_lt_of_lt_mul (by rwa [Nat.pow_succ, Nat.mul_comm] at hn))
    have hlow : n.toUInt8.toNat = n % 256 := rfl
    rw [takeLittle, hbyte, hrest, hlow]
    omega

theorem size_bytes (d : Digest) : d.bytes.size = 32 := d.size_toArray

theorem ofBytesAt_of_holds {b : ByteArray} {start : Nat} {d : Digest} (h : Holds b start d.bytes) :
    Digest.ofBytesAt b start = d := by
  apply Vector.ext
  intro i hi
  have hbyte : byteAt d.bytes i = d[i] := by
    rw [byteAt, dif_pos (by rw [size_bytes]; exact hi)]
    rfl
  rw [Digest.ofBytesAt, Vector.getElem_ofFn, ← hbyte]
  exact h i (by rw [size_bytes]; exact hi)

end Bytes

namespace Signature

open Bytes

/-- The bytes of a block. -/
def blockBytes (x : Block) : ByteArray := little 8 x.index.toNat ++ little 4 x.weak.toNat ++ x.strong.bytes

@[simp] theorem size_blockBytes (x : Block) : (blockBytes x).size = blockSize := by
  simp [blockBytes, size_bytes, blockSize]

theorem encodeBlock_eq (out : ByteArray) (x : Block) : encodeBlock out x = out ++ blockBytes x := by
  rw [encodeBlock, putLittle_eq, putLittle_eq, blockBytes, ByteArray.append_assoc, ByteArray.append_assoc,
    ByteArray.append_assoc]

/-- The bytes of some blocks. -/
def blocksBytes : List Block → ByteArray
  | [] => ByteArray.empty
  | x :: l => blockBytes x ++ blocksBytes l

theorem foldl_encodeBlock (out : ByteArray) (l : List Block) :
    l.foldl encodeBlock out = out ++ blocksBytes l := by
  induction l generalizing out with
  | nil => exact ByteArray.append_empty.symm
  | cons x l ih => rw [List.foldl_cons, ih, encodeBlock_eq, blocksBytes, ByteArray.append_assoc]

theorem encode_eq (s : Signature) :
    encode s = little 8 s.fileLength.toNat ++ little 8 s.blockLength.toNat ++ little 8 s.blocks.length ++
      blocksBytes s.blocks ++ s.digest.bytes := by
  simp only [encode, putLittle_eq, foldl_encodeBlock, ByteArray.empty_append]

theorem blockAt_of_holds {b : ByteArray} {start : Nat} {x : Block} (h : Holds b start (blockBytes x)) :
    blockAt b start = x := by
  rw [blockBytes, holds_append, holds_append, ByteArray.size_append, size_little, size_little] at h
  obtain ⟨⟨hindex, hweak⟩, hstrong⟩ := h
  rw [blockAt, takeLittle_of_holds hindex x.index.toNat_lt, takeLittle_of_holds hweak x.weak.toNat_lt,
    ofBytesAt_of_holds hstrong]
  simp

@[simp] theorem size_blocksBytes (l : List Block) : (blocksBytes l).size = blockSize * l.length := by
  induction l with
  | nil => rfl
  | cons x l ih =>
    rw [blocksBytes, ByteArray.size_append, size_blockBytes, ih, List.length_cons, Nat.mul_succ, Nat.add_comm]

theorem size_encode (s : Signature) : (encode s).size = encodedSize s.blocks.length := by
  rw [encode_eq, encodedSize, headerSize, hashSize]
  simp only [ByteArray.size_append, size_little, size_blocksBytes, size_bytes, Nat.reduceAdd]

/-- Of the blocks at a place, the first stands there and the others one block further on. -/
theorem map_blockAt_succ (b : ByteArray) (start n : Nat) :
    (List.range (n + 1)).map (fun i => blockAt b (start + blockSize * i)) =
      blockAt b start :: (List.range n).map fun i => blockAt b (start + blockSize + blockSize * i) := by
  rw [List.range_succ_eq_map, List.map_cons, List.map_map, Nat.mul_zero, Nat.add_zero]
  refine List.cons_eq_cons.2 ⟨rfl, List.map_congr_left fun i _ => ?_⟩
  rw [Function.comp_apply, Nat.mul_succ, Nat.add_assoc, Nat.add_comm blockSize]

theorem blocksAt_of_holds {b : ByteArray} {start : Nat} {l : List Block} (h : Holds b start (blocksBytes l)) :
    (List.range l.length).map (fun i => blockAt b (start + blockSize * i)) = l := by
  induction l generalizing start with
  | nil => rfl
  | cons x l ih =>
    rw [blocksBytes, holds_append, size_blockBytes] at h
    rw [List.length_cons, map_blockAt_succ, blockAt_of_holds h.1, ih h.2]

theorem length_blocks_le {s : Signature} (h : s.flaw? = none) : s.blocks.length ≤ s.fileLength.toNat := by
  refine Nat.le_of_not_lt fun hlt => ?_
  have hk := width_of_flawless h (List.ne_nil_of_length_pos (Nat.zero_lt_of_lt hlt))
  have hmul := (lt_length_iff h).1 hlt
  exact Nat.not_lt.2 (Nat.le_mul_of_pos_right _ hk) hmul

/-- What stands where in an encoded signature. -/
theorem holds_encode {b : ByteArray} {s : Signature} :
    Holds b 0 (encode s) ↔
      Holds b 0 (little 8 s.fileLength.toNat) ∧ Holds b 8 (little 8 s.blockLength.toNat) ∧
        Holds b 16 (little 8 s.blocks.length) ∧ Holds b headerSize (blocksBytes s.blocks) ∧
          Holds b (headerSize + blockSize * s.blocks.length) s.digest.bytes := by
  rw [encode_eq]
  simp only [holds_append, ByteArray.size_append, size_little, size_blocksBytes, Nat.zero_add, and_assoc]
  rfl

/-- A signature without a flaw is read back from where its bytes stand. -/
theorem decode_of_holds {b : ByteArray} {s : Signature} (h : s.flaw? = none) (hb : Holds b 0 (encode s))
    (hsize : (encode s).size ≤ b.size) : decode b = .ok s := by
  obtain ⟨hlength, hblock, hcount, hblocks, hdigest⟩ := holds_encode.1 hb
  have hlt : s.blocks.length < 256 ^ 8 := Nat.lt_of_le_of_lt (length_blocks_le h) s.fileLength.toNat_lt
  have htake : takeLittle b 16 8 = s.blocks.length := takeLittle_of_holds hcount hlt
  have hparse : parse b s.blocks.length = s := by
    rw [parse, takeLittle_of_holds hlength s.fileLength.toNat_lt,
      takeLittle_of_holds hblock s.blockLength.toNat_lt, blocksAt_of_holds hblocks, ofBytesAt_of_holds hdigest]
    simp
  rw [size_encode] at hsize
  rw [decode]
  dsimp only
  rw [htake, if_neg (by unfold encodedSize at hsize ⊢; omega), hparse, h]

/-- A signature without a flaw is read back from its bytes. -/
theorem decode_encode {s : Signature} (h : s.flaw? = none) : decode (encode s) = .ok s :=
  decode_of_holds h (holds_self _) (Nat.le_refl _)

end Signature

end FileSwarm
