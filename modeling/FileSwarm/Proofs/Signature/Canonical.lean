import FileSwarm.Proofs.Signature.Codec

/-!
# One encoding for each signature

What is read from a byte string, put down again, stands where it was read: a number
(`holds_little_takeLittle`), a hash, a block, and so the whole signature (`holds_parse`). The bytes a
signature is read from are therefore the ones it is written as.

* `decode_eq_ok` : a byte string is read as a signature exactly if that signature has no flaw and its
  bytes stand in front;
* `decode_cut` : cut short anywhere, the bytes of a signature are refused as truncated;
* `decode_canonical` : both, and that what two byte strings read as one signature have in common.
-/

namespace FileSwarm

namespace Bytes

theorem takeLittle_lt (b : ByteArray) (start width : Nat) : takeLittle b start width < 256 ^ width := by
  induction width generalizing start with
  | zero => exact Nat.one_pos
  | succ width ih =>
    have hlow := (byteAt b start).toNat_lt
    have hhigh := ih (start + 1)
    rw [takeLittle, Nat.pow_succ]
    omega

/-- A number that was read, put down again, stands where it was read. -/
theorem holds_little_takeLittle (b : ByteArray) (start width : Nat) :
    Holds b start (little width (takeLittle b start width)) := by
  induction width generalizing start with
  | zero => exact fun i hi => absurd hi (Nat.not_lt_zero i)
  | succ width ih =>
    have hbyte := (byteAt b start).toNat_lt
    have hlow : (takeLittle b start (width + 1)).toUInt8 = byteAt b start := by
      apply UInt8.toNat_inj.1
      rw [Nat.toUInt8, UInt8.toNat_ofNat', takeLittle]
      omega
    have hhigh : takeLittle b start (width + 1) / 256 = takeLittle b (start + 1) width := by
      rw [takeLittle]
      omega
    rw [little_succ, holds_append, hlow, hhigh]
    refine ⟨fun i hi => ?_, ih (start + 1)⟩
    obtain rfl : i = 0 := Nat.lt_one_iff.1 hi
    rfl

theorem holds_ofBytesAt (b : ByteArray) (start : Nat) : Holds b start (Digest.ofBytesAt b start).bytes := by
  intro i hi
  have hlt : i < 32 := by rwa [size_bytes] at hi
  have hbyte : byteAt (Digest.ofBytesAt b start).bytes i = (Digest.ofBytesAt b start)[i] := by
    rw [byteAt, dif_pos hi]
    rfl
  rw [hbyte, Digest.ofBytesAt, Vector.getElem_ofFn]

theorem holds_zero_iff {b p : ByteArray} (h : p.size ≤ b.size) : Holds b 0 p ↔ ∃ t, b = p ++ t := by
  constructor
  · intro hp
    refine ⟨b.extract p.size b.size, ext_byte? fun o => ?_⟩
    rw [byte?_append, byte?_extract, Nat.min_self]
    split
    · next ho =>
      have hb : o < b.size := Nat.lt_of_lt_of_le ho h
      have hbyte := hp o ho
      rw [Nat.zero_add, byteAt, dif_pos hb, byteAt, dif_pos ho] at hbyte
      rw [byte?_of_lt hb, byte?_of_lt ho, hbyte]
    · next ho =>
      rw [Nat.add_sub_cancel' (Nat.le_of_not_lt ho)]
      split
      · rfl
      · exact byte?_eq_none.2 (by omega)
  · rintro ⟨t, rfl⟩
    exact (holds_append.1 (holds_self _)).1

/-- What stands within the first of two pieces stands there without the second. -/
theorem Holds.left {b c p : ByteArray} {start : Nat} (h : Holds (b ++ c) start p)
    (hstop : start + p.size ≤ b.size) : Holds b start p := by
  intro i hi
  have hbyte := h i hi
  rwa [byteAt_append, if_pos (by omega)] at hbyte

end Bytes

namespace Signature

open Bytes

theorem holds_blockAt (b : ByteArray) (start : Nat) : Holds b start (blockBytes (blockAt b start)) := by
  have hindex : (blockAt b start).index.toNat = takeLittle b start 8 :=
    UInt64.toNat_ofNat_of_lt' (takeLittle_lt b start 8)
  have hweak : (blockAt b start).weak.toNat = takeLittle b (start + 8) 4 :=
    UInt32.toNat_ofNat_of_lt' (takeLittle_lt b (start + 8) 4)
  rw [blockBytes, hindex, hweak, holds_append, holds_append, ByteArray.size_append, size_little, size_little]
  exact ⟨⟨holds_little_takeLittle b start 8, holds_little_takeLittle b (start + 8) 4⟩,
    holds_ofBytesAt b (start + 12)⟩

theorem holds_blocksAt (b : ByteArray) (start n : Nat) :
    Holds b start (blocksBytes ((List.range n).map fun i => blockAt b (start + blockSize * i))) := by
  induction n generalizing start with
  | zero => exact fun i hi => absurd hi (Nat.not_lt_zero i)
  | succ n ih =>
    rw [map_blockAt_succ, blocksBytes, holds_append, size_blockBytes]
    exact ⟨holds_blockAt b start, ih (start + blockSize)⟩

/-- A signature that was read stands in front of the bytes it was read from. -/
theorem holds_parse (b : ByteArray) : Holds b 0 (encode (parse b (takeLittle b 16 8))) := by
  generalize hcount : takeLittle b 16 8 = count
  have hlength : (parse b count).fileLength.toNat = takeLittle b 0 8 :=
    UInt64.toNat_ofNat_of_lt' (takeLittle_lt b 0 8)
  have hblock : (parse b count).blockLength.toNat = takeLittle b 8 8 :=
    UInt64.toNat_ofNat_of_lt' (takeLittle_lt b 8 8)
  have hblocks : (parse b count).blocks.length = count := by rw [parse, List.length_map, List.length_range]
  rw [holds_encode, hlength, hblock, hblocks]
  refine ⟨holds_little_takeLittle b 0 8, holds_little_takeLittle b 8 8, ?_, holds_blocksAt b headerSize count,
    holds_ofBytesAt b _⟩
  rw [← hcount]
  exact holds_little_takeLittle b 16 8

/-- A byte string is read as a signature exactly if the signature has no flaw and its bytes stand in
front. -/
theorem decode_eq_ok {b : ByteArray} {s : Signature} :
    decode b = .ok s ↔ s.flaw? = none ∧ ∃ t, b = encode s ++ t := by
  constructor
  · intro h
    rw [decode] at h
    dsimp only at h
    split at h
    · cases h
    · next hsize =>
      split at h
      · cases h
      · next hflaw =>
        injection h with h
        have hcount : s.blocks.length = takeLittle b 16 8 := by
          rw [← h, parse, List.length_map, List.length_range]
        refine ⟨h ▸ hflaw, (holds_zero_iff ?_).1 (h ▸ holds_parse b)⟩
        rw [size_encode, hcount]
        omega
  · rintro ⟨hflaw, t, rfl⟩
    have hsize : (encode s).size ≤ (encode s ++ t).size := by
      rw [ByteArray.size_append]
      exact Nat.le_add_right _ _
    exact decode_of_holds hflaw ((holds_zero_iff hsize).2 ⟨t, rfl⟩) hsize

/-- Cut short anywhere, the bytes of a signature are refused as truncated. -/
theorem decode_cut {s : Signature} (h : s.flaw? = none) {p t : ByteArray} (hp : encode s = p ++ t)
    (ht : 0 < t.size) : decode p = .error .truncated := by
  have hsize : p.size + t.size = encodedSize s.blocks.length := by
    rw [← size_encode, hp, ByteArray.size_append]
  rw [decode]
  refine if_pos ?_
  by_cases hheader : p.size < headerSize
  · exact .inl hheader
  -- the number of blocks is still there, so the size asked for is the size before the cut
  · have hholds : Holds p 16 (little 8 s.blocks.length) := by
      have hall := (holds_encode.1 (holds_self (encode s))).2.2.1
      rw [hp] at hall
      refine hall.left ?_
      rw [size_little]
      exact Nat.le_of_not_lt hheader
    have hcount : takeLittle p 16 8 = s.blocks.length :=
      takeLittle_of_holds hholds (Nat.lt_of_le_of_lt (length_blocks_le h) s.fileLength.toNat_lt)
    rw [hcount]
    exact .inr (by omega)

/-- Every signature has one encoding. Without a flaw it is read back from its bytes whatever comes after
them, and from no strict prefix of them, which is refused as truncated. What is read from a byte string
has no flaw, and its bytes are a prefix of the string: two strings read as one signature share it. -/
theorem decode_canonical :
    (∀ s : Signature, s.flaw? = none →
      (∀ t, decode (encode s ++ t) = .ok s) ∧
        ∀ p t, encode s = p ++ t → 0 < t.size → decode p = .error .truncated) ∧
    (∀ b s, decode b = .ok s → s.flaw? = none ∧ ∃ t, b = encode s ++ t) ∧
    ∀ b c s, decode b = .ok s → decode c = .ok s →
      b.extract 0 (encode s).size = encode s ∧ c.extract 0 (encode s).size = encode s := by
  have hfront : ∀ b s, decode b = .ok s → b.extract 0 (encode s).size = encode s := by
    intro b s hb
    obtain ⟨-, t, rfl⟩ := decode_eq_ok.1 hb
    exact ByteArray.extract_append_eq_left rfl
  refine ⟨fun s hs => ⟨fun t => decode_eq_ok.2 ⟨hs, t, rfl⟩, fun p t => decode_cut hs⟩,
    fun b s => decode_eq_ok.1, fun b c s hb hc => ⟨hfront b s hb, hfront c s hc⟩⟩

/-- The signature of three bytes in blocks of two. -/
def twoBlocks : Signature :=
  ⟨3, 2, [⟨0, 5, .replicate 32 1⟩, ⟨1, 9, .replicate 32 2⟩], .replicate 32 3⟩

theorem twoBlocks_canonical :
    twoBlocks.flaw? = none ∧ decode (encode twoBlocks ++ ⟨#[7]⟩) = .ok twoBlocks ∧
      decode (encode twoBlocks ++ ⟨#[8, 9]⟩) = .ok twoBlocks ∧
      (encode twoBlocks ++ ⟨#[8, 9]⟩).extract 0 (encode twoBlocks).size = encode twoBlocks ∧
      decode ((encode twoBlocks).extract 0 30) = .error .truncated := by
  have hflaw : twoBlocks.flaw? = none := by decide
  have hsize : (encode twoBlocks).size = 144 := size_encode twoBlocks
  have hcut : encode twoBlocks = (encode twoBlocks).extract 0 30 ++ (encode twoBlocks).extract 30 144 := by
    rw [extract_append_extract (by decide) (by decide), ← hsize, ByteArray.extract_zero_size]
  have hrest : 0 < ((encode twoBlocks).extract 30 144).size := by
    rw [ByteArray.size_extract, hsize]
    decide
  obtain ⟨hround, -, hshared⟩ := decode_canonical
  have hseven := (hround twoBlocks hflaw).1 ⟨#[7]⟩
  have height := (hround twoBlocks hflaw).1 ⟨#[8, 9]⟩
  exact ⟨hflaw, hseven, height, (hshared _ _ _ hseven height).2, (hround twoBlocks hflaw).2 _ _ hcut hrest⟩

end Signature

end FileSwarm
