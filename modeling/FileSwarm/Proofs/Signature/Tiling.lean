import Mathlib.Data.List.Basic
import FileSwarm.Signature.Basic

/-!
# Signatures without a flaw tile their file

A signature has no flaw exactly if its blocks are numbered in order and their ranges, with sums and products that stop
at the largest offset, are the whole file in pieces.

* `flaw?_eq_none_iff` : what is looked at, each check by itself;
* `lt_blockCount_iff` : how many blocks begin in the file; `lt_length_iff` : as many as a signature without a flaw has;
* `blockRange_of_lt`, `lt_of_blockRange_pos` : a range that is not empty begins where its block does, within the file;
* `InRow a b l` : some ranges, none empty, that follow one another from `a` to `b`;
* `inRow_blockRanges` : the ranges of as many blocks as the file has; `blockCount_of_inRow` : and of no other number;
* `flawless_iff_tiles` : all of it together.
-/

namespace FileSwarm

/-- Ranges that follow one another from `a` to `b`, none of them empty. -/
def InRow : Nat → Nat → List ByteRange → Prop
  | a, b, [] => a = b
  | a, b, r :: rest => r.start = a ∧ 0 < r.length ∧ InRow r.stop b rest

namespace InRow

variable {a b : Nat} {l : List ByteRange}

theorem pos_of_mem (h : InRow a b l) {r : ByteRange} (hr : r ∈ l) : 0 < r.length := by
  induction l generalizing a with
  | nil => exact absurd hr List.not_mem_nil
  | cons q rest ih =>
    rcases List.mem_cons.1 hr with rfl | hr
    · exact h.2.1
    · exact ih h.2.2 hr

theorem stop_of_snoc {r : ByteRange} (h : InRow a b (l ++ [r])) : r.stop = b := by
  induction l generalizing a with
  | nil => exact h.2.2
  | cons q rest ih => exact ih h.2.2

end InRow

namespace Signature

/-! ## What is looked at -/

theorem flaw?_eq_none_iff {s : Signature} : s.flaw? = none ↔
    (0 < s.fileLength.toNat → 0 < s.blockLength.toNat) ∧ s.blockLength.toNat ≤ maxBlockLength ∧
      s.blocks.length = (if s.fileLength = 0 then 0 else s.blockCount) ∧
      ∀ (i : Nat) (x : Block), s.blocks[i]? = some x → x.index.toNat = i := by
  have hzero : (0 < s.fileLength ∧ s.blockLength = 0) ↔ ¬(0 < s.fileLength.toNat → 0 < s.blockLength.toNat) := by
    rw [UInt64.lt_iff_toNat_lt, ← UInt64.toNat_inj, Classical.not_imp, Nat.not_lt, Nat.le_zero]
    rfl
  have hindex : s.blocks.zipIdx.find? (fun p => p.1.index.toNat != p.2) = none ↔
      ∀ (i : Nat) (x : Block), s.blocks[i]? = some x → x.index.toNat = i := by
    simp only [List.find?_eq_none, Prod.forall, List.mem_zipIdx_iff_getElem?, bne_iff_ne, ne_eq, not_not]
    exact forall_comm
  unfold flaw?
  by_cases h₁ : 0 < s.fileLength ∧ s.blockLength = 0
  · rw [if_pos h₁]
    exact iff_of_false nofun fun h => hzero.1 h₁ h.1
  · rw [if_neg h₁]
    by_cases h₂ : maxBlockLength < s.blockLength.toNat
    · rw [if_pos h₂]
      exact iff_of_false nofun fun h => Nat.not_le.2 h₂ h.2.1
    · rw [if_neg h₂]
      dsimp only
      by_cases h₃ : s.blocks.length = if s.fileLength = 0 then 0 else s.blockCount
      · rw [if_neg (not_not.2 h₃), Option.map_eq_none_iff, hindex]
        exact ⟨fun h => ⟨not_not.1 fun hn => h₁ (hzero.2 hn), Nat.not_lt.1 h₂, h₃, h⟩, fun h => h.2.2.2⟩
      · rw [if_pos h₃]
        exact iff_of_false nofun fun h => h₃ h.2.2.1

/-- The blocks are as many as it takes to hold all bytes. -/
theorem lt_blockCount_iff {k : Nat} (hk : 0 < k) {n i : Nat} : i < (n + k - 1) / k ↔ i * k < n := by
  rw [Nat.lt_div_iff_mul_lt hk]
  omega

section Flawless

variable {s : Signature} (h : s.flaw? = none)

include h

theorem width_of_flawless (hne : s.blocks ≠ []) : 0 < s.blockLength.toNat := by
  obtain ⟨hwidth, -, hcount, -⟩ := flaw?_eq_none_iff.1 h
  refine hwidth (Nat.pos_of_ne_zero fun hz => hne ?_)
  rw [if_pos (UInt64.toNat_inj.1 hz)] at hcount
  exact List.length_eq_zero_iff.1 hcount

/-- There is a block for every place where one begins in the file. -/
theorem lt_length_iff {i : Nat} : i < s.blocks.length ↔ i * s.blockLength.toNat < s.fileLength.toNat := by
  obtain ⟨hwidth, -, hcount, -⟩ := flaw?_eq_none_iff.1 h
  rw [hcount]
  split
  · next hz =>
    rw [hz]
    exact iff_of_false (Nat.not_lt_zero i) (Nat.not_lt_zero _)
  · next hz => exact lt_blockCount_iff (hwidth (Nat.pos_of_ne_zero fun hn => hz (UInt64.toNat_inj.1 hn)))

end Flawless

/-! ## Where the blocks are -/

variable {s : Signature}

/-- A block that begins in the file ends with its length, or with the file if that comes first. -/
theorem blockRange_of_lt {i : UInt64} (h : i.toNat * s.blockLength.toNat < s.fileLength.toNat) :
    s.blockRange i = ⟨i.toNat * s.blockLength.toNat, min s.blockLength.toNat
      (s.fileLength.toNat - i.toNat * s.blockLength.toNat)⟩ := by
  have hfile : s.fileLength.toNat ≤ maxOffset := Nat.le_of_lt_succ s.fileLength.toNat_lt
  simp only [blockRange, ByteRange.ofBounds, mulCapped, addCapped, ByteRange.mk.injEq]
  omega

theorem lt_of_blockRange_pos {i : UInt64} (h : 0 < (s.blockRange i).length) :
    i.toNat * s.blockLength.toNat < s.fileLength.toNat := by
  have hfile : s.fileLength.toNat ≤ maxOffset := Nat.le_of_lt_succ s.fileLength.toNat_lt
  simp only [blockRange, ByteRange.ofBounds, mulCapped, addCapped] at h
  omega

/-- The ranges of the blocks in the list, by their numbers. -/
def blockRanges (s : Signature) : List ByteRange :=
  (List.range s.blocks.length).map fun i => s.blockRange i.toUInt64

theorem toNat_toUInt64 {i : Nat} (h : i ≤ maxOffset) : i.toUInt64.toNat = i :=
  UInt64.toNat_ofNat_of_lt (Nat.lt_succ_of_le h)

theorem toNat_index {i : Nat} (hk : 0 < s.blockLength.toNat) (h : i * s.blockLength.toNat < s.fileLength.toNat) :
    i.toUInt64.toNat = i := by
  have hfile : s.fileLength.toNat ≤ maxOffset := Nat.le_of_lt_succ s.fileLength.toNat_lt
  have hle : i ≤ i * s.blockLength.toNat := Nat.le_mul_of_pos_right i hk
  exact toNat_toUInt64 (by omega)

/-- The ranges of `n` blocks from block `i` on are in a row up to the end of the file, if all of them begin in it
and it does not go on behind them. -/
theorem inRow_blocks (hk : 0 < s.blockLength.toNat) {i n : Nat}
    (hbegin : ∀ j < i + n, j * s.blockLength.toNat < s.fileLength.toNat)
    (hend : s.fileLength.toNat ≤ (i + n) * s.blockLength.toNat)
    (hnil : n = 0 → i * s.blockLength.toNat = s.fileLength.toNat) :
    InRow (i * s.blockLength.toNat) s.fileLength.toNat
      ((List.range' i n).map fun j => s.blockRange j.toUInt64) := by
  induction n generalizing i with
  | zero => exact hnil rfl
  | succ n ih =>
    have hi : i * s.blockLength.toNat < s.fileLength.toNat := hbegin i (by omega)
    have hnext : (i + 1) * s.blockLength.toNat = i * s.blockLength.toNat + s.blockLength.toNat := Nat.succ_mul _ _
    have hrange := blockRange_of_lt (s := s) (i := i.toUInt64) (by rwa [toNat_index hk hi])
    rw [toNat_index hk hi] at hrange
    rw [List.range'_succ, List.map_cons, hrange]
    refine ⟨rfl, by show 0 < min _ _; omega, ?_⟩
    have hadd : i + 1 + n = i + (n + 1) := by omega
    cases n with
    | zero =>
      -- the last block ends with the file
      rw [Nat.zero_add] at hend
      show i * s.blockLength.toNat + min _ _ = _
      omega
    | succ n =>
      have hlt : (i + 1) * s.blockLength.toNat < s.fileLength.toNat := hbegin (i + 1) (by omega)
      have hstop : i * s.blockLength.toNat + min s.blockLength.toNat (s.fileLength.toNat - i * s.blockLength.toNat) =
          (i + 1) * s.blockLength.toNat := by omega
      rw [ByteRange.stop, hstop]
      exact ih (fun j hj => hbegin j (by omega)) (by rwa [hadd]) nofun

/-- The ranges of as many blocks as the file has are the file in pieces. -/
theorem inRow_blockRanges (hk : 0 < s.blockLength.toNat) (hcount : s.blocks.length = s.blockCount) :
    InRow 0 s.fileLength.toNat s.blockRanges := by
  have hbegin : ∀ {j}, j < s.blocks.length ↔ j * s.blockLength.toNat < s.fileLength.toNat := by
    intro j
    rw [hcount, blockCount, lt_blockCount_iff hk]
  have hend : s.fileLength.toNat ≤ (0 + s.blocks.length) * s.blockLength.toNat := by
    rw [Nat.zero_add]
    exact Nat.le_of_not_lt fun h => Nat.lt_irrefl _ (hbegin.2 h)
  have hnil : s.blocks.length = 0 → 0 * s.blockLength.toNat = s.fileLength.toNat := by
    intro hz
    rw [hz, Nat.zero_add, Nat.zero_mul] at hend
    omega
  have hrow := inRow_blocks (i := 0) hk (fun j hj => hbegin.1 (by omega)) hend hnil
  rwa [Nat.zero_mul, ← List.range_eq_range'] at hrow

section InRow

variable (hindex : ∀ (i : Nat) (x : Block), s.blocks[i]? = some x → x.index.toNat = i)

include hindex

theorem toNat_position {i : Nat} (hi : i < s.blocks.length) : i.toUInt64.toNat = i := by
  have hnumber := hindex i _ (List.getElem?_eq_getElem hi)
  exact toNat_toUInt64 (Nat.le_of_lt_succ (hnumber ▸ (s.blocks[i].index).toNat_lt))

variable (h : InRow 0 s.fileLength.toNat s.blockRanges)

include h

/-- No block of the row is empty, so all of them begin in the file. -/
theorem begins_of_inRow {i : Nat} (hi : i < s.blocks.length) :
    i * s.blockLength.toNat < s.fileLength.toNat := by
  have hpos := h.pos_of_mem (List.mem_map.2 ⟨i, List.mem_range.2 hi, rfl⟩)
  rw [← toNat_position hindex hi]
  exact lt_of_blockRange_pos hpos

theorem ends_of_inRow : s.fileLength.toNat ≤ s.blocks.length * s.blockLength.toNat := by
  cases hn : s.blocks.length with
  | zero =>
    rw [blockRanges, hn] at h
    have hnil : 0 = s.fileLength.toNat := h
    rw [← hnil]
    exact Nat.zero_le _
  | succ n =>
    have hlt : n < s.blocks.length := by omega
    have hnumber := toNat_position hindex hlt
    have hlast := blockRange_of_lt (s := s) (i := n.toUInt64) (by rw [hnumber]; exact begins_of_inRow hindex h hlt)
    rw [blockRanges, hn, List.range_succ, List.map_append, List.map_singleton] at h
    have hstop := h.stop_of_snoc
    rw [hlast, ByteRange.stop, hnumber] at hstop
    dsimp only at hstop
    rw [Nat.succ_mul]
    omega

/-- Ranges that are the file in pieces are those of as many blocks as the file has. -/
theorem blockCount_of_inRow (hk : 0 < s.blockLength.toNat) : s.blocks.length = s.blockCount := by
  refine Nat.le_antisymm (Nat.le_of_not_lt fun hlt => ?_) (Nat.le_of_not_lt fun hlt => ?_)
  · exact Nat.lt_irrefl _ ((lt_blockCount_iff hk).2 (begins_of_inRow hindex h hlt))
  · exact Nat.not_le.2 ((lt_blockCount_iff hk).1 hlt) (ends_of_inRow hindex h)

end InRow

/-! ## The check and the ranges -/

theorem inRow_of_flawless (h : s.flaw? = none) : s.fileLength = 0 ∧ s.blocks = [] ∨
    1 ≤ s.blockLength.toNat ∧ InRow 0 s.fileLength.toNat s.blockRanges := by
  obtain ⟨hwidth, -, hcount, -⟩ := flaw?_eq_none_iff.1 h
  by_cases hz : s.fileLength = 0
  · rw [if_pos hz] at hcount
    exact .inl ⟨hz, List.length_eq_zero_iff.1 hcount⟩
  · rw [if_neg hz] at hcount
    have hk := hwidth (Nat.pos_of_ne_zero fun h => hz (UInt64.toNat_inj.1 h))
    exact .inr ⟨hk, inRow_blockRanges hk hcount⟩

theorem length_of_inRow (hindex : ∀ (i : Nat) (x : Block), s.blocks[i]? = some x → x.index.toNat = i)
    (h : s.fileLength = 0 ∧ s.blocks = [] ∨ 1 ≤ s.blockLength.toNat ∧ InRow 0 s.fileLength.toNat s.blockRanges) :
    s.blocks.length = if s.fileLength = 0 then 0 else s.blockCount := by
  obtain ⟨hz, hnil⟩ | ⟨hk, hrow⟩ := h
  · rw [if_pos hz, hnil]
    rfl
  · rw [blockCount_of_inRow hindex hrow hk]
    split
    · next hz =>
      rw [blockCount, hz]
      exact Nat.div_eq_of_lt (by show 0 + _ - 1 < _; omega)
    · rfl

theorem length_blockRange (h : s.flaw? = none) {i : Nat} (hi : i < s.blocks.length) :
    (s.blockRange i.toUInt64).length =
      min s.blockLength.toNat (s.fileLength.toNat - i * s.blockLength.toNat) := by
  have hlt := (lt_length_iff h).1 hi
  have hnumber := toNat_index (width_of_flawless h (List.ne_nil_of_length_pos (Nat.zero_lt_of_lt hi))) hlt
  rw [blockRange_of_lt (by rwa [hnumber]), hnumber]

/-- A signature has no flaw exactly if its block length is one that a signature may have, its blocks are numbered in
order, and their ranges are the file in pieces, none of them empty; a file without bytes has no blocks, of whatever
length. All blocks but the last then have the block length, and the last has at least one byte and no more than
that. -/
theorem flawless_iff_tiles (s : Signature) :
    (s.flaw? = none ↔ s.blockLength.toNat ≤ 65536 ∧
      (∀ (i : Nat) (x : Block), s.blocks[i]? = some x → x.index.toNat = i) ∧
      (s.fileLength = 0 ∧ s.blocks = [] ∨
        1 ≤ s.blockLength.toNat ∧ InRow 0 s.fileLength.toNat s.blockRanges)) ∧
    (s.flaw? = none → ∀ i < s.blocks.length,
      (i + 1 < s.blocks.length → (s.blockRange i.toUInt64).length = s.blockLength.toNat) ∧
      (i + 1 = s.blocks.length → 1 ≤ (s.blockRange i.toUInt64).length ∧
        (s.blockRange i.toUInt64).length ≤ s.blockLength.toNat)) := by
  refine ⟨⟨fun h => ?_, ?_⟩, fun h i hi => ?_⟩
  · obtain ⟨-, hlong, -, hindex⟩ := flaw?_eq_none_iff.1 h
    exact ⟨hlong, hindex, inRow_of_flawless h⟩
  · rintro ⟨hlong, hindex, htiles⟩
    refine flaw?_eq_none_iff.2 ⟨fun hpos => ?_, hlong, length_of_inRow hindex htiles, hindex⟩
    rcases htiles with ⟨hz, -⟩ | ⟨hk, -⟩
    · rw [hz] at hpos
      exact absurd hpos (Nat.lt_irrefl 0)
    · exact hk
  · have hlt := (lt_length_iff h).1 hi
    have hk := width_of_flawless h (List.ne_nil_of_length_pos (Nat.zero_lt_of_lt hi))
    rw [length_blockRange h hi]
    refine ⟨fun hnext => ?_, fun _ => by omega⟩
    have hnext := (lt_length_iff h).1 hnext
    rw [Nat.succ_mul] at hnext
    omega

/-- Three blocks of two bytes for a file of five. -/
def threeBlocks : Signature :=
  ⟨5, 2, [⟨0, 1, .replicate 32 0⟩, ⟨1, 1, .replicate 32 0⟩, ⟨2, 1, .replicate 32 0⟩], .replicate 32 0⟩

theorem threeBlocks_tiles : threeBlocks.flaw? = none ∧ InRow 0 5 [⟨0, 2⟩, ⟨2, 2⟩, ⟨4, 1⟩] ∧
    (threeBlocks.blockRange 0).length = 2 ∧ (threeBlocks.blockRange 2).length ≤ 2 := by
  have hflaw : threeBlocks.flaw? = none := by decide
  obtain ⟨htiles, hlengths⟩ := flawless_iff_tiles threeBlocks
  obtain ⟨-, -, ⟨hz, -⟩ | ⟨-, hrow⟩⟩ := htiles.1 hflaw
  · exact nomatch hz
  · exact ⟨hflaw, hrow, (hlengths hflaw 0 (by decide)).1 (by decide), ((hlengths hflaw 2 (by decide)).2 rfl).2⟩

end Signature

end FileSwarm
