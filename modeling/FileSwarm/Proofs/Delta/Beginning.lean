import FileSwarm.Proofs.Delta.Patching
import FileSwarm.Proofs.Delta.Signing

/-!
# An unchanged beginning is reused

A window that is a hit is followed by the one that begins where it ends. So as long as a local file is like the file of
a signature, the search goes from the border of one block to the next, whatever else it takes for a block, and finds
each block in its place.

* `plainWindows_suffix` : the search comes to a border if the windows on all borders before it are hits;
* `mem_plainScan_beginning`, `mem_plainScan_self` : blocks of a common beginning, and all blocks of the file itself;
* `copyMatches_returns`, `copyMatches_complete` : what copying returns, and when the part map is complete then;
* `beginning_reused` : from the pieces that were signed to the part map.
-/

namespace FileSwarm

open Signature (hits)

/-! ## From border to border -/

section Borders

variable {blocks : List Block} {width : Nat} {content : ByteArray} {pos : Nat}

theorem mem_plainWindows_of_hit (hpos : 0 < width) (hfit : pos + width ≤ content.size) {x : Block}
    (hx : x ∈ hits blocks (content.extract pos (pos + width))) :
    ⟨⟨pos, width⟩, x.index⟩ ∈ plainWindows blocks width content pos := by
  rw [plainWindows_hit hpos hfit (List.ne_nil_of_mem hx)]
  exact List.mem_append_left _ (List.mem_map.2 ⟨x, hx, rfl⟩)

theorem plainWindows_suffix (hpos : 0 < width) {n : Nat} (hall : ∀ i < n, i * width + width ≤ content.size ∧
      hits blocks (content.extract (i * width) (i * width + width)) ≠ []) :
    plainWindows blocks width content (n * width) <:+ plainWindows blocks width content 0 := by
  induction n with
  | zero => rw [Nat.zero_mul]
  | succ n ih =>
    obtain ⟨hfit, hhit⟩ := hall n (Nat.lt_succ_self n)
    refine List.IsSuffix.trans ?_ (ih fun i hi => hall i (Nat.lt_succ_of_lt hi))
    rw [plainWindows_hit hpos hfit hhit, Nat.succ_mul]
    exact List.suffix_append _ _

end Borders

/-! ## Blocks in their places -/

theorem extract_of_beginning {D L : ByteArray} {k j : Nat} (h : D.extract 0 k = L.extract 0 k) (hj : j ≤ k) (i : Nat) :
    D.extract i j = L.extract i j := by
  have hwithin : ∀ b : ByteArray, b.extract i j = (b.extract 0 k).extract i j := fun b => by
    rw [ByteArray.extract_extract, Nat.zero_add, Nat.zero_add, Nat.min_eq_left hj]
  rw [hwithin D, h, ← hwithin L]

namespace Signature

variable {p i : Nat} {D : ByteArray}

theorem clampLength_eq (hp : 1 ≤ p) (hle : p ≤ maxBlockLength) : clampLength p = p := by
  rw [clampLength, Nat.min_eq_left hle, Nat.max_eq_right hp]

theorem blockOf_mem_hits {blocks : List Block} (hx : blockOf p D i ∈ blocks) :
    blockOf p D i ∈ hits blocks (D.extract (i * p) (i * p + p)) := by
  refine List.mem_filter.2 ⟨hx, ?_⟩
  simp only [blockOf, Block.ofBytes, beq_self_eq_true, Bool.and_self]

variable (hD : D.size ≤ maxOffset) (hp : 1 ≤ p) (hle : p ≤ maxBlockLength)

include hD hp hle

theorem blockOf_mem_fullBlocks (hi : i * p + p ≤ D.size) : blockOf p D i ∈ (describe p D).fullBlocks := by
  have hlt : i * p < D.size := by omega
  refine List.mem_filter.2 ⟨(mem_blocks_describe hp).2 ⟨i, hlt, rfl⟩, ?_⟩
  rw [blockRange_describe hD hp hle hlt, blockLength_describe hle, beq_iff_eq]
  show min (i * p + p) D.size - i * p = p
  omega

omit hD hle in
theorem getLast?_blocks (hi : i * p < D.size) (hlast : D.size ≤ i * p + p) :
    (describe p D).blocks.getLast? = some (blockOf p D i) := by
  have hcount : (D.size + p - 1) / p = i + 1 := by
    refine Nat.div_eq_of_lt_le ?_ ?_
    · rw [Nat.succ_mul]; omega
    · rw [Nat.succ_mul, Nat.succ_mul]; omega
  rw [describe, hcount, List.range_succ, List.map_append, List.map_singleton, List.getLast?_concat]

end Signature

section Scan

variable {p k i : Nat} {D L : ByteArray} (hD : D.size ≤ maxOffset) (hp : 1 ≤ p) (hle : p ≤ Signature.maxBlockLength)

include hD hp hle

/-- A full block of a common beginning is found in its place. -/
theorem mem_plainScan_beginning (hsame : D.extract 0 k = L.extract 0 k) (hfull : i * p + p ≤ D.size)
    (hin : i * p + p ≤ k) : ⟨⟨i * p, p⟩, i.toUInt64⟩ ∈ plainScan (Signature.describe p D) L := by
  have hsize : min k D.size = min k L.size := by
    have := congrArg ByteArray.size hsame
    rwa [ByteArray.size_extract, ByteArray.size_extract, Nat.sub_zero, Nat.sub_zero] at this
  -- up to this block every window on a border is that of its block
  have hhit : ∀ j ≤ i, j * p + p ≤ L.size ∧ Signature.blockOf p D j ∈
      hits (Signature.describe p D).fullBlocks (L.extract (j * p) (j * p + p)) := by
    intro j hj
    have hmul : j * p ≤ i * p := Nat.mul_le_mul_right p hj
    refine ⟨by omega, ?_⟩
    rw [← extract_of_beginning hsame (by omega)]
    exact Signature.blockOf_mem_hits (Signature.blockOf_mem_fullBlocks hD hp hle (by omega))
  have hreached := plainWindows_suffix hp fun j hj => ⟨(hhit j (Nat.le_of_lt hj)).1,
    List.ne_nil_of_mem (hhit j (Nat.le_of_lt hj)).2⟩
  have hfound := mem_plainWindows_of_hit hp (hhit i (Nat.le_refl i)).1 (hhit i (Nat.le_refl i)).2
  rw [plainScan, Signature.blockLength_describe hle, (List.mergeSort_perm _ _).mem_iff]
  exact List.mem_append_left _ (hreached.mem hfound)

/-- A file is found in itself, block by block, the last one included. -/
theorem mem_plainScan_self {x : Block} (hx : x ∈ (Signature.describe p D).blocks) :
    ⟨(Signature.describe p D).blockRange x.index, x.index⟩ ∈ plainScan (Signature.describe p D) D := by
  obtain ⟨i, hi, rfl⟩ := (Signature.mem_blocks_describe hp).1 hx
  have hrange := Signature.blockRange_describe hD hp hle hi
  by_cases hfull : i * p + p ≤ D.size
  · rw [hrange, Nat.min_eq_left hfull, Nat.add_sub_cancel_left]
    exact mem_plainScan_beginning hD hp hle rfl hfull (k := D.size) hfull
  · have hlast := Signature.getLast?_blocks hp hi (Nat.le_of_lt (Nat.lt_of_not_le hfull))
    have hlength : min (i * p + p) D.size - i * p = D.size - i * p := by omega
    have hwindow : D.extract (D.size - (D.size - i * p)) D.size = D.extract (i * p) (i * p + p) := by
      rw [Nat.sub_sub_self (Nat.le_of_lt hi), ← Bytes.extract_min D _ (_ + _), Nat.min_eq_right (by omega)]
    have htail : ⟨⟨i * p, D.size - i * p⟩, (Signature.blockOf p D i).index⟩ ∈ plainTail (Signature.describe p D) D := by
      rw [plainTail, hlast]
      dsimp only
      rw [hrange, Signature.blockLength_describe hle, hlength]
      dsimp only
      rw [if_neg (by omega), hwindow, Nat.sub_sub_self (Nat.le_of_lt hi)]
      exact List.mem_map.2 ⟨_, Signature.blockOf_mem_hits List.mem_cons_self, rfl⟩
    rw [hrange, hlength, plainScan, (List.mergeSort_perm _ _).mem_iff]
    exact List.mem_append_right _ htail

theorem exists_block_describe {o : Nat} (ho : o < D.size) :
    ∃ x ∈ (Signature.describe p D).blocks, o ∈ (Signature.describe p D).blockRange x.index := by
  have hdown : o / p * p ≤ o := Nat.div_mul_le_self o p
  have hup : o < o / p * p + p := Nat.lt_div_mul_add hp
  have hlt : o / p * p < D.size := Nat.lt_of_le_of_lt hdown ho
  refine ⟨_, (Signature.mem_blocks_describe hp).2 ⟨o / p, hlt, rfl⟩, ?_⟩
  rw [Signature.blockRange_describe hD hp hle hlt, ByteRange.mem_iff]
  refine ⟨hdown, ?_⟩
  show o < o / p * p + (min (o / p * p + p) D.size - o / p * p)
  omega

end Scan

namespace Bench

/-- The disk is a part of the state, and the listener leaves it alone and never says stop. -/
structure Unmoved {σ : Type} (b : Bench σ) : Prop where
  get : ∀ d t, b.disk (b.putDisk d t) = d
  heard : ∀ percent t, b.disk (b.listen percent t).2 = b.disk t
  go : ∀ percent t, (b.listen percent t).1

variable {σ : Type} {b : Bench σ} {t : σ} {path : String} {n m : Nat} {D L old : ByteArray}

theorem findMatches_unmoved (hb : b.Unmoved) {s : Signature} (hvalid : s.flaw? = none)
    (hfile : (b.disk t).HasFile path n L) (hlim : L.size ≤ Disk.sizeLimit) :
    ∃ u, (b.findMatches path s).run.run t = (.ok (plainScan s L), u) ∧ b.disk u = b.disk t := by
  have hsteady : b.Steady (b.disk · = b.disk t) := fun percent u hu => (hb.heard percent u).trans hu
  have hthere : ∀ u, b.disk u = b.disk t → (b.disk u).HasFile path n L := fun u hu => by rwa [hu]
  obtain ⟨r, u, hrun, hu, hresult, hgo⟩ := findMatches_spec hsteady hthere hlim (width_of_valid hvalid) t rfl
  obtain ⟨found, rfl⟩ := hgo fun percent u _ => hb.go percent u
  exact ⟨u, by rw [hrun, hresult found rfl], hu⟩

/-- Copying matches that lie in the source returns a part map, if the temp file can have the file's length. -/
theorem copyMatches_returns (hb : b.Unmoved) {s : Signature} (hfile : (b.disk t).HasFile path n L)
    (hlim : L.size ≤ Disk.sizeLimit) (hold : (b.disk t).bytesAt? m = some old) (hnm : n ≠ m)
    (hlength : s.fileLength.toNat ≤ Disk.sizeLimit) (target : String) {l : List BlockMatch}
    (hin : ∀ x ∈ l, x.place.stop ≤ L.size) :
    ∃ u, (b.copyMatches path target ⟨m, true⟩ s l).run.run t = (.ok (s.marked l), u) := by
  have hends : b.Ends s l L old path ⟨m, true⟩ (b.disk t) ((b.copyMatches path target ⟨m, true⟩ s l).run.run t) :=
    copyMatches_ends hb.get hb.heard hfile hlim hold hnm target l
  rcases hrun : (b.copyMatches path target ⟨m, true⟩ s l).run.run t with ⟨failure | parts, u⟩
  · rw [hrun] at hends
    obtain ⟨-, -, hfar⟩ := hends hb.go (Disk.setLength_isOk hold rfl hlength)
    exact absurd (fun o x hx => hin x (List.mem_of_find?_eq_some hx)) hfar
  · rw [hrun] at hends
    exact ⟨u, by rw [Patched.parts_eq hends]⟩

/-- Matches for every byte of the file, all of them in the source, make the part map complete. -/
theorem copyMatches_complete (hb : b.Unmoved) {s : Signature} (hfile : (b.disk t).HasFile path n L)
    (hlim : L.size ≤ Disk.sizeLimit) (hold : (b.disk t).bytesAt? m = some old) (hnm : n ≠ m)
    (hlength : s.fileLength.toNat ≤ Disk.sizeLimit) (target : String) {l : List BlockMatch}
    (hfits : ∀ x ∈ l, x.Fits s) (hin : ∀ x ∈ l, x.place.stop ≤ L.size)
    (hall : ∀ o < s.fileLength.toNat, ∃ x ∈ l, o ∈ s.blockRange x.index) :
    ∃ parts u, (b.copyMatches path target ⟨m, true⟩ s l).run.run t = (.ok parts, u) ∧
      parts.length = s.fileLength.toNat ∧ parts.isComplete := by
  obtain ⟨u, hrun⟩ := copyMatches_returns hb hfile hlim hold hnm hlength target hin
  refine ⟨s.marked l, u, hrun, s.length_marked l, PartMap.isComplete_iff.2 fun o ho => ?_⟩
  rw [s.length_marked] at ho
  rw [s.state?_marked hfits, if_pos ho, if_pos (hall o ho)]

/-- A beginning that did not change is reused. Where a file `D`, signed in blocks of `p` bytes, and a local file `L`
have their first `k` bytes in common, the search finds every full block of them in its place, whatever else passes
for a block. If `L` is `D`, every block is found, a short one at the end too, and what is copied makes the part map
complete, so that nothing is left to be asked for. -/
theorem beginning_reused (hb : b.Unmoved) {p k : Nat} (hp : 1 ≤ p) (hle : p ≤ Signature.maxBlockLength)
    {pieces : List ByteArray} (hpieces : pieces.foldl (· ++ ·) ByteArray.empty = D) (hD : D.size ≤ maxOffset)
    (hsame : D.extract 0 k = L.extract 0 k) (hfile : (b.disk t).HasFile path n L) (hL : L.size ≤ Disk.sizeLimit) :
    ∃ s found u, (Signature.Builder.start p).updates? pieces = .ok s ∧
      (b.findMatches path s.finish).run.run t = (.ok found, u) ∧ b.disk u = b.disk t ∧
      (∀ i, (i + 1) * p ≤ D.size → (i + 1) * p ≤ k → ⟨⟨i * p, p⟩, i.toUInt64⟩ ∈ found) ∧
      (L = D → (∀ x ∈ s.finish.blocks, ⟨s.finish.blockRange x.index, x.index⟩ ∈ found) ∧
        ∀ target m old, n ≠ m → (b.disk u).bytesAt? m = some old →
          ∃ parts v, (b.copyMatches path target ⟨m, true⟩ s.finish found).run.run u = (.ok parts, v) ∧
            parts.isComplete ∧ parts.countAll .available = D.size ∧ parts.countAll .needed = 0) := by
  obtain ⟨s, hs, hfinish⟩ := Signature.Builder.updates?_start p hpieces hD
  rw [Signature.clampLength_eq hp hle] at hfinish
  obtain ⟨u, hrun, hu⟩ := findMatches_unmoved hb (Signature.flaw?_describe hD hp hle) hfile hL
  rw [← hfinish] at hrun
  refine ⟨s, _, u, hs, hrun, hu, fun i hfull hin => ?_, ?_⟩
  · rw [Nat.succ_mul] at hfull hin
    rw [hfinish]
    exact mem_plainScan_beginning hD hp hle hsame hfull hin
  · rintro rfl
    rw [hfinish]
    refine ⟨fun x hx => mem_plainScan_self hD hp hle hx, fun target m old hnm hold => ?_⟩
    have hlength := Signature.fileLength_describe (k := p) hD
    have hall : ∀ o < (Signature.describe p L).fileLength.toNat, ∃ x ∈ plainScan (Signature.describe p L) L,
        o ∈ (Signature.describe p L).blockRange x.index := fun o ho => by
      obtain ⟨x, hx, hox⟩ := exists_block_describe hD hp hle (hlength ▸ ho)
      exact ⟨_, mem_plainScan_self hD hp hle hx, hox⟩
    have hin : ∀ x ∈ plainScan (Signature.describe p L) L, x.place.stop ≤ L.size := fun x hx => by
      obtain ⟨-, -, -, -, hstop, -⟩ := mem_plainScan hx
      exact hstop
    obtain ⟨parts, v, hcopied, hsize, hcomplete⟩ := copyMatches_complete hb (hu ▸ hfile) hL hold hnm
      (hlength ▸ hL) target (fun x hx => BlockMatch.fits_of_mem_plainScan hx) hin hall
    have havailable := PartMap.countAll_of_isComplete hcomplete
    have hsum := parts.countAll_sum
    exact ⟨parts, v, hcopied, hcomplete, havailable.trans (hsize.trans hlength), by omega⟩

/-- A disk with a file of three bytes and a temp file. -/
def twinDisk : Disk :=
  ⟨#[.directory none, .file ⟨#[2, 1, 2]⟩ none, .file ⟨#[9]⟩ none], [([], 0), (["l"], 1), (["t"], 2)], []⟩

/-- Three bytes in blocks of two, in a file that is read byte by byte: the full block, the short one, and the copy. -/
theorem beginning_reused_twin :
    ∃ s found heard, (Signature.Builder.start 2).updates? [⟨#[2]⟩, ⟨#[1, 2]⟩] = .ok s ∧
      (bytewise.findMatches "l" s.finish).run.run (twinDisk, 0) = (.ok found, twinDisk, heard) ∧
      ⟨⟨0, 2⟩, 0⟩ ∈ found ∧ ⟨⟨2, 1⟩, 1⟩ ∈ found ∧
      ∃ parts v, (bytewise.copyMatches "l" "t" ⟨2, true⟩ s.finish found).run.run (twinDisk, heard) = (.ok parts, v) ∧
        parts.isComplete ∧ parts.countAll .available = 3 := by
  have hb : bytewise.Unmoved := ⟨fun _ _ => rfl, fun _ _ => rfl, fun _ _ => rfl⟩
  have hpieces : [⟨#[2]⟩, ⟨#[1, 2]⟩].foldl (· ++ ·) ByteArray.empty = ⟨#[2, 1, 2]⟩ := rfl
  have hfile : (bytewise.disk (twinDisk, 0)).HasFile "l" 1 ⟨#[2, 1, 2]⟩ := ⟨⟨by cbv, rfl⟩, rfl⟩
  obtain ⟨s, found, ⟨e, heard⟩, hs, hrun, hdisk, hfound, hall⟩ :=
    beginning_reused (p := 2) (k := 3) hb (by decide) (by decide) hpieces (by decide) rfl hfile (by decide)
  obtain rfl : e = twinDisk := hdisk
  obtain ⟨hblocks, hcopied⟩ := hall rfl
  obtain ⟨parts, v, hcopy, hcomplete, hsize, -⟩ := hcopied "t" 2 ⟨#[9]⟩ (by decide) rfl
  refine ⟨s, found, heard, hs, hrun, hfound 0 (by decide) (by decide), ?_, parts, v, hcopy, hcomplete, hsize⟩
  -- the short block is the second one of the signature
  obtain ⟨s', hs', hfinish⟩ := Signature.Builder.updates?_start 2 hpieces (by decide)
  obtain rfl : s' = s := Except.ok.inj (hs'.symm.trans hs)
  have hshort := hblocks (Signature.blockOf 2 ⟨#[2, 1, 2]⟩ 1) (by
    rw [hfinish]
    exact (Signature.mem_blocks_describe (by decide)).2 ⟨1, by decide, rfl⟩)
  rw [hfinish] at hshort
  exact hshort

end Bench

end FileSwarm
