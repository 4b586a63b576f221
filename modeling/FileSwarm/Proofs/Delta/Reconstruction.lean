import FileSwarm.Proofs.Delta.Copying
import FileSwarm.Proofs.Delta.Matching
import FileSwarm.Proofs.Signature.Codec

/-!
# A local copy and the missing bytes make the file

From the signature of `D`, sent as bytes, and a local file `L`, delta-sync makes a temp file that is
right wherever the part map says so; with the bytes of `D` in the ranges still needed it is `D`.

* `CollisionFree k D L` : no part of `L` passes for a block of `D` by its hash alone;
* `right_of_mem_plainScan` : then what the search finds tells the truth;
* `fill_spec` : putting in what is needed;
* `reconstruct_exact` : all steps together.
-/

namespace FileSwarm

/-- The ranges of the bytes in one state. -/
def PartMap.partsIn (m : PartMap) (s : PartState) : List ByteRange := (m.parts.filter (·.2 = s)).map (·.1)

namespace Bench

variable {σ : Type} (b : Bench σ)

/-- Put the bytes of `D` into some ranges of the temp file. -/
def fill (target : String) (into : Handle) (D : ByteArray) : List ByteRange → Work σ Unit
  | [] => return
  | r :: rest => do
    b.change target (·.writeAt into r.start (D.extract r.start r.stop))
    fill target into D rest

/-- Read a signature, look for its blocks in the file at `candidate`, copy them into the temp file, put
the bytes of `D` into what is still needed, and hash the result. -/
def reconstruct (candidate target : String) (into : Handle) (encoded D : ByteArray) : Work σ (PartMap × Bool) := do
  let s ← ExceptT.mk (pure (Signature.decode encoded))
  let found ← b.findMatches candidate s
  let parts ← b.copyMatches candidate target into s found
  b.fill target into D (parts.partsIn .needed)
  return (parts, ← b.verifyFile target s.digest)

end Bench

/-- No part of `L` has the hash of a block of `D` unless it is that block. -/
def CollisionFree (k : Nat) (D L : ByteArray) : Prop :=
  ∀ i o, o + (D.extract (i * k) (i * k + k)).size ≤ L.size →
    Sha256.digest (L.extract o (o + (D.extract (i * k) (i * k + k)).size)) =
      Sha256.digest (D.extract (i * k) (i * k + k)) →
    L.extract o (o + (D.extract (i * k) (i * k + k)).size) = D.extract (i * k) (i * k + k)

/-- What the search finds for a signature of `D` tells the truth. -/
theorem right_of_mem_plainScan {k : Nat} {D L : ByteArray} (hD : D.size ≤ maxOffset) (hk : 0 < k)
    (hle : k ≤ Signature.maxBlockLength) (hsafe : CollisionFree k D L) {m : BlockMatch}
    (h : m ∈ plainScan (Signature.describe k D) L) : m.Right (Signature.describe k D) D L := by
  obtain ⟨x, hx, hindex, hlength, hstop, hstrong⟩ := mem_plainScan h
  obtain ⟨i, hi, rfl⟩ := (Signature.mem_blocks_describe hk).1 hx
  have hrange := Signature.blockRange_describe hD hk hle hi
  have hsize : (D.extract (i * k) (i * k + k)).size = min (i * k + k) D.size - i * k := ByteArray.size_extract
  have hplace : m.place.stop = m.place.start + (D.extract (i * k) (i * k + k)).size := by
    rw [ByteRange.stop, hlength, hrange, hsize]
  intro _
  refine ⟨hstop, ?_⟩
  rw [hindex, hrange, hplace]
  show _ = D.extract (i * k) (i * k + (min (i * k + k) D.size - i * k))
  rw [show i * k + (min (i * k + k) D.size - i * k) = min (i * k + k) D.size by omega, Bytes.extract_min]
  refine hsafe i m.place.start (hplace ▸ hstop) ?_
  rw [← hplace, ← hstrong]
  rfl

namespace PartMap

theorem mem_partsIn {m : PartMap} {s : PartState} {r : ByteRange} : r ∈ m.partsIn s ↔ (r, s) ∈ m.parts := by
  simp [partsIn]

end PartMap

namespace Bench

open Work

variable {σ : Type} {b : Bench σ} {t : σ} {D : ByteArray} {n : Nat} (target : String)

/-- After putting in some ranges of `D`, these are available too. -/
theorem fill_spec (hb : b.Holds) (hlim : D.size ≤ Disk.sizeLimit) {d : Disk} {l : List ByteRange}
    (hl : ∀ r ∈ l, 0 < r.length ∧ r.stop ≤ D.size) {e : Disk} {parts : PartMap} (h : Copied D n d e parts) :
    ∃ parts' f, (b.fill target ⟨n, true⟩ D l).run.run (b.putDisk e t) = (.ok (), b.putDisk f t) ∧
      Copied D n d f parts' ∧
      ∀ o < D.size, parts.state? o = some .available ∨ (∃ r ∈ l, o ∈ r) → parts'.state? o = some .available := by
  induction l generalizing e parts with
  | nil => exact ⟨parts, e, rfl, h, fun o _ ho => ho.resolve_right (by simp)⟩
  | cons r l ih =>
    obtain ⟨hpos, hstop⟩ := hl r List.mem_cons_self
    obtain ⟨f, hf, hcopied⟩ := copied_write h hpos hstop hlim
    obtain ⟨parts', f', hrun, hdone, hall⟩ := ih (fun q hq => hl q (List.mem_cons_of_mem r hq)) hcopied
    rw [← hb.get e t] at hf
    refine ⟨parts', f', ?_, hdone, fun o ho hor => hall o ho ?_⟩
    · rw [fill, run_bind_ok (run_change_ok hf), hb.put, hrun]
    · rw [PartMap.state?_set, h.length_eq]
      by_cases hin : o ∈ r
      · exact .inl (if_pos ⟨hin, ho⟩)
      · rw [if_neg fun hc => hin hc.1]
        rcases hor with hav | ⟨q, hq, hoq⟩
        · exact .inl hav
        · rcases List.mem_cons.1 hq with rfl | hq
          · exact absurd hoq hin
          · exact .inr ⟨q, hq, hoq⟩

theorem verifyFile_ok (hb : b.Still) (hp : b.Patient t) (hleads : (b.disk t).LeadsTo target n)
    (hlim : ((b.disk t).content n).size ≤ Disk.seekLimit) (d : Digest) :
    (b.verifyFile target d).run.run t = (.ok (Sha256.digest ((b.disk t).content n) == d), t) := by
  obtain ⟨r, hr, hok, hgo⟩ := (verifyFile_spec hb hleads hlim d).run
  obtain ⟨a, rfl⟩ := hgo hp
  rw [hr, hok a rfl]

end Bench

/-- Delta-sync makes the file: the builder's signature is read back from its bytes, what is found in the
local copy is copied, and with the bytes still needed the temp file is `D` and passes the hash. -/
theorem reconstruct_exact {pieces : List ByteArray} {D L : ByteArray}
    (hpieces : pieces.foldl (· ++ ·) ByteArray.empty = D) (blockLength : Nat) (hD : D.size ≤ Disk.sizeLimit)
    (hsafe : CollisionFree (Signature.clampLength blockLength) D L) {d : Disk} {candidate target : String}
    {m n : Nat} (hcandidate : d.LeadsTo candidate m) (hL : d.bytesAt? m = some L)
    (hLlim : L.size ≤ Disk.sizeLimit) (htarget : d.LeadsTo target n)
    (hempty : d.bytesAt? n = some ByteArray.empty) (hmn : m ≠ n) :
    ∃ parts e, (Bench.quiet.reconstruct candidate target ⟨n, true⟩
        (Signature.encode (pieces.foldl Signature.Builder.update (Signature.Builder.start blockLength)).finish)
        D).run.run d = (.ok (parts, true), e) ∧
      e.read target = .ok D ∧
      parts.countAll .needed + parts.countAll .available = D.size ∧ parts.countAll .pending = 0 := by
  have hoffset : D.size ≤ maxOffset := Nat.le_trans hD (by decide)
  have hk := Signature.clampLength_pos blockLength
  have hle := Signature.clampLength_le blockLength
  rw [Signature.finish_pieces, hpieces, Signature.ofBytes_eq]
  generalize Signature.clampLength blockLength = k at hsafe hk hle ⊢
  -- the signature arrives as it was
  have hdecode : (ExceptT.mk (pure (Signature.decode (Signature.encode (Signature.describe k D)))) :
      Work Disk Signature).run.run d = (.ok (Signature.describe k D), d) := by
    rw [Signature.decode_encode (Signature.flaw?_describe hoffset hk hle)]
    rfl
  -- the search finds blocks that are there
  have hwidth : 0 < (Signature.describe k D).blockLength.toNat := by rwa [Signature.blockLength_describe hle]
  have hthere : ∀ e, e = d → (Bench.quiet.disk e).HasFile candidate m L := by
    rintro _ rfl
    exact ⟨hcandidate, hL⟩
  obtain ⟨found, hfound, hscan, hgo⟩ :=
    (Bench.findMatches_spec Bench.quiet_still.steady hthere hLlim (.inl hwidth)).run
  obtain ⟨found, rfl⟩ := hgo (Bench.quiet_patient d)
  have hright : ∀ x ∈ found, x.Right (Signature.describe k D) D L := by
    rw [hscan found rfl]
    exact fun x hx => right_of_mem_plainScan hoffset hk hle hsafe hx
  -- they are copied, and the rest is put in
  obtain ⟨parts, e, hcopy, hcopied⟩ := Bench.copyMatches_spec candidate target Bench.quiet_holds
    (fun d => Bench.quiet_patient d) hcandidate hL hLlim hmn hempty (Signature.fileLength_describe hoffset) hD hright
  have hneeded : ∀ r ∈ parts.partsIn .needed, 0 < r.length ∧ r.stop ≤ D.size := by
    intro r hr
    have hr := PartMap.mem_partsIn.1 hr
    exact ⟨PartMap.pos_of_mem_parts hr, hcopied.length_eq ▸ (PartMap.mem_parts hr).1⟩
  obtain ⟨parts', f, hfill, hdone, hall⟩ :=
    Bench.fill_spec (t := d) target Bench.quiet_holds hD hneeded hcopied
  have hcomplete : ∀ o < D.size, parts'.state? o = some .available := by
    intro o ho
    refine hall o ho ?_
    obtain ⟨s, hs⟩ := PartMap.exists_state (m := parts) (hcopied.length_eq.symm ▸ ho)
    cases s with
    | needed =>
      obtain ⟨r, hr, hor⟩ := PartMap.exists_part hs
      exact .inr ⟨r, PartMap.mem_partsIn.2 hr, hor⟩
    | pending => exact absurd hs (hcopied.not_pending o)
    | available => exact .inl hs
  have hcontent : f.content n = D := hdone.content_eq fun o ho => hdone.byte_eq o (hcomplete o ho)
  have hleads : f.LeadsTo target n := htarget.alike hdone.alike
  have hverify : (Bench.quiet.verifyFile target (Signature.describe k D).digest).run.run f = (.ok true, f) := by
    rw [Bench.verifyFile_ok target Bench.quiet_still (Bench.quiet_patient f) hleads]
    · show (Except.ok (Sha256.digest (f.content n) == Sha256.digest D), f) = _
      rw [hcontent, beq_self_eq_true]
    · show (f.content n).size ≤ Disk.seekLimit
      rw [hcontent]
      exact Nat.le_trans hD (by decide)
  refine ⟨parts, f, ?_, by rw [hleads.read, hcontent], ?_, PartMap.countAll_eq_zero hcopied.not_pending⟩
  · unfold Bench.reconstruct
    rw [Work.run_bind_ok hdecode, Work.run_bind_ok hfound, Work.run_bind_ok hcopy, Work.run_bind_ok hfill]
    exact Work.run_bind_ok hverify
  · have hsum := parts.countAll_sum
    rw [PartMap.countAll_eq_zero hcopied.not_pending, hcopied.length_eq] at hsum
    omega

/-- A local copy with the first of two bytes, and an empty temp file. -/
def pairDisk : Disk :=
  ⟨#[.directory none, .file ⟨#[1]⟩ none, .file ByteArray.empty none], [([], 0), (["l"], 1), (["t"], 2)], []⟩

theorem collisionFree_pair : CollisionFree (Signature.clampLength 1) ⟨#[1, 2]⟩ ⟨#[1]⟩ := by
  have hdigest : Sha256.digest ⟨#[1]⟩ ≠ Sha256.digest ⟨#[2]⟩ := by decide +kernel
  intro i o hle heq
  rcases i with _ | _ | i
  · obtain rfl : o = 0 := by change o + 1 ≤ 1 at hle; omega
    rfl
  · obtain rfl : o = 0 := by change o + 1 ≤ 1 at hle; omega
    exact absurd heq hdigest
  · -- past the end of the file the block is empty
    have hempty : (⟨#[1, 2]⟩ : ByteArray).extract ((i + 1 + 1) * Signature.clampLength 1)
        ((i + 1 + 1) * Signature.clampLength 1 + Signature.clampLength 1) = ByteArray.empty := by
      refine ByteArray.size_eq_zero_iff.1 ?_
      rw [ByteArray.size_extract]
      show min _ 2 - (i + 1 + 1) * 1 = 0
      omega
    rw [hempty]
    exact ByteArray.extract_same

theorem pair_reconstructed :
    ∃ parts e, (Bench.quiet.reconstruct "l" "t" ⟨2, true⟩ (Signature.encode ([⟨#[1]⟩, ⟨#[2]⟩].foldl
        Signature.Builder.update (Signature.Builder.start 1)).finish) ⟨#[1, 2]⟩).run.run pairDisk =
          (.ok (parts, true), e) ∧
      e.read "t" = .ok ⟨#[1, 2]⟩ ∧
      parts.countAll .needed + parts.countAll .available = (⟨#[1, 2]⟩ : ByteArray).size ∧
      parts.countAll .pending = 0 := by
  have hlocal : pairDisk.LeadsTo "l" 1 := ⟨by cbv, rfl⟩
  have htemp : pairDisk.LeadsTo "t" 2 := ⟨by cbv, rfl⟩
  have hpieces : [⟨#[1]⟩, ⟨#[2]⟩].foldl (· ++ ·) ByteArray.empty = ⟨#[1, 2]⟩ := rfl
  have hbytes : pairDisk.bytesAt? 1 = some ⟨#[1]⟩ := rfl
  have hempty : pairDisk.bytesAt? 2 = some ByteArray.empty := rfl
  exact reconstruct_exact hpieces 1 (by decide) collisionFree_pair hlocal hbytes (by decide) htemp hempty
    (by decide)

end FileSwarm
