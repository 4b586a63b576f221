import FileSwarm.Proofs.Delta.Matching

/-!
# A signature depends on the bytes alone

The bytes of a file may come to a builder in any pieces, and a pass that signs a file may read it in any steps. The
signature is always the one that the bytes have, block by block, and it has no flaw.

* `Builder.updates?_start` : a builder takes any pieces of a file whose length is an offset;
* `signFile_total` : a pass with a patient listener signs the file;
* `signed_alike` : both come to the same signature.
-/

namespace FileSwarm

namespace Signature

theorem Builder.updates?_start (blockLength : Nat) {pieces : List ByteArray} {D : ByteArray}
    (hpieces : pieces.foldl (· ++ ·) ByteArray.empty = D) (hD : D.size ≤ maxOffset) :
    ∃ s, (Builder.start blockLength).updates? pieces = .ok s ∧ s.finish = describe (clampLength blockLength) D := by
  refine ⟨pieces.foldl Builder.update (Builder.start blockLength), ?_, ?_⟩
  · rw [(Builder.took_start blockLength).updates?_eq (Nat.zero_le _), hpieces, if_pos hD]
  · rw [finish_pieces, hpieces, ofBytes_eq]

end Signature

namespace Bench

variable {σ : Type} {P : σ → Prop}

theorem signFile_total (b : Bench σ) {path : String} {n : Nat} {D : ByteArray}
    (hfile : ∀ t, P t → (b.disk t).HasFile path n D) (hlim : D.size ≤ Disk.seekLimit)
    (haccept : ∀ p t, P t → (b.listen p t).1 ∧ P (b.listen p t).2) (blockLength : Nat) {t : σ} (ht : P t) :
    ∃ u, (b.signFile path blockLength).run.run t =
      (.ok (Signature.describe (Signature.clampLength blockLength) D), u) ∧ P u := by
  obtain ⟨r, u, hrun, hu, hresult, hgo⟩ :=
    signFile_spec (fun p t h => (haccept p t h).2) hfile hlim blockLength t ht
  obtain ⟨s, rfl⟩ := hgo fun p t h => (haccept p t h).1
  exact ⟨u, by rw [hrun, hresult s rfl], hu⟩

end Bench

namespace Signature

/-- However the bytes of `D` are cut into pieces, empty ones included, the builder makes its full blocks and the
rest of it, and hashes all of it. What it makes has no flaw, and a pass over a file with these bytes makes the
same, however much each of its reads gives. -/
theorem signed_alike (blockLength : Nat) {pieces : List ByteArray} {D : ByteArray}
    (hpieces : pieces.foldl (· ++ ·) ByteArray.empty = D) (hD : D.size ≤ maxOffset) :
    ∃ s, (Builder.start blockLength).updates? pieces = .ok s ∧
      s.finish.Describes (max 1 (min blockLength maxBlockLength)) D ∧ s.finish.flaw? = none ∧
      ∀ {σ : Type} (b : Bench σ) {P : σ → Prop} {path : String} {n : Nat}, D.size ≤ Disk.seekLimit →
        (∀ t, P t → (b.disk t).HasFile path n D) → (∀ p t, P t → (b.listen p t).1 ∧ P (b.listen p t).2) →
        ∀ t, P t → ∃ u, (b.signFile path blockLength).run.run t = (.ok s.finish, u) ∧ P u := by
  obtain ⟨s, hs, hfinish⟩ := Builder.updates?_start blockLength hpieces hD
  have hk := clampLength_pos blockLength
  have hle := clampLength_le blockLength
  refine ⟨s, hs, ?_, ?_, ?_⟩
  · rw [hfinish]
    exact describes_describe hD hk hle
  · rw [hfinish]
    exact flaw?_describe hD hk hle
  · intro σ b P path n hlim hfile haccept t ht
    rw [hfinish]
    exact b.signFile_total hfile hlim haccept blockLength ht

/-- Three pieces of the three bytes of a file that is read byte by byte. -/
theorem signed_alike_bytewise :
    ([⟨#[2, 1]⟩, ByteArray.empty, ⟨#[2]⟩] : List ByteArray).foldl (· ++ ·) ByteArray.empty = ⟨#[2, 1, 2]⟩ ∧
      (⟨#[2, 1, 2]⟩ : ByteArray).size ≤ maxOffset ∧
      ∃ s, (Builder.start 2).updates? [⟨#[2, 1]⟩, ByteArray.empty, ⟨#[2]⟩] = .ok s ∧
        s.finish.Describes 2 ⟨#[2, 1, 2]⟩ ∧ s.finish.flaw? = none ∧
        ∃ heard, (Bench.bytewise.signFile "l" 2).run.run (Bench.tripleDisk, 0) =
          (.ok s.finish, Bench.tripleDisk, heard) := by
  have hpieces : ([⟨#[2, 1]⟩, ByteArray.empty, ⟨#[2]⟩] : List ByteArray).foldl (· ++ ·) ByteArray.empty =
      ⟨#[2, 1, 2]⟩ := rfl
  have hfile : ∀ t : Disk × Nat, t.1 = Bench.tripleDisk → (Bench.bytewise.disk t).HasFile "l" 1 ⟨#[2, 1, 2]⟩ := by
    rintro ⟨_, k⟩ rfl
    exact ⟨⟨by cbv, rfl⟩, rfl⟩
  obtain ⟨s, hs, hdescribes, hflaw, hread⟩ := signed_alike 2 hpieces (by decide)
  obtain ⟨⟨_, heard⟩, hrun, rfl⟩ := hread Bench.bytewise (P := fun t => t.1 = Bench.tripleDisk) (by decide) hfile
    (fun _ _ h => ⟨rfl, h⟩) (Bench.tripleDisk, 0) rfl
  exact ⟨hpieces, by decide, s, hs, hdescribes, hflaw, heard, hrun⟩

end Signature

end FileSwarm
