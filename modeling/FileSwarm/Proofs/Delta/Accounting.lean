import FileSwarm.Proofs.Delta.Beginning

/-!
# Plans and copies count alike

A plan counts the numbers of the blocks that were found. Copying walks the list of matches, passes over those whose
block is there already, and marks bytes. The two agree block by block, since the blocks of a signature without a flaw
have numbers that differ and a byte each.

* `Signature.nodup_indexes`, `available_iff` : the numbers of the blocks, and which blocks are available after copying;
* `Plan.length_found` : as many blocks as were found are available;
* `plan_agrees_with_copy` : the plan of what a search found, and any copy of it.
-/

namespace FileSwarm

namespace Signature

variable {s : Signature} (h : s.flaw? = none)

include h

theorem nodup_indexes : (s.blocks.map (·.index)).Nodup := by
  obtain ⟨-, -, -, hindex⟩ := flaw?_eq_none_iff.1 h
  refine List.nodup_iff_injective_get.2 fun i j heq => Fin.ext ?_
  rw [List.get_eq_getElem, List.get_eq_getElem, List.getElem_map, List.getElem_map] at heq
  have hi := hindex i.val _ (List.getElem?_eq_getElem (by simpa using i.isLt))
  have hj := hindex j.val _ (List.getElem?_eq_getElem (by simpa using j.isLt))
  rw [← hi, ← hj, heq]

theorem available_iff {l : List BlockMatch} (hfits : ∀ m ∈ l, m.Fits s) {x : Block} (hx : x ∈ s.blocks) :
    (s.marked l).count (s.blockRange x.index) .available = (s.blockRange x.index).length ↔
      ∃ m ∈ l, m.index = x.index := by
  constructor
  · intro hcount
    obtain ⟨o, ho⟩ := exists_mem_of_mem_blocks h hx
    have hstate := PartMap.state?_of_count hcount ho
    rw [s.state?_marked hfits] at hstate
    -- the match that made this byte available is one of this block, as the byte is in no other
    have hfound : ∃ m ∈ l, o ∈ s.blockRange m.index := by
      by_contra hnone
      rw [if_neg hnone] at hstate
      split at hstate
      · exact nomatch hstate
      · exact nomatch hstate
    obtain ⟨m, hm, hom⟩ := hfound
    exact ⟨m, hm, by_contra fun hne => s.blockRange_disjoint hne hom ho⟩
  · rintro ⟨m, hm, hindex⟩
    have hstop : (s.blockRange x.index).stop ≤ (s.marked l).length := by
      rw [s.length_marked]
      refine (s.blockRange_bounds x.index).resolve_left ?_
      obtain ⟨o, ho⟩ := exists_mem_of_mem_blocks h hx
      have hlt := Nat.lt_of_le_of_lt ho.1 ho.2
      rw [ByteRange.stop] at hlt
      omega
    refine PartMap.count_of_forall hstop fun o ho => ?_
    rw [s.state?_marked hfits, if_pos (by rw [s.length_marked] at hstop; exact Nat.lt_of_lt_of_le ho.2 hstop),
      if_pos ⟨m, hm, hindex ▸ ho⟩]

end Signature

namespace Plan

theorem length_found {s : Signature} (h : s.flaw? = none) {l : List BlockMatch} (hfits : ∀ m ∈ l, m.Fits s)
    (hblock : ∀ m ∈ l, ∃ x ∈ s.blocks, m.index = x.index) :
    (found l).toList.length = s.blocks.countP fun x =>
      (s.marked l).count (s.blockRange x.index) .available = (s.blockRange x.index).length := by
  have hcount : (s.blocks.countP fun x => (s.marked l).count (s.blockRange x.index) .available =
      (s.blockRange x.index).length) = ((s.blocks.map (·.index)).filter (· ∈ found l)).length := by
    rw [← List.countP_eq_length_filter, List.countP_map]
    refine List.countP_congr fun x hx => ?_
    simp only [decide_eq_true_eq, Function.comp_apply, mem_found]
    exact s.available_iff h hfits hx
  rw [hcount]
  refine ((List.perm_ext_iff_of_nodup (nodup_found l) ((s.nodup_indexes h).filter _)).2 fun i => ?_).length_eq
  rw [Std.HashSet.mem_toList, List.mem_filter, decide_eq_true_eq, mem_found]
  refine ⟨fun ⟨m, hm, hi⟩ => ⟨?_, m, hm, hi⟩, And.right⟩
  obtain ⟨x, hx, hindex⟩ := hblock m hm
  exact List.mem_map.2 ⟨x, hx, hindex.symm.trans hi⟩

end Plan

namespace Bench

open Work

variable {σ : Type} {b : Bench σ} {P : σ → Prop} {s : Signature} {path : String} {n : Nat} {L : ByteArray}

/-- A search for the blocks of a signature without a flaw returns if nobody says stop. Of what it found there is a plan,
and every copy of it that returns a part map bears the plan out: the bytes to be reused are the available ones, those to
be fetched are needed, and the matched blocks are those that are available from end to end. A copy of it does return if
nobody says stop, the source is as it was and the temp file can have the file's length. -/
theorem plan_agrees_with_copy (hb : b.Steady P) (hvalid : s.flaw? = none)
    (hfile : ∀ t, P t → (b.disk t).HasFile path n L) (hlim : L.size ≤ Disk.sizeLimit) {t : σ} (ht : P t) :
    (b.Willing P → ∃ found u, (b.findMatches path s).run.run t = (.ok found, u)) ∧
    ∀ found u, (b.findMatches path s).run.run t = (.ok found, u) →
      ∃ plan, Plan.ofMatches s found = .ok plan ∧ plan.blocks = s.blocks.length ∧
        (∀ {τ : Type} (c : Bench τ) (source target : String) (into : Handle) (v : τ) (parts : PartMap),
          ((c.copyMatches source target into s found).run.run v).1 = .ok parts →
            plan.reusable = parts.countAll .available ∧ plan.fetch = parts.countAll .needed ∧
            plan.matched = s.blocks.countP fun x =>
              parts.count (s.blockRange x.index) .available = (s.blockRange x.index).length) ∧
        ∀ {τ : Type} (c : Bench τ) (source target : String) (k m : Nat) (old : ByteArray) (v : τ), c.Unmoved →
          (c.disk v).HasFile source k L → (c.disk v).bytesAt? m = some old → k ≠ m →
          s.fileLength.toNat ≤ Disk.sizeLimit →
            ∃ parts, ((c.copyMatches source target ⟨m, true⟩ s found).run.run v).1 = .ok parts := by
  obtain ⟨r, u, hrun, -, hresult, hgo⟩ := findMatches_spec hb hfile hlim (width_of_valid hvalid) t ht
  rw [hrun]
  refine ⟨fun hwilling => ?_, fun found u' hok => ?_⟩
  · obtain ⟨found, rfl⟩ := hgo hwilling
    exact ⟨found, u, rfl⟩
  have hfound : found = plainScan s L := hresult found (congrArg Prod.fst hok)
  have hfits : ∀ m ∈ found, m.Fits s := fun m hm => BlockMatch.fits_of_mem_plainScan (hfound ▸ hm)
  have hsound : ∀ m ∈ found, m.Sound s L := fun m hm => mem_plainScan (hfound ▸ hm)
  refine ⟨_, Plan.ofMatches_eq hfits, rfl, fun c source target into v parts hparts => ?_,
    fun c source target k m old v hc hsource hold hkm hlength => ?_⟩
  · obtain rfl : parts = s.marked found := returns_marked c source target into s found v parts hparts
    refine ⟨rfl, rfl, Plan.length_found hvalid hfits fun m hm => ?_⟩
    obtain ⟨x, hx, hindex, -⟩ := hsound m hm
    exact ⟨x, hx, hindex⟩
  · have hin : ∀ x ∈ found, x.place.stop ≤ L.size := fun x hx => by
      obtain ⟨-, -, -, -, hstop, -⟩ := hsound x hx
      exact hstop
    obtain ⟨w, hcopied⟩ := copyMatches_returns hc hsource hlim hold hkm hlength target hin
    exact ⟨s.marked found, by rw [hcopied]⟩

/-- One of the two blocks is found twice, the other once between its places: both are planned for once, and both are
there after copying. -/
theorem plan_agrees_twice :
    (Signature.describe 1 ⟨#[1, 2]⟩).flaw? = none ∧
    ∃ heard parts plan,
      (bytewise.findMatches "l" (Signature.describe 1 ⟨#[1, 2]⟩)).run.run (twinDisk, 0) =
        (.ok [⟨⟨0, 1⟩, 1⟩, ⟨⟨1, 1⟩, 0⟩, ⟨⟨2, 1⟩, 1⟩], heard) ∧
      Plan.ofMatches (Signature.describe 1 ⟨#[1, 2]⟩) [⟨⟨0, 1⟩, 1⟩, ⟨⟨1, 1⟩, 0⟩, ⟨⟨2, 1⟩, 1⟩] = .ok plan ∧
      ((bytewise.copyMatches "l" "t" ⟨2, true⟩ (Signature.describe 1 ⟨#[1, 2]⟩)
        [⟨⟨0, 1⟩, 1⟩, ⟨⟨1, 1⟩, 0⟩, ⟨⟨2, 1⟩, 1⟩]).run.run (twinDisk, 0)).1 = .ok parts ∧
      plan.blocks = 2 ∧ plan.reusable = parts.countAll .available ∧ plan.fetch = parts.countAll .needed ∧
      plan.matched = (Signature.describe 1 ⟨#[1, 2]⟩).blocks.countP fun x =>
        parts.count ((Signature.describe 1 ⟨#[1, 2]⟩).blockRange x.index) .available =
          ((Signature.describe 1 ⟨#[1, 2]⟩).blockRange x.index).length := by
  have hvalid : (Signature.describe 1 ⟨#[1, 2]⟩).flaw? = none :=
    Signature.flaw?_describe (by decide) (by decide) (by decide)
  have hb : bytewise.Unmoved := ⟨fun _ _ => rfl, fun _ _ => rfl, fun _ _ => rfl⟩
  have hfile : ∀ t : Disk × Nat, t.1 = twinDisk → (bytewise.disk t).HasFile "l" 1 ⟨#[2, 1, 2]⟩ := by
    rintro ⟨_, k⟩ rfl
    exact ⟨⟨by cbv, rfl⟩, rfl⟩
  obtain ⟨hreturns, hplan⟩ := plan_agrees_with_copy (P := fun t => t.1 = twinDisk) (fun _ _ h => h) hvalid hfile
    (by decide) (t := (twinDisk, 0)) rfl
  obtain ⟨found, heard, hrun⟩ := hreturns fun _ _ _ => rfl
  obtain ⟨plan, hok, hblocks, hcopied, hcopy⟩ := hplan found heard hrun
  obtain ⟨parts, hparts⟩ := hcopy bytewise "l" "t" 1 2 ⟨#[9]⟩ (twinDisk, 0) hb (hfile _ rfl) rfl (by decide) (by decide)
  -- what was found is what the plain scan finds
  obtain ⟨_, hscan, -⟩ := findMatches_eq_plainScan (P := fun t => t.1 = twinDisk) hvalid hfile (by decide)
    (fun _ _ h => ⟨rfl, h⟩) (t := (twinDisk, 0)) rfl
  obtain rfl : plainScan (Signature.describe 1 ⟨#[1, 2]⟩) ⟨#[2, 1, 2]⟩ = found :=
    Except.ok.inj (congrArg Prod.fst (hscan.symm.trans hrun))
  rw [plainScan_triple] at hrun hok hparts hcopied
  exact ⟨hvalid, heard, parts, plan, hrun, hok, hparts, hblocks, hcopied bytewise "l" "t" ⟨2, true⟩ _ parts hparts⟩

end Bench

end FileSwarm
