import FileSwarm.Delta.Plan
import FileSwarm.Proofs.Delta.Copying
import FileSwarm.Proofs.Delta.Matching

/-!
# Plans come true

A plan counts the blocks that were found, each once. Copying looks at the matches one by one. Both come to the same
number of bytes, as the blocks of a signature do not overlap.

* `Signature.mem_blockRange`, `blockRange_disjoint` : the bytes of a block, and of two blocks;
* `Signature.mark`, `Signature.marked` : what copying does to the part map, as a fold over the matches;
  `returns_marked` : copying returns this map and no other;
* `BlockMatch.Fits` : a match of the right length, as all that are found are; `state?_marked` : what is available then;
* `Signature.filled`, `countAll_filled` : blocks that differ, put down one after another, add up;
* `Plan.ofMatches_eq` : the plan says how much of the map is available, and how much is needed.
-/

namespace FileSwarm

/-! ## Sums of offsets -/

theorem foldlM_addChecked {l : List Nat} {a : Nat} (h : a + sumOf l ≤ maxOffset) :
    l.foldlM addChecked a = .ok (a + sumOf l) := by
  induction l generalizing a with
  | nil => rfl
  | cons n l ih =>
    have hsum : sumOf (n :: l) = n + sumOf l := rfl
    rw [List.foldlM_cons, addChecked_eq_ok (by omega), hsum, ← Nat.add_assoc]
    exact ih (by omega)

theorem sumChecked_eq_ok {l : List Nat} (h : sumOf l ≤ maxOffset) : sumChecked l = .ok (sumOf l) := by
  have hsum := foldlM_addChecked (a := 0) (l := l) (by omega)
  rwa [Nat.zero_add] at hsum

/-! ## Blocks do not overlap -/

namespace Signature

variable (s : Signature)

theorem mem_blockRange {i : UInt64} {o : Nat} : o ∈ s.blockRange i ↔
    min (i.toNat * s.blockLength.toNat) maxOffset ≤ o ∧
      o < min (min (i.toNat * s.blockLength.toNat) maxOffset + s.blockLength.toNat) maxOffset ∧
      o < s.fileLength.toNat := by
  rw [ByteRange.mem_iff, ByteRange.stop]
  simp only [blockRange, ByteRange.ofBounds, mulCapped, addCapped]
  omega

theorem blockRange_disjoint {i j : UInt64} (h : i ≠ j) {o : Nat} (ho : o ∈ s.blockRange i) : o ∉ s.blockRange j := by
  intro ho'
  obtain ⟨hi, hi', -⟩ := (mem_blockRange s).1 ho
  obtain ⟨hj, hj', -⟩ := (mem_blockRange s).1 ho'
  have hne : i.toNat ≠ j.toNat := fun heq => h (UInt64.toNat_inj.1 heq)
  have hstep : ∀ {a b : Nat}, a < b → a * s.blockLength.toNat + s.blockLength.toNat ≤ b * s.blockLength.toNat :=
    fun {a b} hab => by
      rw [← Nat.succ_mul]
      exact Nat.mul_le_mul_right _ hab
  rcases Nat.lt_or_gt_of_ne hne with hlt | hlt
  · have := hstep hlt
    omega
  · have := hstep hlt
    omega

end Signature

/-- The block has as many bytes as the match. -/
def BlockMatch.Fits (s : Signature) (m : BlockMatch) : Prop := m.place.length = (s.blockRange m.index).length

theorem BlockMatch.fits_of_mem_plainScan {s : Signature} {content : ByteArray} {m : BlockMatch}
    (h : m ∈ plainScan s content) : m.Fits s := by
  obtain ⟨x, -, hindex, hlength, -⟩ := mem_plainScan h
  rw [Fits, hlength, hindex]

/-! ## What copying makes of the part map -/

namespace Signature

variable (s : Signature)

/-- One match is looked at. -/
def mark (parts : PartMap) (m : BlockMatch) : PartMap :=
  let block := s.blockRange m.index
  if block.length ≠ m.place.length ∨ parts.count block .available = block.length then parts
  else parts.set block .available

/-- The part map once all matches were looked at. -/
def marked (l : List BlockMatch) : PartMap := l.foldl s.mark (PartMap.blank s.fileLength.toNat)

theorem length_mark (parts : PartMap) (m : BlockMatch) : (s.mark parts m).length = parts.length := by
  unfold mark
  dsimp only
  split
  · rfl
  · exact PartMap.length_set _ _ _

theorem length_marked (l : List BlockMatch) : (s.marked l).length = s.fileLength.toNat := by
  have h : ∀ parts : PartMap, (l.foldl s.mark parts).length = parts.length := by
    induction l with
    | nil => exact fun _ => rfl
    | cons m l ih => exact fun parts => (ih _).trans (s.length_mark parts m)
  exact (h _).trans (PartMap.length_blank _)

theorem state?_mark (parts : PartMap) {m : BlockMatch} (h : m.Fits s) (o : Nat) : (s.mark parts m).state? o =
    if o ∈ s.blockRange m.index ∧ o < parts.length then some .available else parts.state? o := by
  unfold mark
  dsimp only
  split
  · next hskip =>
    have hcount := hskip.resolve_left (by rw [not_not]; exact h.symm)
    split
    · next hin => exact PartMap.state?_of_count hcount hin.1
    · rfl
  · exact PartMap.state?_set _ _ _ _

/-- What is available are the blocks that have a match. -/
theorem state?_marked {l : List BlockMatch} (h : ∀ m ∈ l, m.Fits s) (o : Nat) : (s.marked l).state? o =
    if o < s.fileLength.toNat then
      some (if ∃ m ∈ l, o ∈ s.blockRange m.index then .available else .needed)
    else none := by
  induction l using List.reverseRecOn with
  | nil => simpa [marked] using PartMap.state?_blank _ o
  | append_singleton l m ih =>
    have hlength := s.length_marked l
    have hlast := s.state?_mark (s.marked l) (h m (by simp)) o
    rw [hlength, ih fun m hm => h m (List.mem_append_left _ hm)] at hlast
    rw [marked, List.foldl_append, List.foldl_cons, List.foldl_nil, ← marked, hlast]
    by_cases hsize : o < s.fileLength.toNat
    · by_cases hin : o ∈ s.blockRange m.index
      · simp [hsize, hin]
      · simp [hsize, hin]
    · simp [hsize]

theorem state?_marked_ne_pending {l : List BlockMatch} (h : ∀ m ∈ l, m.Fits s) (o : Nat) :
    (s.marked l).state? o ≠ some .pending := by
  rw [s.state?_marked h]
  split
  · split <;> decide
  · exact nofun

/-! ## Counting blocks -/

/-- Blocks put down one after another. -/
def filled (l : List UInt64) : PartMap :=
  l.foldl (fun parts i => parts.set (s.blockRange i) .available) (PartMap.blank s.fileLength.toNat)

theorem filled_concat (l : List UInt64) (i : UInt64) :
    s.filled (l ++ [i]) = (s.filled l).set (s.blockRange i) .available := by
  rw [filled, List.foldl_append]
  rfl

theorem length_filled (l : List UInt64) : (s.filled l).length = s.fileLength.toNat := by
  induction l using List.reverseRecOn with
  | nil => exact PartMap.length_blank _
  | append_singleton l i ih => rw [filled_concat, PartMap.length_set, ih]

theorem state?_filled (l : List UInt64) (o : Nat) :
    (s.filled l).state? o = some .available ↔ o < s.fileLength.toNat ∧ ∃ i ∈ l, o ∈ s.blockRange i := by
  induction l using List.reverseRecOn with
  | nil =>
    exact ⟨fun h => (nomatch PartMap.eq_needed_of_blank h), fun ⟨_, _, hi, _⟩ => absurd hi List.not_mem_nil⟩
  | append_singleton l i ih =>
    rw [filled_concat, PartMap.state?_set, length_filled]
    by_cases hin : o ∈ s.blockRange i ∧ o < s.fileLength.toNat
    · rw [if_pos hin]
      exact ⟨fun _ => ⟨hin.2, i, by simp, hin.1⟩, fun _ => rfl⟩
    · rw [if_neg hin, ih]
      refine and_congr_right fun ho => ⟨fun ⟨j, hj, hoj⟩ => ⟨j, List.mem_append_left _ hj, hoj⟩, fun ⟨j, hj, hoj⟩ => ?_⟩
      rcases List.mem_append.1 hj with hj | hj
      · exact ⟨j, hj, hoj⟩
      · obtain rfl := List.mem_singleton.1 hj
        exact absurd ⟨hoj, ho⟩ hin

theorem countAll_filled {l : List UInt64} (h : l.Nodup) :
    (s.filled l).countAll .available = sumOf (l.map fun i => (s.blockRange i).length) := by
  induction l using List.reverseRecOn with
  | nil => exact PartMap.countAll_eq_zero fun o ho => nomatch PartMap.eq_needed_of_blank ho
  | append_singleton l i ih =>
    obtain ⟨hl, -, hapart⟩ := List.nodup_append.1 h
    have hnew : ∀ o ∈ s.blockRange i, (s.filled l).state? o ≠ some .available := by
      intro o ho hstate
      obtain ⟨-, j, hj, hoj⟩ := (s.state?_filled l o).1 hstate
      exact s.blockRange_disjoint (hapart j hj i (by simp)) hoj ho
    have hsum : sumOf ((l ++ [i]).map fun i => (s.blockRange i).length) =
        sumOf (l.map fun i => (s.blockRange i).length) + (s.blockRange i).length := by
      rw [List.map_append, sumOf_append]
      rfl
    rw [filled_concat, hsum, ← ih hl]
    rcases s.blockRange_bounds i with hempty | hinside
    · rw [hempty, Nat.add_zero]
      refine PartMap.countAll_congr (PartMap.length_set _ _ _) fun o => ?_
      rw [PartMap.state?_set_of_not_mem]
      intro ho
      have : (s.blockRange i).stop = (s.blockRange i).start + (s.blockRange i).length := rfl
      have := ho.1
      have := ho.2
      omega
    · have hstop : (s.blockRange i).stop ≤ (s.filled l).length := by
        rw [length_filled]
        exact hinside
      rw [PartMap.countAll_set hstop hnew, if_pos rfl]

end Signature

namespace Plan

theorem mem_found {l : List BlockMatch} {i : UInt64} : i ∈ found l ↔ ∃ m ∈ l, m.index = i := by
  induction l using List.reverseRecOn with
  | nil => simp [found]
  | append_singleton l m ih =>
    rw [found, List.foldl_append, List.foldl_cons, List.foldl_nil, ← found, Std.HashSet.mem_insert, ih, beq_iff_eq]
    simp only [List.mem_append, List.mem_singleton, or_and_right, exists_or, exists_eq_left]
    exact or_comm

theorem nodup_found (l : List BlockMatch) : (found l).toList.Nodup :=
  (Std.HashSet.distinct_toList (m := found l)).imp fun h heq => by simp [heq] at h

theorem sumOf_found {s : Signature} {l : List BlockMatch} (h : ∀ m ∈ l, m.Fits s) :
    sumOf ((found l).toList.map fun i => (s.blockRange i).length) = (s.marked l).countAll .available := by
  rw [← s.countAll_filled (nodup_found l)]
  refine PartMap.countAll_congr (by rw [Signature.length_filled, Signature.length_marked]) fun o => ?_
  rw [s.state?_filled, s.state?_marked h]
  have hmem : (∃ i ∈ (found l).toList, o ∈ s.blockRange i) ↔ ∃ m ∈ l, o ∈ s.blockRange m.index := by
    simp only [Std.HashSet.mem_toList, mem_found]
    exact ⟨fun ⟨_, ⟨m, hm, hi⟩, ho⟩ => ⟨m, hm, hi ▸ ho⟩, fun ⟨m, hm, ho⟩ => ⟨_, ⟨m, hm, rfl⟩, ho⟩⟩
  rw [hmem]
  by_cases hsize : o < s.fileLength.toNat
  · by_cases hin : ∃ m ∈ l, o ∈ s.blockRange m.index
    · simp [hsize, hin]
    · simp [hsize, hin]
  · simp [hsize]

/-- The map that copying makes has every byte available or needed. -/
theorem countAll_marked {s : Signature} {l : List BlockMatch} (h : ∀ m ∈ l, m.Fits s) :
    (s.marked l).countAll .needed + (s.marked l).countAll .available = s.fileLength.toNat := by
  have hsum := (s.marked l).countAll_sum
  rw [PartMap.countAll_eq_zero (s.state?_marked_ne_pending h), s.length_marked] at hsum
  omega

/-- A plan of matches that fit is no fault. What it says can be reused is what copying makes available, and the rest is
what is still needed then. -/
theorem ofMatches_eq {s : Signature} {l : List BlockMatch} (h : ∀ m ∈ l, m.Fits s) : ofMatches s l = .ok
    ⟨s.blocks.length, (found l).toList.length, (s.marked l).countAll .available, (s.marked l).countAll .needed⟩ := by
  have hsum := countAll_marked h
  have hmax : s.fileLength.toNat ≤ maxOffset := Nat.le_of_lt_succ s.fileLength.toNat_lt
  have hfound := sumOf_found h
  unfold ofMatches
  dsimp only
  rw [sumChecked_eq_ok (by omega), hfound]
  show (subChecked _ _).bind _ = _
  rw [subChecked_eq_ok (by omega)]
  show Except.ok _ = _
  rw [show s.fileLength.toNat - (s.marked l).countAll .available = (s.marked l).countAll .needed by omega]

end Plan

namespace Bench

open Work

variable {σ : Type}

/-- Whatever is found on the disk, the map that copying returns tells which blocks have a match. -/
theorem returns_marked (b : Bench σ) (source target : String) (into : Handle) (s : Signature)
    (matched : List BlockMatch) : Returns (b.copyMatches source target into s matched) (· = s.marked matched) := by
  have heach : ∀ (origin : Handle) (total done : Nat) (parts : PartMap) (l : List BlockMatch),
      Returns (b.copyEach source origin target into s total done parts l) (· = l.foldl s.mark parts) := by
    intro origin total done parts l
    induction l generalizing done parts with
    | nil => exact returns_pure rfl
    | cons m l ih =>
      rw [List.foldl_cons]
      unfold copyEach
      dsimp only
      split
      · next hskip =>
        rw [show s.mark parts m = parts from if_pos hskip]
        exact ih _ _
      · next hcopy =>
        rw [show s.mark parts m = parts.set (s.blockRange m.index) .available from if_neg hcopy]
        exact returns_bind (returns_any _) fun _ _ => returns_bind (returns_any _) fun _ _ =>
          returns_bind (returns_any _) fun _ _ => ih _ _
  unfold copyMatches
  refine returns_bind (returns_any _) fun _ _ => ?_
  dsimp only
  split
  · next hnone =>
    rw [List.isEmpty_iff.1 hnone]
    exact returns_bind (returns_any _) fun _ _ => returns_pure rfl
  · exact returns_bind (returns_any _) fun origin _ => returns_bind (heach _ _ _ _ _) fun parts hparts =>
      returns_bind (returns_any _) fun _ _ => returns_pure hparts

end Bench

end FileSwarm
