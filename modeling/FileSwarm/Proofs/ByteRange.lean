import Mathlib.Data.Bool.Basic
import FileSwarm.ByteRange

/-!
# What two byte ranges share

The test of two ranges compares the start of each with the end of the other, and so it also says yes to
an empty range that stands strictly between the ends of the other, although no byte is in both.

* `mem_inter?`, `inter?_eq_none` : what two ranges share, byte by byte;
* `contains?_eq_ok`, `intersects?_eq_ok`, `interChecked_eq_ok` : on ranges with an end that is an
  offset, none of the questions is a fault;
* `exists_mem_iff`, `intersects_iff_exists_mem` : when two ranges have a byte in common, and how the test
  is related to that;
* `intersects_comm`, `inter?_comm` : the order of the two does not matter;
* `overlap_decided` : test and intersection on 64-bit offsets, with the one case in which they say more
  than that a byte is shared.
-/

namespace FileSwarm

namespace ByteRange

theorem mem_ofBounds {a b o : Nat} (h : a ≤ b) : o ∈ ofBounds a b ↔ a ≤ o ∧ o < b := by
  rw [mem_iff, stop_ofBounds h]
  rfl

theorem start_le_stop (r : ByteRange) : r.start ≤ r.stop := Nat.le_add_right _ _

theorem mem_inter? {p r q : ByteRange} (h : p.inter? r = some q) {o : Nat} : o ∈ q ↔ o ∈ p ∧ o ∈ r := by
  unfold inter? at h
  split at h
  · next hmeet =>
    cases h
    have hmeet := intersects_iff.1 hmeet
    have hp : p.start ≤ p.stop := start_le_stop p
    have hr : r.start ≤ r.stop := start_le_stop r
    rw [mem_ofBounds (by omega), mem_iff, mem_iff]
    omega
  · exact nomatch h

theorem inter?_eq_none {p r : ByteRange} (h : p.inter? r = none) {o : Nat} (hp : o ∈ p) : o ∉ r := by
  intro hr
  unfold inter? at h
  split at h
  · exact nomatch h
  · next hmeet => exact hmeet (intersects_iff.2 ⟨Nat.lt_of_le_of_lt hp.1 hr.2, Nat.lt_of_le_of_lt hr.1 hp.2⟩)

theorem isSome_inter? (a b : ByteRange) : (a.inter? b).isSome = a.intersects b := by
  rw [inter?]
  cases a.intersects b <;> rfl

/-! ## The order of the two -/

theorem intersects_comm (a b : ByteRange) : a.intersects b = b.intersects a := Bool.and_comm _ _

theorem inter?_comm (a b : ByteRange) : a.inter? b = b.inter? a := by
  rw [inter?, inter?, intersects_comm, Nat.max_comm, Nat.min_comm]

/-! ## Shared bytes -/

/-- No byte, and a place strictly between the ends of another range. -/
def EmptyInside (a b : ByteRange) : Prop := a.length = 0 ∧ b.start < a.start ∧ a.start < b.stop

/-- Two ranges share a byte exactly if each has one and each starts before the other ends: the later of
the two starts is that byte. -/
theorem exists_mem_iff {a b : ByteRange} :
    (∃ o, o ∈ a ∧ o ∈ b) ↔ 0 < a.length ∧ 0 < b.length ∧ a.intersects b := by
  simp only [mem_iff, intersects_iff, stop]
  constructor
  · rintro ⟨o, ha, hb⟩
    omega
  · intro ⟨ha, hb, hmeet⟩
    exact ⟨max a.start b.start, by omega, by omega⟩

theorem intersects_iff_exists_mem {a b : ByteRange} :
    a.intersects b ↔ (∃ o, o ∈ a ∧ o ∈ b) ∨ a.EmptyInside b ∨ b.EmptyInside a := by
  rw [exists_mem_iff]
  simp only [EmptyInside, intersects_iff, stop]
  omega

theorem not_exists_mem_of_emptyInside {a b : ByteRange} (h : a.EmptyInside b ∨ b.EmptyInside a) :
    ¬∃ o, o ∈ a ∧ o ∈ b := by
  rw [exists_mem_iff]
  rintro ⟨ha, hb, -⟩
  rcases h with h | h
  · exact absurd h.1 (by omega)
  · exact absurd h.1 (by omega)

/-! ## On 64-bit offsets -/

theorem contains?_eq_ok {r : ByteRange} (h : r.Fits) (o : Nat) : r.contains? o = .ok (r.contains o) := by
  rw [contains?, stop?_eq_ok h, contains]
  by_cases hle : r.start ≤ o <;> simp [hle, mem_iff, Except.map]

theorem contains?_eq_true_iff {r : ByteRange} (h : r.Fits) {o : Nat} : r.contains? o = .ok true ↔ o ∈ r := by
  rw [contains?_eq_ok h, Except.ok.injEq, contains, decide_eq_true_iff]

theorem intersects?_eq_ok {a b : ByteRange} (ha : a.Fits) (hb : b.Fits) :
    a.intersects? b = .ok (a.intersects b) := by
  rw [intersects?, stop?_eq_ok hb, stop?_eq_ok ha, intersects]
  by_cases hlt : a.start < b.stop <;> simp [hlt, bind, Except.bind, pure, Except.pure, Except.map]

theorem interChecked_eq_ok {a b : ByteRange} (ha : a.Fits) (hb : b.Fits) :
    a.interChecked b = .ok (a.inter? b) := by
  rw [interChecked, intersects?_eq_ok ha hb, Except.map, inter?]
  cases a.intersects b <;> rfl

/-- Of two ranges whose ends are offsets: test and intersection give an answer, the same one whichever
range comes first. The intersection is there exactly if the test says yes, and then it has exactly the
bytes of both. The test says yes if some byte is in both, and in one more case: if one of the two is
empty and strictly between the ends of the other. -/
theorem overlap_decided {a b : ByteRange} (ha : a.Fits) (hb : b.Fits) : ∃ (meet : Bool) (shared : Option ByteRange),
    (a.intersects? b = .ok meet ∧ b.intersects? a = .ok meet) ∧
    (a.interChecked b = .ok shared ∧ b.interChecked a = .ok shared) ∧
    shared.isSome = meet ∧
    (∀ r, shared = some r → ∀ o, r.contains? o = .ok true ↔ a.contains? o = .ok true ∧ b.contains? o = .ok true) ∧
    (meet = true ↔ (∃ o, a.contains? o = .ok true ∧ b.contains? o = .ok true) ∨ a.EmptyInside b ∨ b.EmptyInside a) ∧
    (a.EmptyInside b ∨ b.EmptyInside a → ¬∃ o, a.contains? o = .ok true ∧ b.contains? o = .ok true) := by
  simp only [contains?_eq_true_iff ha, contains?_eq_true_iff hb]
  refine ⟨a.intersects b, a.inter? b, ⟨intersects?_eq_ok ha hb, ?_⟩, ⟨interChecked_eq_ok ha hb, ?_⟩,
    isSome_inter? a b, ?_, intersects_iff_exists_mem, not_exists_mem_of_emptyInside⟩
  · rw [intersects?_eq_ok hb ha, intersects_comm]
  · rw [interChecked_eq_ok hb ha, inter?_comm]
  · intro r hr o
    -- The shared bytes end where one of the two ends, so that end is an offset as well.
    have hfits : r.Fits := by
      have hmeet := intersects_iff.1 (show a.intersects b = true by rw [← isSome_inter?, hr]; rfl)
      rw [inter?, if_pos (intersects_iff.2 hmeet), Option.some.injEq] at hr
      have hle : max a.start b.start ≤ min a.stop b.stop := by
        have := start_le_stop a
        have := start_le_stop b
        omega
      rw [← hr, Fits, stop_ofBounds hle]
      exact Nat.le_trans (Nat.min_le_left _ _) ha
    rw [contains?_eq_true_iff hfits]
    exact mem_inter? hr

/-- Two ranges that overlap in part share the five bytes from 5 on. -/
theorem partial_overlap_decided : (⟨0, 10⟩ : ByteRange).Fits ∧ (⟨5, 10⟩ : ByteRange).Fits ∧
    (⟨0, 10⟩ : ByteRange).interChecked ⟨5, 10⟩ = .ok (some ⟨5, 5⟩) ∧
    ∀ o, (⟨5, 5⟩ : ByteRange).contains? o = .ok true ↔
      (⟨0, 10⟩ : ByteRange).contains? o = .ok true ∧ (⟨5, 10⟩ : ByteRange).contains? o = .ok true := by
  have hshared : (⟨0, 10⟩ : ByteRange).interChecked ⟨5, 10⟩ = .ok (some ⟨5, 5⟩) := rfl
  obtain ⟨_, shared, -, ⟨hab, -⟩, -, hbytes, -⟩ :=
    overlap_decided (a := ⟨0, 10⟩) (b := ⟨5, 10⟩) (by decide) (by decide)
  rw [hshared, Except.ok.injEq] at hab
  exact ⟨by decide, by decide, hshared, hbytes _ hab.symm⟩

/-- The empty range at 5 and the first ten bytes share no byte, but the test says that they do, and their
intersection is the empty range. -/
theorem empty_range_intersects : ¬∀ a b : ByteRange, a.Fits → b.Fits →
    (a.intersects? b = .ok true ↔ ∃ o, a.contains? o = .ok true ∧ b.contains? o = .ok true) ∧
      (a.interChecked b = .ok none ↔ ¬∃ o, a.contains? o = .ok true ∧ b.contains? o = .ok true) := by
  intro h
  obtain ⟨htest, -⟩ := h ⟨5, 0⟩ ⟨0, 10⟩ (by decide) (by decide)
  obtain ⟨o, ho, -⟩ := htest.1 rfl
  obtain ⟨hle, hlt⟩ := (contains?_eq_true_iff (by decide)).1 ho
  exact absurd hlt (Nat.not_lt.2 hle)

end ByteRange

end FileSwarm
