import FileSwarm.Proofs.PartMap.Updates

/-!
# What queries answer after many updates

A part map that was updated any number of times answers every query as the function from offsets to states does that it
stands for: counts are numbers of offsets, and the first part in a state is the first run of offsets in it.

* `count_eq_card`, `countAll_eq_card` : counts as numbers of offsets; `count?_eq_ok` : no count is a fault;
* `Tiles.ne_behind` : behind a part comes another state, because neighbours were merged;
* `FirstRun length f s r` : `r` is the first run of offsets in the state `s`; `FirstRun.unique` : there is only one;
* `firstRun_of_first?` : the first part in a state is such a run;
* `queries_refine` : all queries after some updates.
-/

namespace FileSwarm

namespace Tiles

theorem ne_behind {a b : Nat} {l : List Part} (h : Tiles a b l) {p : Part} (hp : p ∈ l) :
    (statesOf l)[p.1.stop - a]? ≠ some p.2 := by
  induction l generalizing a with
  | nil => exact absurd hp List.not_mem_nil
  | cons q rest ih =>
    obtain ⟨rfl, hq, hhead, hrest⟩ := h
    have hstop : q.1.stop = q.1.start + q.1.length := rfl
    have hshift : ∀ o, q.1.stop ≤ o → (statesOf (q :: rest))[o - q.1.start]? = (statesOf rest)[o - q.1.stop]? := by
      intro o ho
      rw [statesOf_cons, List.getElem?_append_right (by rw [List.length_replicate]; omega), List.length_replicate,
        Nat.sub_sub, ← hstop]
    rcases List.mem_cons.1 hp with rfl | hp
    · rw [hshift _ (Nat.le_refl _)]
      cases rest with
      | nil => exact nofun
      | cons x rest =>
        have hx : p.1.stop ∈ x.1 := by
          rw [← hrest.1]
          exact ⟨Nat.le_refl _, Nat.lt_add_of_pos_right hrest.2.1⟩
        rw [hrest.state_of_mem List.mem_cons_self hx]
        exact fun he => hhead x rfl (Option.some.inj he)
    · have hle := (hrest.bounds hp).1
      have hend : p.1.start ≤ p.1.stop := Nat.le_add_right _ _
      rw [hshift _ (Nat.le_trans hle hend)]
      exact ih hrest hp

end Tiles

/-! ## The first run in a state -/

/-- `r` is the first run of offsets in the state `s`, among those below `length`: it begins where that state occurs
first, and goes on as long as the state does. -/
structure FirstRun (length : Nat) (f : Nat → PartState) (s : PartState) (r : ByteRange) : Prop where
  pos : 0 < r.length
  stop_le : r.stop ≤ length
  inside : ∀ o ∈ r, f o = s
  least : ∀ o < r.start, f o ≠ s
  maximal : r.stop < length → f r.stop ≠ s

namespace FirstRun

variable {length : Nat} {f : Nat → PartState} {s : PartState} {q r : ByteRange}

theorem start_mem (h : FirstRun length f s r) : r.start ∈ r := ⟨Nat.le_refl _, Nat.lt_add_of_pos_right h.pos⟩

theorem start_le (h : FirstRun length f s r) (hq : FirstRun length f s q) : r.start ≤ q.start :=
  Nat.le_of_not_lt fun hlt => h.least _ hlt (hq.inside _ hq.start_mem)

theorem stop_le_stop (h : FirstRun length f s r) (hq : FirstRun length f s q) : r.stop ≤ q.stop := by
  refine Nat.le_of_not_lt fun hlt => hq.maximal (Nat.lt_of_lt_of_le hlt h.stop_le) (h.inside _ ⟨?_, hlt⟩)
  exact Nat.le_trans (h.start_le hq) (Nat.le_add_right _ _)

theorem unique (h : FirstRun length f s r) (hq : FirstRun length f s q) : r = q := by
  have hstart := Nat.le_antisymm (h.start_le hq) (hq.start_le h)
  have hstop := Nat.le_antisymm (h.stop_le_stop hq) (hq.stop_le_stop h)
  obtain ⟨start, length⟩ := r
  obtain ⟨start', length'⟩ := q
  simp only [ByteRange.stop] at hstart hstop
  rw [ByteRange.mk.injEq]
  omega

end FirstRun

namespace PartMap

variable {m : PartMap} {f : Nat → PartState}

theorem firstRun_of_first? (hf : ∀ o < m.length, m.state? o = some (f o)) {s : PartState} {r : ByteRange}
    (h : m.first? s = some r) : FirstRun m.length f s r := by
  have hpart := first?_eq_some h
  obtain ⟨hstop, hinside⟩ := mem_parts hpart
  have hpos := pos_of_mem_parts hpart
  have hlt : ∀ o ∈ r, o < m.length := fun o ho => Nat.lt_of_lt_of_le ho.2 hstop
  refine ⟨hpos, hstop, fun o ho => ?_, fun o ho he => ?_, fun hend he => ?_⟩
  · exact Option.some.inj ((hf o (hlt o ho)).symm.trans (hinside o ho))
  · have hstart : r.start ∈ r := ⟨Nat.le_refl _, Nat.lt_add_of_pos_right hpos⟩
    exact first?_least h ho (he ▸ hf o (Nat.lt_trans ho (hlt _ hstart)))
  · exact m.tiles.ne_behind hpart (he ▸ hf r.stop hend)

theorem first?_eq_none_iff (hf : ∀ o < m.length, m.state? o = some (f o)) {s : PartState} :
    m.first? s = none ↔ ∀ o < m.length, f o ≠ s := by
  refine ⟨fun h o ho he => first?_eq_none h o (he ▸ hf o ho), fun h => ?_⟩
  cases hfirst : m.first? s with
  | none => rfl
  | some r =>
    have hrun := firstRun_of_first? hf hfirst
    exact absurd (hrun.inside _ hrun.start_mem) (h _ (Nat.lt_of_lt_of_le hrun.start_mem.2 hrun.stop_le))

theorem first?_eq_some_iff (hf : ∀ o < m.length, m.state? o = some (f o)) {s : PartState} {r : ByteRange} :
    m.first? s = some r ↔ FirstRun m.length f s r := by
  refine ⟨firstRun_of_first? hf, fun h => ?_⟩
  cases hfirst : m.first? s with
  | none =>
    exact absurd (h.inside _ h.start_mem)
      ((first?_eq_none_iff hf).1 hfirst _ (Nat.lt_of_lt_of_le h.start_mem.2 h.stop_le))
  | some q => rw [(firstRun_of_first? hf hfirst).unique h]

/-! ## Counts -/

/-- The number of bytes of a range in a state is the number of their offsets. -/
theorem count_eq_card (hf : ∀ o < m.length, m.state? o = some (f o)) (r : ByteRange) (s : PartState) :
    m.count r s = {o ∈ Finset.range m.length | o ∈ r ∧ f o = s}.card := by
  rw [count_eq_offsets]
  congr 1
  refine Finset.filter_congr fun o ho => and_congr_right fun _ => ?_
  rw [hf o (Finset.mem_range.1 ho), Option.some.injEq]

theorem countAll_eq_card (hf : ∀ o < m.length, m.state? o = some (f o)) (s : PartState) :
    m.countAll s = {o ∈ Finset.range m.length | f o = s}.card := by
  rw [countAll_eq_offsets]
  congr 1
  refine Finset.filter_congr fun o ho => ?_
  rw [hf o (Finset.mem_range.1 ho), Option.some.injEq]

/-- A count is no fault if the range ends with an offset. -/
theorem count?_eq_ok {r : ByteRange} (h : r.Fits) (s : PartState) : m.count? r s = .ok (m.count r s) := by
  unfold count?
  split
  · rw [ByteRange.stop?_eq_ok h]
    rfl
  · next hany =>
    have hnil : m.parts.filter (·.2 = s) = [] := List.filter_eq_nil_iff.2 fun p hp hs =>
      hany (List.any_eq_true.2 ⟨p, hp, hs⟩)
    rw [count, hnil]
    rfl

/-! ## All queries -/

/-- After any updates with ranges that end with an offset, a part map answers as the function `lastState` from offsets
to states does. A count is the number of the offsets of a range in a state, for all of the file these add up to its
length; the first part in a state is the first run of offsets in it, and there is none exactly if no offset has that
state; the file is complete exactly if every offset is available. -/
theorem queries_refine (length : Nat) (calls : List Part) (h : ∀ c ∈ calls, c.1.Fits) :
    ∃ m, (blank length).updates calls = .ok m ∧
      (∀ s r, r.Fits → m.count? r s =
        .ok {o ∈ Finset.range length | o ∈ r ∧ lastState calls o = s}.card) ∧
      (m.counts = ⟨{o ∈ Finset.range length | lastState calls o = .needed}.card,
          {o ∈ Finset.range length | lastState calls o = .pending}.card,
          {o ∈ Finset.range length | lastState calls o = .available}.card⟩ ∧
        m.counts.needed + m.counts.pending + m.counts.available = length) ∧
      (∀ s, (m.first? s = none ↔ ∀ o < length, lastState calls o ≠ s) ∧
        ∀ r, m.first? s = some r ↔ FirstRun length (lastState calls) s r) ∧
      (m.isComplete ↔ ∀ o < length, lastState calls o = .available) := by
  obtain ⟨m, hm, rfl, hstate⟩ := updates_state? length h
  have hf : ∀ o < m.length, m.state? o = some (lastState calls o) := fun o ho => by rw [hstate, if_pos ho]
  refine ⟨m, hm, fun s r hr => ?_, ⟨?_, m.countAll_sum⟩, fun s => ⟨first?_eq_none_iff hf, fun r =>
    first?_eq_some_iff hf⟩, ?_⟩
  · rw [count?_eq_ok hr, count_eq_card hf]
  · rw [counts, countAll_eq_card hf, countAll_eq_card hf, countAll_eq_card hf]
  · rw [isComplete_iff]
    refine forall_congr' fun o => forall_congr' fun ho => ?_
    rw [hf o ho, Option.some.injEq]

/-- A middle part asked for and all behind it there: what is needed first, and what of the range is there. -/
theorem queries_refine_split :
    (∀ c ∈ [(⟨2, 4⟩, .pending), (⟨5, 20⟩, .available)], (c : Part).1.Fits) ∧
      ∃ m, (blank 10).updates [(⟨2, 4⟩, .pending), (⟨5, 20⟩, .available)] = .ok m ∧
        m.count? ⟨3, 4⟩ .available = .ok 2 ∧ m.counts = ⟨2, 3, 5⟩ ∧ m.first? .pending = some ⟨2, 3⟩ ∧
        m.isComplete = false := by
  have hfits : ∀ c ∈ [(⟨2, 4⟩, .pending), (⟨5, 20⟩, .available)], (c : Part).1.Fits := by decide
  have hinside : ∀ o < 5, 2 ≤ o → lastState [(⟨2, 4⟩, .pending), (⟨5, 20⟩, .available)] o = .pending := by decide
  obtain ⟨m, hm, hcount, ⟨hcounts, -⟩, hfirst, hcomplete⟩ := queries_refine 10 _ hfits
  refine ⟨hfits, m, hm, hcount .available ⟨3, 4⟩ (by decide), hcounts, ?_, ?_⟩
  · refine ((hfirst .pending).2 ⟨2, 3⟩).2 ⟨by decide, by decide, fun o ho => hinside o ho.2 ho.1, ?_, ?_⟩
    · exact show ∀ o < 2, lastState _ o ≠ .pending by decide
    · decide
  · rw [Bool.eq_false_iff, ne_eq, hcomplete]
    exact fun hall => absurd (hall 0 (by decide)) (by decide)

end PartMap

end FileSwarm
