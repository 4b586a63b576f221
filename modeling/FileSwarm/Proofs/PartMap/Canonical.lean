import FileSwarm.Proofs.PartMap.Queries

/-!
# One map for each function of states

The parts of a map are its longest runs of one state, so two maps of files of one length are the same as soon as every
byte has the same state in both. What a history of updates leads to is told by the state it leaves at each offset, and
histories that leave the same states lead to one map.

* `Tiles.unique` : bytes with their states are in parts in one way only;
* `PartMap.eq_of_state?` : maps with the same states are the same;
* `stateAfter`, `lastState_append_list` : the states after a history, from those before it;
* `updates_eq_iff` : two histories lead to one map exactly if they leave the same states;
* `updates_canonical` : and so an update may be made twice, change places with one of other bytes, or be left out
  before one of more bytes; asking for all bytes again gives the blank map.
-/

namespace FileSwarm

/-! ## Parts are told by their states -/

namespace Tiles

variable {a b : Nat} {k l : List Part} {p q : Part}

theorem stop_le_stop (hk : Tiles a b (p :: k)) (hl : Tiles a b (q :: l))
    (h : statesOf (p :: k) = statesOf (q :: l)) (hstate : p.2 = q.2) : q.1.stop ≤ p.1.stop := by
  refine Nat.le_of_not_lt fun hlt => hk.ne_behind List.mem_cons_self ?_
  have hp : p.1.start < p.1.stop := Nat.lt_add_of_pos_right hk.2.1
  have hin : p.1.stop ∈ q.1 := by
    refine ⟨?_, hlt⟩
    rw [hl.1, ← hk.1]
    exact Nat.le_of_lt hp
  rw [h, hl.state_of_mem List.mem_cons_self hin, hstate]

theorem head_state (hk : Tiles a b (p :: k)) : (statesOf (p :: k))[0]? = some p.2 := by
  have hin : a ∈ p.1 := by
    rw [← hk.1]
    exact ⟨Nat.le_refl _, Nat.lt_add_of_pos_right hk.2.1⟩
  have hstate := hk.state_of_mem List.mem_cons_self hin
  rwa [Nat.sub_self] at hstate

/-- Bytes with their states are in parts in one way only. -/
theorem unique (hk : Tiles a b k) (hl : Tiles a b l) (h : statesOf k = statesOf l) : k = l := by
  induction k generalizing a l with
  | nil =>
    cases l with
    | nil => rfl
    | cons q l =>
      have hstate := hl.head_state
      rw [← h] at hstate
      exact nomatch hstate
  | cons p k ih =>
    cases l with
    | nil =>
      have hstate := hk.head_state
      rw [h] at hstate
      exact nomatch hstate
    | cons q l =>
      have hstate : p.2 = q.2 := by
        have hp := hk.head_state
        rw [h, hl.head_state] at hp
        exact (Option.some.inj hp).symm
      have hstop : p.1.stop = q.1.stop :=
        Nat.le_antisymm (hl.stop_le_stop hk h.symm hstate.symm) (hk.stop_le_stop hl h hstate)
      obtain ⟨hstart, -, -, hrest⟩ := hk
      obtain ⟨hstart', -, -, hrest'⟩ := hl
      -- one start, one end, one state: one part
      obtain ⟨⟨start, length⟩, s⟩ := p
      obtain ⟨⟨start', length'⟩, s'⟩ := q
      obtain rfl : start = start' := hstart.trans hstart'.symm
      obtain rfl : length = length' := Nat.add_left_cancel hstop
      obtain rfl : s = s' := hstate
      rw [statesOf_cons, statesOf_cons] at h
      rw [ih hrest hrest' (List.append_cancel_left h)]

end Tiles

namespace PartMap

/-- Maps of files of one length are the same if every byte has the same state in both. -/
theorem eq_of_state? {m k : PartMap} (hlength : m.length = k.length) (h : ∀ o < m.length, m.state? o = k.state? o) :
    m = k := by
  have hstates : m.states = k.states := by
    apply List.ext_getElem?
    intro o
    by_cases ho : o < m.length
    · exact h o ho
    · rw [List.getElem?_eq_none (by rw [length_states]; omega), List.getElem?_eq_none (by rw [length_states]; omega)]
  obtain ⟨length, parts, tiles⟩ := m
  obtain ⟨length', parts', tiles'⟩ := k
  obtain rfl : length = length' := hlength
  obtain rfl : parts = parts' := tiles.unique tiles' hstates
  rfl

/-! ## The states after a history -/

/-- The state of an offset after an update, from that before. -/
def stateAfter (o : Nat) (s : PartState) (c : Part) : PartState := if o ∈ c.1 then c.2 else s

theorem lastState_eq_foldl (calls : List Part) (o : Nat) : lastState calls o = calls.foldl (stateAfter o) .needed := by
  induction calls using List.reverseRecOn with
  | nil => rfl
  | append_singleton calls c ih => rw [lastState_append, List.foldl_append, ih]; rfl

/-- The states after a history and more updates, from those after the history. -/
theorem lastState_append_list (calls more : List Part) (o : Nat) :
    lastState (calls ++ more) o = more.foldl (stateAfter o) (lastState calls o) := by
  rw [lastState_eq_foldl, lastState_eq_foldl, List.foldl_append]

theorem stateAfter_comm {c d : Part} (h : ∀ o ∈ c.1, o ∉ d.1) (o : Nat) (s : PartState) :
    stateAfter o (stateAfter o s c) d = stateAfter o (stateAfter o s d) c := by
  by_cases hc : o ∈ c.1
  · simp only [stateAfter, if_pos hc, if_neg (h o hc)]
  · simp only [stateAfter, if_neg hc]

/-- The last update of an offset decides, so the states before it do not count. -/
theorem stateAfter_of_mem {d : Part} {o : Nat} (h : o ∈ d.1) (s q : PartState) :
    stateAfter o s d = stateAfter o q d := by
  rw [stateAfter, stateAfter, if_pos h, if_pos h]

theorem stateAfter_erase {c d : Part} (h : ∀ o ∈ c.1, o ∈ d.1) (between : List Part) (o : Nat) (s : PartState) :
    stateAfter o (between.foldl (stateAfter o) (stateAfter o s c)) d =
      stateAfter o (between.foldl (stateAfter o) s) d := by
  by_cases hc : o ∈ c.1
  · exact stateAfter_of_mem (h o hc) _ _
  · rw [show stateAfter o s c = s from if_neg hc]

/-! ## Histories that lead to one map -/

/-- Two histories lead to one map exactly if they leave the same states. -/
theorem updates_eq_iff (length : Nat) {calls calls' : List Part} (h : ∀ c ∈ calls, c.1.Fits)
    (h' : ∀ c ∈ calls', c.1.Fits) : (blank length).updates calls = (blank length).updates calls' ↔
      ∀ o < length, lastState calls o = lastState calls' o := by
  obtain ⟨m, hm, hlength, hstate⟩ := updates_state? length h
  obtain ⟨k, hk, hlength', hstate'⟩ := updates_state? length h'
  rw [hm, hk, Except.ok.injEq]
  constructor
  · rintro rfl o ho
    have hsame := (hstate o).symm.trans (hstate' o)
    rwa [if_pos ho, if_pos ho, Option.some.injEq] at hsame
  · intro hsame
    refine eq_of_state? (hlength.trans hlength'.symm) fun o ho => ?_
    rw [hlength] at ho
    rw [hstate, hstate', if_pos ho, if_pos ho, hsame o ho]

/-- What is done in the midst of a history may be done otherwise, if it has the same effect on every state. -/
theorem updates_congr (length : Nat) {calls more more' after : List Part} (h : ∀ c ∈ calls ++ more ++ after, c.1.Fits)
    (h' : ∀ c ∈ calls ++ more' ++ after, c.1.Fits)
    (hsame : ∀ o s, more.foldl (stateAfter o) s = more'.foldl (stateAfter o) s) :
    (blank length).updates (calls ++ more ++ after) = (blank length).updates (calls ++ more' ++ after) := by
  refine (updates_eq_iff length h h').2 fun o _ => ?_
  rw [lastState_append_list, lastState_append_list, lastState_append_list, lastState_append_list, hsame]

/-- Part maps are canonical. Whatever updates two maps of files of one length come from, they are the same exactly if
every byte has the same state in both, that is, if the last update of each byte was to the same state. So, at any place
of a history, an update may be made twice, two updates that share no byte may change places, and an update may be left
out if a later one has all its bytes; if all bytes of the file are needed again, the map is the blank one. -/
theorem updates_canonical (length : Nat) {calls calls' : List Part} (h : ∀ c ∈ calls, c.1.Fits)
    (h' : ∀ c ∈ calls', c.1.Fits) :
    (∃ m k, (blank length).updates calls = .ok m ∧ (blank length).updates calls' = .ok k ∧
      (m = k ↔ ∀ o < length, m.state? o = k.state? o) ∧
      (m = k ↔ ∀ o < length, lastState calls o = lastState calls' o)) ∧
    (∀ c : Part, c.1.Fits →
      (blank length).updates (calls ++ [c, c] ++ calls') = (blank length).updates (calls ++ [c] ++ calls')) ∧
    (∀ c d : Part, c.1.Fits → d.1.Fits → (∀ o ∈ c.1, o ∉ d.1) →
      (blank length).updates (calls ++ [c, d] ++ calls') = (blank length).updates (calls ++ [d, c] ++ calls')) ∧
    (∀ (c d : Part) (between : List Part), c.1.Fits → d.1.Fits → (∀ x ∈ between, x.1.Fits) → (∀ o ∈ c.1, o ∈ d.1) →
      (blank length).updates (calls ++ (c :: between ++ [d]) ++ calls') =
        (blank length).updates (calls ++ (between ++ [d]) ++ calls')) ∧
    ((blank length).range.Fits →
      (blank length).updates (calls ++ [((blank length).range, .needed)]) = .ok (blank length)) := by
  -- every history in the statement has ranges that end with an offset
  have hfits : ∀ {more : List Part}, (∀ c ∈ more, c.1.Fits) → ∀ c ∈ calls ++ more ++ calls', c.1.Fits := fun hmore => by
    simp only [List.forall_mem_append]
    exact ⟨⟨h, hmore⟩, h'⟩
  refine ⟨?_, fun c hc => ?_, fun c d hc hd hapart => ?_, fun c d between hc hd hbetween hinside => ?_,
    fun hrange => ?_⟩
  · obtain ⟨m, hm, hlength, -⟩ := updates_state? length h
    obtain ⟨k, hk, hlength', -⟩ := updates_state? length h'
    have hlast := updates_eq_iff length h h'
    rw [hm, hk, Except.ok.injEq] at hlast
    refine ⟨m, k, hm, hk, ⟨fun hsame o _ => by rw [hsame], fun hsame => ?_⟩, hlast⟩
    exact eq_of_state? (hlength.trans hlength'.symm) fun o ho => hsame o (hlength ▸ ho)
  · refine updates_congr length (hfits ?_) (hfits ?_) fun o s => stateAfter_erase (fun _ ho => ho) [] o s
    · simp [hc]
    · simp [hc]
  · refine updates_congr length (hfits ?_) (hfits ?_) fun o s => stateAfter_comm hapart o s
    · simp [hc, hd]
    · simp [hc, hd]
  · refine updates_congr length (hfits ?_) (hfits ?_) fun o s => ?_
    · simpa [hc, hd, or_imp, forall_and] using hbetween
    · simpa [hd, or_imp, forall_and] using hbetween
    · rw [List.foldl_append, List.foldl_append]
      exact stateAfter_erase hinside between o s
  · have hall : ∀ c ∈ calls ++ [((blank length).range, .needed)], c.1.Fits :=
      List.forall_mem_append.2 ⟨h, by simpa using hrange⟩
    have hnone : ∀ c ∈ ([] : List Part), c.1.Fits := List.forall_mem_nil _
    refine (updates_eq_iff length hall hnone).2 fun o ho => ?_
    have hin : o ∈ (blank length).range := ⟨Nat.zero_le o, by simpa [range, ByteRange.stop] using ho⟩
    exact (lastState_append calls _ o).trans (if_pos hin)

/-- A part is asked for, and half of it and all behind it is there. -/
def twoCalls : List Part := [(⟨2, 6⟩, .pending), (⟨5, 20⟩, .available)]

/-- The same in other pieces, from behind. -/
def fourCalls : List Part := [(⟨5, 1⟩, .needed), (⟨5, 5⟩, .available), (⟨3, 2⟩, .pending), (⟨2, 1⟩, .pending)]

theorem updates_canonical_pieces :
    (∀ c ∈ twoCalls, c.1.Fits) ∧ (∀ c ∈ fourCalls, c.1.Fits) ∧
      (∃ m, (blank 10).updates twoCalls = .ok m ∧ (blank 10).updates fourCalls = .ok m) ∧
      (blank 10).updates (twoCalls ++ [(⟨0, 10⟩, .needed)]) = .ok (blank 10) := by
  have h : ∀ c ∈ twoCalls, c.1.Fits := by decide
  have h' : ∀ c ∈ fourCalls, c.1.Fits := by decide
  have hstates : ∀ o < 10, lastState twoCalls o = lastState fourCalls o := by decide
  obtain ⟨⟨m, k, hm, hk, -, hlast⟩, -, -, -, hblank⟩ := updates_canonical 10 h h'
  obtain rfl := hlast.2 hstates
  exact ⟨h, h', ⟨m, hm, hk⟩, hblank (by decide)⟩

end PartMap

end FileSwarm
