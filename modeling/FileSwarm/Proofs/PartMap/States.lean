import Mathlib.Data.List.Basic
import Mathlib.Data.List.Count
import Mathlib.Data.Nat.Count
import FileSwarm.PartMap

/-!
# Part maps byte by byte

`PartMap.state? m o` is the state of the byte at offset `o`, if the file has it. Every operation on
part maps is read off through it:

* `statesOf_splice`, `statesOf_coalesce` : what an update does to the list of states;
* `Tiles.bounds`, `Tiles.state_of_mem`, `Tiles.exists_part` : parts and the states at their places;
* `state?_blank`, `state?_set`, `length_set` : construction;
* `mem_parts`, `exists_part` : a listed part holds bytes of one state only, and each byte is in one;
* `first?_eq_some`, `first?_least`, `first?_eq_none` : the first part of a state, or no byte of it;
* `isComplete_iff` : all bytes available;
* `count_eq`, `count_eq_offsets`, `countAll_set_add`, `countAll_congr` : counts of states; `state?_of_count`,
  `count_of_forall` : a range that is in one state.
-/

namespace FileSwarm

/-! ## Sums -/

theorem sumOf_cons (n : Nat) (l : List Nat) : sumOf (n :: l) = n + sumOf l := rfl

theorem sumOf_append (k l : List Nat) : sumOf (k ++ l) = sumOf k + sumOf l := by
  induction k with
  | nil => exact (Nat.zero_add _).symm
  | cons n k ih => rw [List.cons_append, sumOf_cons, sumOf_cons, ih, Nat.add_assoc]

theorem sumOf_eq_zero {l : List Nat} : sumOf l = 0 ↔ ∀ n ∈ l, n = 0 := by
  induction l with
  | nil => exact ⟨fun _ _ h => absurd h List.not_mem_nil, fun _ => rfl⟩
  | cons n l ih =>
    rw [sumOf_cons, Nat.add_eq_zero_iff, ih, List.forall_mem_cons]

/-! ## Lists of parts -/

@[simp] theorem statesOf_nil : statesOf [] = [] := rfl

@[simp] theorem statesOf_cons (p : Part) (l : List Part) :
    statesOf (p :: l) = List.replicate p.1.length p.2 ++ statesOf l := rfl

@[simp] theorem statesOf_append (k l : List Part) : statesOf (k ++ l) = statesOf k ++ statesOf l :=
  List.flatMap_append

theorem statesOf_before (r : ByteRange) (p : Part) :
    statesOf (before r p) = List.replicate (r.start - p.1.start) p.2 := by
  unfold before
  split
  · simp [ByteRange.ofBounds]
  · next h => rw [Nat.sub_eq_zero_of_le (Nat.le_of_not_lt h)]; rfl

theorem statesOf_behind (r : ByteRange) (p : Part) :
    statesOf (behind r p) = List.replicate (p.1.stop - r.stop) p.2 := by
  unfold behind
  split
  · simp [ByteRange.ofBounds]
  · next h => rw [Nat.sub_eq_zero_of_le (Nat.le_of_not_lt h)]; rfl

theorem statesOf_splice_true {r : ByteRange} (s : PartState) {a b : Nat} {l : List Part}
    (h : Tiles a b l) (hr : r.start ≤ a) :
    statesOf (splice r s true l) = (statesOf l).drop (r.stop - a) := by
  induction l generalizing a with
  | nil => simp [splice]
  | cons p rest ih =>
    obtain ⟨rfl, hp, -, hrest⟩ := h
    have hstop : p.1.stop = p.1.start + p.1.length := rfl
    have hrest := ih hrest (by omega)
    rw [splice, statesOf_cons, List.drop_append, List.drop_replicate, List.length_replicate,
      show r.stop - p.1.start - p.1.length = r.stop - p.1.stop by omega]
    by_cases hmeet : p.1.start < r.stop
    · rw [if_pos (ByteRange.intersects_iff.2 ⟨hmeet, by omega⟩), if_pos rfl]
      simp only [statesOf_append, statesOf_before, statesOf_behind, statesOf_nil, hrest]
      rw [Nat.sub_eq_zero_of_le hr, show p.1.stop - r.stop = p.1.length - (r.stop - p.1.start) by omega]
      rfl
    · rw [if_neg (fun h => hmeet (ByteRange.intersects_iff.1 h).1), if_neg (by simp), statesOf_cons,
        hrest, Nat.sub_eq_zero_of_le (Nat.le_of_not_lt hmeet), Nat.sub_zero]

theorem statesOf_splice {r : ByteRange} (s : PartState) {a b : Nat} {l : List Part}
    (h : Tiles a b l) (hr : a ≤ r.start) :
    statesOf (splice r s false l) = (statesOf l).take (r.start - a) ++
      List.replicate r.length s ++ (statesOf l).drop (r.stop - a) := by
  have hle : r.stop = r.start + r.length := rfl
  induction l generalizing a with
  | nil => simp [splice]
  | cons p rest ih =>
    obtain ⟨rfl, hp, -, hrest⟩ := h
    have hstop : p.1.stop = p.1.start + p.1.length := rfl
    rw [splice, statesOf_cons, List.take_append, List.drop_append, List.take_replicate,
      List.drop_replicate, List.length_replicate]
    by_cases hafter : p.1.stop ≤ r.start
    · rw [if_neg (fun h => Nat.not_lt.2 hafter (ByteRange.intersects_iff.1 h).2), if_neg (by simp; omega),
        statesOf_cons, ih hrest hafter, Nat.min_eq_right (by omega),
        show p.1.length - (r.stop - p.1.start) = 0 by omega, hstop, Nat.sub_sub, Nat.sub_sub]
      simp
    · have htail := statesOf_splice_true s hrest (r := r) (by omega)
      rw [Nat.min_eq_left (by omega), Nat.sub_eq_zero_of_le (show r.start - p.1.start ≤ p.1.length by omega)]
      by_cases hmeet : p.1.start < r.stop
      · rw [if_pos (ByteRange.intersects_iff.2 ⟨hmeet, by omega⟩), if_neg Bool.false_ne_true]
        simp only [statesOf_append, statesOf_before, statesOf_behind, statesOf_cons, statesOf_nil, htail]
        rw [show p.1.stop - r.stop = p.1.length - (r.stop - p.1.start) by omega,
          show r.stop - p.1.start - p.1.length = r.stop - p.1.stop by omega]
        simp
      · rw [if_neg (fun h => hmeet (ByteRange.intersects_iff.1 h).1), if_pos (by simp; omega), statesOf_cons,
          statesOf_cons, htail, show r.start - p.1.start = 0 by omega, show r.stop - p.1.start = 0 by omega,
          show r.stop - p.1.stop = 0 by omega]
        simp

theorem statesOf_coalesceFrom (last : Part) (l : List Part) :
    statesOf (coalesceFrom last l) = List.replicate last.1.length last.2 ++ statesOf l := by
  induction l generalizing last with
  | nil => simp [coalesceFrom]
  | cons p rest ih =>
    rw [coalesceFrom]
    split
    · next hempty =>
      have : p.1.length = 0 := by simpa [ByteRange.isEmpty] using hempty
      rw [ih, statesOf_cons, this]
      rfl
    · split
      · next h =>
        have hlength : (ByteRange.ofBounds last.1.start p.1.stop).length = last.1.length + p.1.length := by
          have hlast : last.1.stop = last.1.start + last.1.length := rfl
          simp only [ByteRange.ofBounds, ByteRange.stop]
          omega
        rw [ih, statesOf_cons, hlength, List.replicate_add, List.append_assoc, h.1]
      · rw [statesOf_cons, ih, statesOf_cons]

theorem statesOf_coalesce (l : List Part) : statesOf (coalesce l) = statesOf l := by
  induction l with
  | nil => rfl
  | cons p rest ih =>
    rw [coalesce]
    split
    · next hempty =>
      have : p.1.length = 0 := by simpa [ByteRange.isEmpty] using hempty
      rw [ih, statesOf_cons, this]
      rfl
    · rw [statesOf_coalesceFrom, statesOf_cons]

/-! ## Parts with their places -/

namespace Tiles

variable {a b : Nat} {l : List Part}

theorem length_statesOf (h : Tiles a b l) : (statesOf l).length = b - a := by
  induction l generalizing a with
  | nil =>
    obtain rfl : a = b := h
    simp
  | cons p rest ih =>
    obtain ⟨rfl, -, -, hrest⟩ := h
    have hle := hrest.le
    rw [statesOf_cons, List.length_append, List.length_replicate, ih hrest]
    simp only [ByteRange.stop] at hle ⊢
    omega

theorem bounds (h : Tiles a b l) {p : Part} (hp : p ∈ l) :
    a ≤ p.1.start ∧ p.1.stop ≤ b ∧ 0 < p.1.length := by
  induction l generalizing a with
  | nil => exact absurd hp List.not_mem_nil
  | cons q rest ih =>
    obtain ⟨rfl, hq, -, hrest⟩ := h
    rcases List.mem_cons.1 hp with rfl | hp
    · exact ⟨Nat.le_refl _, hrest.le, hq⟩
    · obtain ⟨hstart, hstop, hpos⟩ := ih hrest hp
      exact ⟨Nat.le_trans (Nat.le_add_right _ _) hstart, hstop, hpos⟩

theorem state_of_mem (h : Tiles a b l) {p : Part} (hp : p ∈ l) {o : Nat} (ho : o ∈ p.1) :
    (statesOf l)[o - a]? = some p.2 := by
  induction l generalizing a with
  | nil => exact absurd hp List.not_mem_nil
  | cons q rest ih =>
    obtain ⟨rfl, -, -, hrest⟩ := h
    have hstop : q.1.stop = q.1.start + q.1.length := rfl
    rw [statesOf_cons]
    rw [ByteRange.mem_iff] at ho
    rcases List.mem_cons.1 hp with rfl | hp
    · rw [List.getElem?_append_left (by simp; omega), List.getElem?_replicate, if_pos (by omega)]
    · have hle := (hrest.bounds hp).1
      rw [List.getElem?_append_right (by simp; omega), List.length_replicate, Nat.sub_sub, ← hstop]
      exact ih hrest hp

theorem find_least (h : Tiles a b l) {f : Part → Bool} {p q : Part} (hp : l.find? f = some p) (hq : q ∈ l)
    (hf : f q) : p.1.start ≤ q.1.start := by
  induction l generalizing a with
  | nil => exact absurd hq List.not_mem_nil
  | cons x rest ih =>
    obtain ⟨rfl, -, -, hrest⟩ := h
    have hstop : x.1.start ≤ x.1.stop := Nat.le_add_right _ _
    rw [List.find?_cons] at hp
    cases hx : f x with
    | true =>
      obtain rfl : x = p := by simpa [hx] using hp
      rcases List.mem_cons.1 hq with rfl | hq
      · exact Nat.le_refl _
      · exact Nat.le_trans hstop (hrest.bounds hq).1
    | false =>
      rw [hx] at hp
      rcases List.mem_cons.1 hq with rfl | hq
      · exact nomatch hx.symm.trans hf
      · exact ih hrest hp hq

theorem exists_part (h : Tiles a b l) {o : Nat} (ha : a ≤ o) (hb : o < b) : ∃ p ∈ l, o ∈ p.1 := by
  induction l generalizing a with
  | nil =>
    obtain rfl : a = b := h
    omega
  | cons q rest ih =>
    obtain ⟨rfl, -, -, hrest⟩ := h
    by_cases ho : o < q.1.stop
    · exact ⟨q, List.mem_cons_self, ha, ho⟩
    · obtain ⟨p, hp, hmem⟩ := ih hrest (Nat.le_of_not_lt ho)
      exact ⟨p, List.mem_cons_of_mem _ hp, hmem⟩

end Tiles

namespace PartMap

/-- The state of the byte at an offset, if the file has it. -/
def state? (m : PartMap) (o : Nat) : Option PartState := m.states[o]?

@[simp] theorem length_states (m : PartMap) : m.states.length = m.length := m.tiles.length_statesOf

theorem lt_length {m : PartMap} {o : Nat} {s : PartState} (h : m.state? o = some s) : o < m.length := by
  rw [← length_states]
  exact (List.getElem?_eq_some_iff.1 h).1

theorem exists_state {m : PartMap} {o : Nat} (h : o < m.length) : ∃ s, m.state? o = some s :=
  ⟨_, List.getElem?_eq_getElem (by rwa [length_states])⟩

/-! ## Construction -/

theorem states_blank (n : Nat) : (blank n).states = List.replicate n .needed := by
  simp only [states, blank]
  split
  · next h => simp [h]
  · simp

@[simp] theorem length_blank (n : Nat) : (blank n).length = n := rfl

theorem state?_blank (n o : Nat) : (blank n).state? o = if o < n then some .needed else none := by
  rw [state?, states_blank, List.getElem?_replicate]

theorem eq_needed_of_blank {n o : Nat} {s : PartState} (h : (blank n).state? o = some s) : s = .needed := by
  rw [state?_blank] at h
  split at h
  · exact (Option.some.inj h).symm
  · exact nomatch h

theorem states_set (m : PartMap) (r : ByteRange) (s : PartState) :
    (m.set r s).states = m.states.take (min r.start m.length) ++
      List.replicate (min r.stop m.length - min r.start m.length) s ++
      m.states.drop (min r.stop m.length) := by
  have hle : r.start ≤ r.stop := Nat.le_add_right _ _
  simp only [states, set, updated, inter?_range]
  by_cases hmeet : r.start < m.length ∧ 0 < r.stop
  · have hstop := ByteRange.stop_ofBounds (show r.start ≤ min r.stop m.length by omega)
    rw [if_pos hmeet, Nat.min_eq_left (Nat.le_of_lt hmeet.1)]
    simp only [statesOf_coalesce]
    rw [statesOf_splice s m.tiles (Nat.zero_le _), hstop]
    rfl
  · rw [if_neg hmeet, show min r.stop m.length - min r.start m.length = 0 by omega,
      show min r.start m.length = min r.stop m.length by omega]
    simp

@[simp] theorem length_set (m : PartMap) (r : ByteRange) (s : PartState) :
    (m.set r s).length = m.length := rfl

theorem state?_set (m : PartMap) (r : ByteRange) (s : PartState) (o : Nat) :
    (m.set r s).state? o = if o ∈ r ∧ o < m.length then some s else m.state? o := by
  have hlen : (m.states.take (min r.start m.length)).length = min r.start m.length := by simp
  simp only [state?, states_set, List.append_assoc, ByteRange.mem_iff]
  by_cases h₁ : o < min r.start m.length
  · rw [List.getElem?_append_left (by omega), List.getElem?_take_of_lt h₁, if_neg (by omega)]
  · rw [List.getElem?_append_right (by omega), hlen]
    by_cases h₂ : o < min r.stop m.length
    · rw [List.getElem?_append_left (by simp; omega), List.getElem?_replicate,
        if_pos (by omega), if_pos (by omega)]
    · have hle : r.start ≤ r.stop := Nat.le_add_right _ _
      rw [List.getElem?_append_right (by simp; omega), List.getElem?_drop, List.length_replicate,
        if_neg (by omega)]
      congr 1
      omega

theorem state?_set_of_mem {m : PartMap} {r : ByteRange} {s : PartState} {o : Nat} (h : o ∈ r)
    (ho : o < m.length) : (m.set r s).state? o = some s := by
  rw [state?_set, if_pos ⟨h, ho⟩]

theorem state?_set_of_not_mem {m : PartMap} {r : ByteRange} {s : PartState} {o : Nat} (h : o ∉ r) :
    (m.set r s).state? o = m.state? o := by
  rw [state?_set, if_neg fun hr => h hr.1]

/-- A listed part lies in the file and all its bytes have the state it is listed with. -/
theorem mem_parts {m : PartMap} {r : ByteRange} {s : PartState} (h : (r, s) ∈ m.parts) :
    r.stop ≤ m.length ∧ ∀ o ∈ r, m.state? o = some s :=
  ⟨(m.tiles.bounds h).2.1, fun _ ho => m.tiles.state_of_mem h ho⟩

theorem pos_of_mem_parts {m : PartMap} {r : ByteRange} {s : PartState} (h : (r, s) ∈ m.parts) :
    0 < r.length :=
  (m.tiles.bounds h).2.2

theorem exists_part {m : PartMap} {o : Nat} {s : PartState} (h : m.state? o = some s) :
    ∃ r, (r, s) ∈ m.parts ∧ o ∈ r := by
  obtain ⟨⟨r, q⟩, hp, ho⟩ := m.tiles.exists_part (Nat.zero_le o) (lt_length h)
  have hq : q = s := Option.some.inj (((mem_parts hp).2 o ho).symm.trans h)
  exact ⟨r, hq ▸ hp, ho⟩

theorem first?_eq_some {m : PartMap} {s : PartState} {r : ByteRange} (h : m.first? s = some r) :
    (r, s) ∈ m.parts := by
  obtain ⟨p, hp, rfl⟩ := Option.map_eq_some_iff.1 h
  have hs : p.2 = s := by simpa using List.find?_some hp
  exact hs ▸ List.mem_of_find?_eq_some hp

theorem first?_eq_none {m : PartMap} {s : PartState} (h : m.first? s = none) (o : Nat) :
    m.state? o ≠ some s := by
  intro ho
  obtain ⟨r, hr, -⟩ := exists_part ho
  rw [first?, Option.map_eq_none_iff] at h
  simpa using List.find?_eq_none.1 h _ hr

/-- No byte before the first part in a state is in that state. -/
theorem first?_least {m : PartMap} {s : PartState} {r : ByteRange} (h : m.first? s = some r) {o : Nat}
    (ho : o < r.start) : m.state? o ≠ some s := by
  intro hs
  obtain ⟨q, hq, hin⟩ := exists_part hs
  obtain ⟨p, hp, rfl⟩ := Option.map_eq_some_iff.1 h
  have hle : p.1.start ≤ q.start := m.tiles.find_least hp hq (by simp)
  exact Nat.not_lt.2 (Nat.le_trans hle hin.1) ho

/-! ## Completeness and counts -/

theorem isComplete_iff {m : PartMap} : m.isComplete ↔ ∀ o < m.length, m.state? o = some .available := by
  have htiles := m.tiles
  unfold isComplete
  split
  · next h =>
    rw [h] at htiles
    simp [← show 0 = m.length from htiles]
  · next p h =>
    rw [h] at htiles
    obtain ⟨hstart, hpos, -, hstop⟩ := htiles
    have hmem : ∀ o < m.length, o ∈ p.1 := fun o ho =>
      ⟨hstart ▸ Nat.zero_le o, (show p.1.stop = m.length from hstop) ▸ ho⟩
    have hstate : ∀ o < m.length, m.state? o = some p.2 := fun o ho =>
      (mem_parts (r := p.1) (by simp [h])).2 o (hmem o ho)
    rw [decide_eq_true_iff]
    refine ⟨fun hp o ho => hp ▸ hstate o ho, fun hall => ?_⟩
    have hlt : p.1.start < m.length := by
      rw [← show p.1.stop = m.length from hstop]
      exact Nat.lt_add_of_pos_right hpos
    exact Option.some.inj ((hstate _ hlt).symm.trans (hall _ hlt))
  · next hnil hone =>
    -- two neighbours differ, so one of them is not available
    match hparts : m.parts with
    | [] => exact absurd hparts hnil
    | [p] => exact absurd hparts (hone p)
    | p :: q :: rest =>
      refine ⟨fun h => absurd h Bool.false_ne_true, fun hall => ?_⟩
      have havailable : ∀ x ∈ m.parts, x.2 = .available := fun x hx => by
        obtain ⟨-, hstop, hpos⟩ := m.tiles.bounds hx
        have hlt : x.1.start < x.1.stop := Nat.lt_add_of_pos_right hpos
        exact Option.some.inj
          (((mem_parts hx).2 _ ⟨Nat.le_refl _, hlt⟩).symm.trans (hall _ (Nat.lt_of_lt_of_le hlt hstop)))
      rw [hparts] at htiles havailable
      obtain ⟨-, -, hne, -⟩ := htiles
      exact absurd ((havailable q (by simp)).trans (havailable p (by simp)).symm) (hne q rfl)

theorem states_eq_of_isComplete {m : PartMap} (h : m.isComplete) :
    m.states = List.replicate m.length .available := by
  apply List.ext_getElem?
  intro o
  rw [List.getElem?_replicate]
  split
  · next ho => exact isComplete_iff.1 h o ho
  · next ho => exact List.getElem?_eq_none (by rw [length_states]; exact Nat.le_of_not_lt ho)

/-- Counting in a slice of a list goes by the places that lie in it. -/
theorem count_slice {α : Type} [DecidableEq α] (l : List α) (a b : Nat) (x : α) {n : Nat} (hn : n ≤ l.length) :
    ((l.take (min b n)).drop a).count x = Nat.count (fun o => (a ≤ o ∧ o < b) ∧ l[o]? = some x) n := by
  induction n with
  | zero => simp
  | succ n ih =>
    have hlt : n < l.length := hn
    have hget : l[n]? = some l[n] := List.getElem?_eq_getElem hlt
    rw [Nat.count_succ, ← ih (Nat.le_of_lt hlt)]
    by_cases hb : n < b
    · have htake : (l.take n).length = n := List.length_take_of_le (Nat.le_of_lt hlt)
      rw [Nat.min_eq_right hb, Nat.min_eq_right (Nat.le_of_lt hb), List.take_add_one, hget, List.drop_append, htake,
        List.count_append]
      by_cases ha : a ≤ n
      · rw [Nat.sub_eq_zero_of_le ha]
        simp [ha, hb, List.count_singleton]
      · rw [if_neg fun h => ha h.1.1, List.drop_of_length_le (l := Option.toList _) (by simp; omega)]
        rfl
    · rw [if_neg fun h => hb h.1.2, Nat.min_eq_left (by omega), Nat.min_eq_left (by omega), Nat.add_zero]

theorem length_inter? (p r : ByteRange) :
    ((p.inter? r).map (·.length)).getD 0 = min p.stop r.stop - max p.start r.start := by
  rw [ByteRange.inter?]
  split
  · rfl
  · next h =>
    have : ¬(p.start < r.stop ∧ r.start < p.stop) := fun hmeet => h (ByteRange.intersects_iff.2 hmeet)
    have hp : p.start ≤ p.stop := Nat.le_add_right _ _
    have hr : r.start ≤ r.stop := Nat.le_add_right _ _
    simp only [Option.map_none, Option.getD_none]
    omega

theorem count_tiles {a b : Nat} {l : List Part} (h : Tiles a b l) (r : ByteRange) (s : PartState) :
    sumOf (((l.filter (·.2 = s)).filterMap (·.1.inter? r)).map (·.length)) =
      (((statesOf l).take (r.stop - a)).drop (r.start - a)).count s := by
  have hle : r.start ≤ r.stop := Nat.le_add_right _ _
  induction l generalizing a with
  | nil => simp [sumOf]
  | cons p rest ih =>
    obtain ⟨rfl, -, -, hrest⟩ := h
    have hstop : p.1.stop = p.1.start + p.1.length := rfl
    have hsplit : ((statesOf (p :: rest)).take (r.stop - p.1.start)).drop (r.start - p.1.start) =
        List.replicate (min p.1.stop r.stop - max p.1.start r.start) p.2 ++
          ((statesOf rest).take (r.stop - p.1.stop)).drop (r.start - p.1.stop) := by
      rw [statesOf_cons, List.take_append, List.drop_append, List.take_replicate, List.drop_replicate,
        List.length_replicate, List.length_replicate, Nat.sub_sub r.stop, ← hstop]
      congr 1
      · congr 1
        omega
      · by_cases hr : r.stop ≤ p.1.stop
        · rw [Nat.sub_eq_zero_of_le hr]; simp
        · congr 1
          omega
    rw [hsplit, List.count_append, List.count_replicate, ← ih hrest, ← length_inter?]
    by_cases hp : p.2 = s
    · cases hi : p.1.inter? r <;> simp [hp, hi, sumOf]
    · simp [hp]

theorem count_eq (m : PartMap) (r : ByteRange) (s : PartState) :
    m.count r s = ((m.states.take r.stop).drop r.start).count s := count_tiles m.tiles r s

theorem sumOf_filter (l : List Part) (s : PartState) :
    sumOf ((l.filter (·.2 = s)).map (·.1.length)) = (statesOf l).count s := by
  induction l with
  | nil => rfl
  | cons p l ih =>
    rw [statesOf_cons, List.count_append, List.count_replicate, ← ih]
    by_cases h : p.2 = s <;> simp [h, sumOf]

theorem countAll_eq (m : PartMap) (s : PartState) : m.countAll s = m.states.count s :=
  sumOf_filter _ _

theorem countAll_sum (m : PartMap) :
    m.countAll .needed + m.countAll .pending + m.countAll .available = m.length := by
  simp only [countAll_eq, ← length_states]
  generalize m.states = l
  induction l with
  | nil => rfl
  | cons s l ih =>
    simp only [List.count_cons, List.length_cons]
    cases s <;> simp <;> omega

theorem count_range (m : PartMap) (s : PartState) : m.count m.range s = m.countAll s := by
  rw [count_eq, countAll_eq, range, ByteRange.stop, Nat.zero_add, List.drop_zero, ← length_states,
    List.take_length]

/-- The number of bytes of a range in a state is the number of offsets where they are. -/
theorem count_eq_offsets (m : PartMap) (r : ByteRange) (s : PartState) :
    m.count r s = {o ∈ Finset.range m.length | o ∈ r ∧ m.state? o = some s}.card := by
  have hslice := count_slice m.states r.start r.stop s (Nat.le_refl _)
  rw [← List.take_take, List.take_length, length_states] at hslice
  rw [count_eq, hslice, Nat.count_eq_card_filter_range]
  rfl

theorem countAll_eq_offsets (m : PartMap) (s : PartState) :
    m.countAll s = {o ∈ Finset.range m.length | m.state? o = some s}.card := by
  rw [← count_range, count_eq_offsets]
  congr 1
  refine Finset.filter_congr fun o ho => and_iff_right ⟨Nat.zero_le o, ?_⟩
  rw [range, ByteRange.stop, Nat.zero_add]
  exact Finset.mem_range.1 ho

theorem countAll_eq_zero {m : PartMap} {s : PartState} (h : ∀ o, m.state? o ≠ some s) : m.countAll s = 0 := by
  rw [countAll_eq_offsets, Finset.card_eq_zero]
  exact Finset.filter_eq_empty_iff.2 fun o _ => h o

theorem countAll_of_isComplete {m : PartMap} (h : m.isComplete) : m.countAll .available = m.length := by
  rw [countAll_eq, states_eq_of_isComplete h, List.count_replicate_self]

/-- What the map had in a state is told by which bytes were in it. -/
theorem countAll_congr {m k : PartMap} (hlen : k.length = m.length) {s : PartState}
    (h : ∀ o, k.state? o = some s ↔ m.state? o = some s) : k.countAll s = m.countAll s := by
  rw [countAll_eq_offsets, countAll_eq_offsets, hlen, Finset.filter_congr fun o _ => h o]

/-- Giving one state to the bytes of a range takes those away that it had in the state `q`. -/
theorem countAll_set_add {m : PartMap} {r : ByteRange} (hr : r.stop ≤ m.length) (s q : PartState) :
    (m.set r s).countAll q + m.count r q = m.countAll q + if s = q then r.length else 0 := by
  have hstart : min r.start m.length = r.start := by unfold ByteRange.stop at hr; omega
  have hstop : min r.stop m.length = r.stop := Nat.min_eq_left hr
  have hsplit : m.states = m.states.take r.start ++ ((m.states.take r.stop).drop r.start ++ m.states.drop r.stop) := by
    have htake : m.states.take r.start = (m.states.take r.stop).take r.start := by
      rw [List.take_take, ByteRange.stop, Nat.min_eq_left (Nat.le_add_right _ _)]
    rw [htake, ← List.append_assoc, List.take_append_drop, List.take_append_drop]
  have hcount := congrArg (List.count q) hsplit
  rw [List.count_append, List.count_append] at hcount
  rw [countAll_eq, countAll_eq, count_eq, states_set, hstart, hstop, List.count_append, List.count_append,
    List.count_replicate, hcount]
  have hlen : r.stop - r.start = r.length := Nat.add_sub_cancel_left _ _
  by_cases hs : s = q
  · rw [if_pos hs, if_pos (by simpa using hs), hlen]
    omega
  · rw [if_neg hs, if_neg (by simpa using hs)]
    omega

theorem count_eq_zero {m : PartMap} {r : ByteRange} {s : PartState} (h : ∀ o ∈ r, m.state? o ≠ some s) :
    m.count r s = 0 := by
  rw [count_eq_offsets, Finset.card_eq_zero]
  exact Finset.filter_eq_empty_iff.2 fun o _ ho => h o ho.1 ho.2

/-- All bytes of a range are in a state if that many are. -/
theorem state?_of_count {m : PartMap} {r : ByteRange} {s : PartState} (h : m.count r s = r.length) {o : Nat}
    (ho : o ∈ r) : m.state? o = some s := by
  have hstop : r.stop = r.start + r.length := rfl
  rw [count_eq] at h
  have hle : ((m.states.take r.stop).drop r.start).length ≤ r.length := by
    rw [List.length_drop, List.length_take]
    omega
  have hcount := List.count_le_length (a := s) (l := (m.states.take r.stop).drop r.start)
  have hall : ∀ x ∈ (m.states.take r.stop).drop r.start, s = x := List.count_eq_length.1 (by omega)
  have hlt : o - r.start < ((m.states.take r.stop).drop r.start).length := by
    have := ho.1
    have := ho.2
    omega
  have hget := hall _ (List.getElem_mem hlt)
  simp only [List.getElem_drop, List.getElem_take, Nat.add_sub_cancel' ho.1] at hget
  exact List.getElem?_eq_some_iff.2 ⟨_, hget.symm⟩

/-- As many bytes of a range are in a state as it has, if all are. -/
theorem count_of_forall {m : PartMap} {r : ByteRange} {s : PartState} (hr : r.stop ≤ m.length)
    (h : ∀ o ∈ r, m.state? o = some s) : m.count r s = r.length := by
  have hstop : r.stop = r.start + r.length := rfl
  have hlen : ((m.states.take r.stop).drop r.start).length = r.length := by
    rw [List.length_drop, List.length_take, length_states]
    omega
  rw [count_eq, ← hlen, List.count_eq_length]
  intro x hx
  obtain ⟨i, hi⟩ := List.mem_iff_getElem?.1 hx
  rw [List.getElem?_drop, List.getElem?_take] at hi
  split at hi
  · next hlt => exact Option.some.inj ((h _ ⟨Nat.le_add_right _ _, hlt⟩).symm.trans hi)
  · exact nomatch hi

theorem countAll_set {m : PartMap} {r : ByteRange} {s q : PartState} (hr : r.stop ≤ m.length)
    (h : ∀ o ∈ r, m.state? o ≠ some q) :
    (m.set r s).countAll q = m.countAll q + if s = q then r.length else 0 := by
  rw [← countAll_set_add hr, count_eq_zero h, Nat.add_zero]

end PartMap

end FileSwarm
