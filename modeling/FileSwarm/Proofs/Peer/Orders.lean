import FileSwarm.Peer.Selection
import Mathlib.Data.Int.CardIntervalMod
import Mathlib.Data.List.Nodup

/-!
# In which order peers are asked

Whatever the selection, everybody is in the order once. Who stands in front decides how work is shared out where
nobody turns it down.

* `order_perm` : nobody is left out, and nobody is asked twice;
* `Before loads i j`, `order_leastLoaded` : fewer open requests first, and of two that have as many the one that joined
  first;
* `head_roundRobin`, `head_leastLoaded` : who is asked first;
* `rotation ls c m` : `m` turns in a circle, starting at place `c`; `count_rotation` : how many turns each has.
-/

namespace FileSwarm

namespace Selection

variable {loads : List Nat} {cursor i : Nat}

/-- Every peer has its place in the order, and only one. -/
theorem order_perm (s : Selection) (loads : List Nat) (cursor : Nat) :
    (s.order loads cursor).Perm (List.range loads.length) := by
  cases s with
  | firstEligible => exact .refl _
  | roundRobin =>
    refine List.perm_append_comm.trans ?_
    rw [List.take_append_drop]
  | leastLoaded => exact List.mergeSort_perm _ _

theorem order_nodup (s : Selection) (loads : List Nat) (cursor : Nat) : (s.order loads cursor).Nodup :=
  (order_perm s loads cursor).nodup_iff.2 List.nodup_range

theorem mem_order_iff (s : Selection) : i ∈ s.order loads cursor ↔ i < loads.length :=
  (order_perm s loads cursor).mem_iff.trans List.mem_range

/-- Fewer open requests, or as many and an earlier place. -/
def Before (loads : List Nat) (i j : Nat) : Prop :=
  loads.getD i 0 < loads.getD j 0 ∨ loads.getD i 0 = loads.getD j 0 ∧ i < j

theorem pair_sublist_range {i j n : Nat} (hij : i < j) (hj : j < n) : [i, j].Sublist (List.range n) := by
  have hpair : ([i] ++ [j]).Sublist (List.range j ++ [j]) :=
    (List.singleton_sublist.2 (List.mem_range.2 hij)).append (List.Sublist.refl _)
  rw [← List.range_succ] at hpair
  exact hpair.trans (List.range_sublist.2 hj)

/-- Peers with the fewest open requests come first, and of those with as many the one that joined first. -/
theorem order_leastLoaded (loads : List Nat) (cursor : Nat) :
    (leastLoaded.order loads cursor).Pairwise (Before loads) := by
  have htrans : ∀ i j k, decide (loads.getD i 0 ≤ loads.getD j 0) → decide (loads.getD j 0 ≤ loads.getD k 0) →
      decide (loads.getD i 0 ≤ loads.getD k 0) := by
    simp only [decide_eq_true_eq]
    intro i j k
    exact Nat.le_trans
  have htotal : ∀ i j, decide (loads.getD i 0 ≤ loads.getD j 0) || decide (loads.getD j 0 ≤ loads.getD i 0) := by
    simp only [Bool.or_eq_true, decide_eq_true_eq]
    intro i j
    exact Nat.le_total _ _
  have hsorted : (leastLoaded.order loads cursor).Pairwise _ := List.pairwise_mergeSort htrans htotal _
  have hnodup := order_nodup leastLoaded loads cursor
  have hplaces : (leastLoaded.order loads cursor).Pairwise fun i j =>
      (leastLoaded.order loads cursor).idxOf i < (leastLoaded.order loads cursor).idxOf j := by
    rw [List.pairwise_iff_getElem]
    intro a b ha hb hab
    rwa [hnodup.idxOf_getElem, hnodup.idxOf_getElem]
  rw [List.pairwise_iff_forall_sublist] at hsorted hplaces ⊢
  intro i j hij
  rcases Nat.lt_or_eq_of_le (of_decide_eq_true (hsorted hij)) with hlt | heq
  · exact .inl hlt
  refine .inr ⟨heq, ?_⟩
  by_contra hge
  -- sorting is stable: were they the other way round in the list, they would still be
  have hne : i ≠ j := by
    have hpair := hnodup.sublist hij
    simpa using hpair
  have hi : i < loads.length := (mem_order_iff leastLoaded).1 (hij.subset (by simp))
  have hji : [j, i].Sublist (leastLoaded.order loads cursor) :=
    List.pair_sublist_mergeSort htrans htotal (decide_eq_true (Nat.le_of_eq heq.symm))
      (pair_sublist_range (by omega) hi)
  exact absurd (hplaces hij) (Nat.lt_asymm (hplaces hji))

/-! ## Who is asked first -/

theorem head_roundRobin (h : loads ≠ []) (cursor : Nat) :
    (roundRobin.order loads cursor).head? = some (cursor % loads.length) := by
  have hlt : cursor % loads.length < loads.length := Nat.mod_lt _ (List.length_pos_iff.2 h)
  show ((List.range loads.length).drop (cursor % loads.length) ++ _).head? = _
  rw [List.head?_append, List.head?_drop, List.getElem?_range hlt]
  rfl

/-- The one that is asked first has the fewest open requests. -/
theorem head_leastLoaded (h : (leastLoaded.order loads cursor).head? = some i) {j : Nat} (hj : j < loads.length) :
    loads.getD i 0 ≤ loads.getD j 0 := by
  obtain ⟨rest, hrest⟩ := List.head?_eq_some_iff.1 h
  have hsorted := order_leastLoaded loads cursor
  rw [hrest, List.pairwise_cons] at hsorted
  have hin : j ∈ leastLoaded.order loads cursor := (mem_order_iff _).2 hj
  rw [hrest, List.mem_cons] at hin
  rcases hin with rfl | hin
  · exact Nat.le_refl _
  · rcases hsorted.1 j hin with hlt | ⟨heq, -⟩
    · exact Nat.le_of_lt hlt
    · exact Nat.le_of_eq heq

end Selection

/-! ## Turns in a circle -/

section Rotation

variable {α : Type} {ls : List α} {c m i : Nat}

/-- `m` turns in a circle, the first one at place `c`. -/
def rotation (ls : List α) (c m : Nat) : List α := (List.range m).filterMap fun k => ls[(c + k) % ls.length]?

@[simp] theorem rotation_zero (ls : List α) (c : Nat) : rotation ls c 0 = [] := rfl

theorem rotation_succ {a : α} (h : ls[(c + m) % ls.length]? = some a) :
    rotation ls c (m + 1) = rotation ls c m ++ [a] := by
  have hlast : [m].filterMap (fun k => ls[(c + k) % ls.length]?) = [a] := List.filterMap_cons_some h
  rw [rotation, List.range_succ, List.filterMap_append, hlast, rotation]

theorem mem_of_mem_rotation {a : α} (h : a ∈ rotation ls c m) : a ∈ ls := by
  obtain ⟨k, -, hk⟩ := List.mem_filterMap.1 h
  exact List.mem_of_getElem? hk

theorem length_rotation (h : ls ≠ []) (c m : Nat) : (rotation ls c m).length = m := by
  induction m with
  | zero => rfl
  | succ m ih =>
    have hlt : (c + m) % ls.length < ls.length := Nat.mod_lt _ (List.length_pos_iff.2 h)
    rw [rotation_succ (List.getElem?_eq_getElem hlt), List.length_append, ih, List.length_singleton]

/-- The turns of the one at place `i` are those whose number falls on that place. -/
theorem count_rotation_eq [DecidableEq α] (hnodup : ls.Nodup) (hi : i < ls.length) (c m : Nat) :
    (rotation ls c m).count ls[i] = Nat.count (fun k => (c + k) % ls.length = i) m := by
  induction m with
  | zero => rfl
  | succ m ih =>
    have hlt : (c + m) % ls.length < ls.length := Nat.mod_lt _ (Nat.zero_lt_of_lt hi)
    rw [rotation_succ (List.getElem?_eq_getElem hlt), List.count_append, ih, Nat.count_succ, List.count_singleton]
    simp only [beq_iff_eq, hnodup.getElem_inj_iff]

/-- In a circle without repetitions everybody has as many turns as anybody else, or one more: the quotient, rounded
down or up. -/
theorem count_rotation [DecidableEq α] {a : α} (hnodup : ls.Nodup) (ha : a ∈ ls) (c m : Nat) :
    (rotation ls c m).count a = m / ls.length ∨ (rotation ls c m).count a = (m + ls.length - 1) / ls.length := by
  obtain ⟨i, hi, rfl⟩ := List.mem_iff_getElem.1 ha
  have hpos : 0 < ls.length := Nat.zero_lt_of_lt hi
  -- the first turn of the one at place `i`, counted from the start of the circle
  obtain ⟨first, hfirst⟩ : ∃ first, (c + first) % ls.length = i := by
    refine ⟨i + (ls.length - c % ls.length), ?_⟩
    have hc := Nat.mod_add_div c ls.length
    have hlt := Nat.mod_lt c hpos
    have hsum : c + (i + (ls.length - c % ls.length)) = i + ls.length * (c / ls.length + 1) := by
      rw [Nat.mul_succ]
      omega
    rw [hsum, Nat.add_mul_mod_self_left, Nat.mod_eq_of_lt hi]
  have hiff : ∀ k, (c + k) % ls.length = i ↔ k ≡ first [MOD ls.length] := by
    intro k
    rw [← hfirst]
    exact ⟨Nat.ModEq.add_left_cancel' c, Nat.ModEq.add_left c⟩
  rw [count_rotation_eq hnodup hi]
  simp only [hiff]
  rw [Nat.count_modEq_card m hpos]
  split
  · next h =>
    refine .inr (Nat.div_eq_of_lt_le ?_ ?_).symm <;>
    · have hm := Nat.div_add_mod' m ls.length
      have hlt := Nat.mod_lt m hpos
      simp only [Nat.add_mul, Nat.one_mul]
      omega
  · exact .inl rfl

end Rotation

end FileSwarm
