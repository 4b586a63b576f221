import Mathlib.Data.List.Basic
import Mathlib.Tactic.SplitIfs
import FileSwarm.Peer.Share
import FileSwarm.Proofs.ByteRange

/-!
# What is left of the ranges a peer was asked for

Bytes that arrive are cut out of every range they meet: one of its ends stays, or both, or nothing.

* `remainder_cases`, `remainder_inside`, `pos_of_mem_remainder` : what is left of one range;
* `countP_remainder`, `countP_receive` : which bytes are owed then, and how often.
-/

namespace FileSwarm

namespace Share

/-- What is left of a range are one or both of its ends. -/
theorem remainder_cases (p r : ByteRange) : remainder p r = [p] ∨ ∃ a b, p.start ≤ a ∧ a ≤ b ∧ b ≤ p.stop ∧
    (p.start < a → a = r.start) ∧ (b < p.stop → b = r.stop) ∧
      remainder p r = [ByteRange.ofBounds p.start a, ByteRange.ofBounds b p.stop].filter (!·.isEmpty) := by
  unfold remainder ByteRange.inter?
  by_cases hmeet : p.intersects r
  · obtain ⟨hpr, hrp⟩ := ByteRange.intersects_iff.1 hmeet
    have hp : p.start ≤ p.stop := Nat.le_add_right _ _
    have hr : r.start ≤ r.stop := Nat.le_add_right _ _
    rw [if_pos hmeet]
    have hle : max p.start r.start ≤ min p.stop r.stop := by omega
    refine .inr ⟨max p.start r.start, min p.stop r.stop, by omega, hle, by omega, by omega, by omega, ?_⟩
    dsimp only
    rw [ByteRange.stop_ofBounds hle]
    rfl
  · rw [if_neg hmeet]
    exact .inl rfl

theorem remainder_inside {p q r : ByteRange} (hq : q ∈ remainder p r) : p.start ≤ q.start ∧ q.stop ≤ p.stop := by
  rcases remainder_cases p r with h | ⟨a, b, ha, hab, hb, -, -, h⟩
  · rw [h, List.mem_singleton] at hq
    exact hq ▸ ⟨Nat.le_refl _, Nat.le_refl _⟩
  · rw [h] at hq
    rcases List.mem_cons.1 (List.mem_of_mem_filter hq) with rfl | hq
    · rw [ByteRange.stop_ofBounds ha]
      exact ⟨Nat.le_refl _, Nat.le_trans hab hb⟩
    · obtain rfl := List.mem_singleton.1 hq
      rw [ByteRange.stop_ofBounds hb]
      exact ⟨Nat.le_trans ha hab, Nat.le_refl _⟩

theorem countP_nonempty (l : List ByteRange) (o : Nat) :
    (l.filter (!·.isEmpty)).countP (o ∈ ·) = l.countP (o ∈ ·) := by
  rw [List.countP_filter]
  refine List.countP_congr fun r _ => ?_
  simp only [Bool.and_eq_true, decide_eq_true_eq, ByteRange.isEmpty, Bool.not_eq_true', beq_eq_false_iff_ne]
  refine ⟨And.left, fun ho => ⟨ho, fun hr => ?_⟩⟩
  obtain ⟨hstart, hstop⟩ := ho
  rw [ByteRange.stop, hr] at hstop
  exact absurd hstop (Nat.not_lt.2 hstart)

theorem countP_remainder (p r : ByteRange) (o : Nat) :
    (remainder p r).countP (o ∈ ·) = if o ∈ p ∧ o ∉ r then 1 else 0 := by
  have hrest : o ∈ p ∧ o ∉ r ↔ (p.start ≤ o ∧ o < p.stop) ∧ ¬ (r.start ≤ o ∧ o < r.stop) := Iff.rfl
  unfold remainder
  by_cases hmeet : p.intersects r
  · obtain ⟨hpr, hrp⟩ := ByteRange.intersects_iff.1 hmeet
    have hp : p.start ≤ p.stop := Nat.le_add_right _ _
    have hr : r.start ≤ r.stop := Nat.le_add_right _ _
    have hstop := ByteRange.stop_ofBounds (show max p.start r.start ≤ min p.stop r.stop by omega)
    have hbefore : o ∈ ByteRange.ofBounds p.start (max p.start r.start) ↔ p.start ≤ o ∧ o < max p.start r.start :=
      ByteRange.mem_ofBounds (Nat.le_max_left _ _)
    have hbehind : o ∈ ByteRange.ofBounds (min p.stop r.stop) p.stop ↔ min p.stop r.stop ≤ o ∧ o < p.stop :=
      ByteRange.mem_ofBounds (Nat.min_le_left _ _)
    rw [ByteRange.inter?, if_pos hmeet]
    dsimp only
    rw [countP_nonempty, hstop, List.countP_cons, List.countP_singleton]
    simp only [decide_eq_true_eq]
    rw [if_congr hbehind rfl rfl, if_congr hrest rfl rfl]
    refine (congrArg _ (if_congr hbefore rfl rfl)).trans ?_
    split_ifs <;> omega
  · rw [ByteRange.inter?, if_neg hmeet]
    dsimp only
    rw [List.countP_singleton]
    refine if_congr ?_ rfl rfl
    rw [decide_eq_true_iff]
    exact ⟨fun hp => ⟨hp, ByteRange.inter?_eq_none (by rw [ByteRange.inter?, if_neg hmeet]) hp⟩, And.left⟩

theorem pos_of_mem_remainder {p r q : ByteRange} (hp : 0 < p.length) (hq : q ∈ remainder p r) : 0 < q.length := by
  unfold remainder at hq
  split at hq
  · rwa [List.mem_singleton.1 hq]
  · obtain ⟨-, hne⟩ := List.mem_filter.1 hq
    exact Nat.pos_of_ne_zero (by simpa [ByteRange.isEmpty] using hne)

theorem countP_receive (s : Share) (r : ByteRange) (o : Nat) :
    (s.receive r).pending.countP (o ∈ ·) = if o ∈ r then 0 else s.pending.countP (o ∈ ·) := by
  show (s.pending.flatMap (remainder · r)).countP _ = _
  induction s.pending with
  | nil => simp
  | cons p l ih =>
    rw [List.flatMap_cons, List.countP_append, ih, countP_remainder, List.countP_cons]
    by_cases hr : o ∈ r <;> by_cases hp : o ∈ p <;> simp [hr, hp, Nat.add_comm]

end Share

end FileSwarm
