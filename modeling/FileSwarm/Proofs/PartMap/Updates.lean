import Mathlib.Data.List.Induction
import FileSwarm.Proofs.PartMap.States

/-!
# Many updates of a part map

A map that was updated any number of times stands for a function on the offsets: the last update that
covered an offset decides.

* `lastState calls o` : the state that these updates leave at `o`; `lastState_append` adds one more;
* `set?_eq_ok` : on ranges with an end that is an offset, no update is a fault;
* `updates_refine` : the parts of an updated map tile the file and have the states of that function.
-/

namespace FileSwarm

namespace PartMap

/-- The state that some updates leave at an offset: that of the last one with a range that holds it. -/
def lastState (calls : List Part) (o : Nat) : PartState :=
  ((calls.reverse.find? (o ∈ ·.1)).map (·.2)).getD .needed

theorem lastState_append (calls : List Part) (c : Part) (o : Nat) :
    lastState (calls ++ [c]) o = if o ∈ c.1 then c.2 else lastState calls o := by
  rw [lastState, List.reverse_append]
  by_cases h : o ∈ c.1 <;> simp [h, lastState]

/-- One update after the other, up to the first fault. -/
def updates (m : PartMap) (calls : List Part) : Except Fault PartMap :=
  calls.foldlM (fun m c => m.set? c.1 c.2) m

theorem updates_append (m : PartMap) (calls : List Part) (c : Part) :
    m.updates (calls ++ [c]) = (m.updates calls).bind fun k => k.set? c.1 c.2 := by
  rw [updates, List.foldlM_append, updates]
  exact bind_congr fun k => bind_pure _

theorem set_of_le {m : PartMap} {r : ByteRange} (h : m.length ≤ r.start) (s : PartState) : m.set r s = m := by
  have hupdated : m.updated r s = m.parts := by
    rw [updated, inter?_range, if_neg fun hmeet => Nat.not_lt.2 h hmeet.1]
  cases m
  simpa only [set, mk.injEq, true_and] using hupdated

theorem set?_eq_ok {m : PartMap} {r : ByteRange} (h : r.Fits) (s : PartState) : m.set? r s = .ok (m.set r s) := by
  unfold set?
  split
  · rw [ByteRange.stop?_eq_ok h]
    rfl
  · next hlt => rw [set_of_le (Nat.le_of_not_lt hlt)]

/-- What the map is after some updates, byte by byte. -/
theorem updates_state? (length : Nat) {calls : List Part} (h : ∀ c ∈ calls, c.1.Fits) :
    ∃ m, (blank length).updates calls = .ok m ∧ m.length = length ∧
      ∀ o, m.state? o = if o < length then some (lastState calls o) else none := by
  induction calls using List.reverseRecOn with
  | nil => exact ⟨blank length, rfl, rfl, state?_blank length⟩
  | append_singleton calls c ih =>
    obtain ⟨m, hm, hlength, hstate⟩ := ih fun x hx => h x (List.mem_append_left _ hx)
    have hfits : c.1.Fits := h c (List.mem_append_right _ List.mem_cons_self)
    refine ⟨m.set c.1 c.2, ?_, hlength, fun o => ?_⟩
    · rw [updates_append, hm]
      exact set?_eq_ok hfits c.2
    · rw [state?_set, hstate, hlength, lastState_append]
      by_cases ho : o < length <;> by_cases hc : o ∈ c.1 <;> simp [ho, hc]

/-- The parts of an updated map tile the file. The state of each byte is that of the last update with a
range that holds it, or needed if there is none; bytes past the end of the file are ignored. -/
theorem updates_refine (length : Nat) (calls : List Part) (h : ∀ c ∈ calls, c.1.Fits) :
    ∃ m, (blank length).updates calls = .ok m ∧ Tiles 0 length m.parts ∧
      (∀ o < length, ∃ p ∈ m.parts, o ∈ p.1 ∧ p.2 = lastState calls o) ∧
      (∀ p ∈ m.parts, ∀ o ∈ p.1, o < length ∧ p.2 = lastState calls o) ∧
      ∀ o, m.state? o = if o < length then some (lastState calls o) else none := by
  obtain ⟨m, hm, hlength, hstate⟩ := updates_state? length h
  have hmem : ∀ p ∈ m.parts, ∀ o ∈ p.1, o < length ∧ p.2 = lastState calls o := by
    intro p hp o ho
    have hp := (mem_parts hp).2 o ho
    have hlt : o < length := hlength ▸ lt_length hp
    rw [hstate, if_pos hlt] at hp
    exact ⟨hlt, (Option.some.inj hp).symm⟩
  refine ⟨m, hm, hlength ▸ m.tiles, fun o ho => ?_, hmem, hstate⟩
  obtain ⟨p, hp, hin⟩ := m.tiles.exists_part (Nat.zero_le o) (hlength ▸ ho)
  exact ⟨p, hp, hin, (hmem p hp o hin).2⟩

/-- An update over the end, an empty one inside a part, and one across two parts. -/
theorem updates_refine_three :
    (∀ c ∈ [(⟨2, 4⟩, .pending), (⟨4, 0⟩, .available), (⟨5, 20⟩, .available)], (c : Part).1.Fits) ∧
      ∃ m, (blank 10).updates [(⟨2, 4⟩, .pending), (⟨4, 0⟩, .available), (⟨5, 20⟩, .available)] = .ok m ∧
        Tiles 0 10 m.parts ∧ m.state? 4 = some .pending ∧ m.state? 5 = some .available := by
  have hfits : ∀ c ∈ [(⟨2, 4⟩, .pending), (⟨4, 0⟩, .available), (⟨5, 20⟩, .available)], (c : Part).1.Fits := by
    decide
  obtain ⟨m, hm, htiles, -, -, hstate⟩ := updates_refine 10 _ hfits
  exact ⟨hfits, m, hm, htiles, hstate 4, hstate 5⟩

end PartMap

end FileSwarm
