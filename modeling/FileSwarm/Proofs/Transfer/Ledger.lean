import FileSwarm.Proofs.Peer.Remainders
import FileSwarm.Proofs.Transfer.Events
import FileSwarm.Proofs.Transfer.Requests

/-!
# Who owes what

A byte that was asked for is pending in the part map and stands in the list of one peer. The map and the
lists are changed apart from each other, by requests, by bytes that come from whomever, by peers that leave and
by results of jobs; they stay in step all the same.

* `state?_revert`, `state?_revertAll` : what was asked for and did not come is needed again;
* `owedAt_receive`, `owedAt_erase` : what is owed after bytes came, and after a peer left;
* `Booked t` : the invariant; `booked_move`, `booked_credited`, `booked_installed`, `booked_afresh` : it is kept;
* `owed_exactly_once` : what it says of the lists and the map, and of a peer that leaves.
-/

namespace FileSwarm

/-- No byte in common. -/
def ByteRange.Apart (p q : ByteRange) : Prop := ∀ o ∈ p, o ∉ q

/-! ## What is needed again -/

namespace Transfer

theorem state?_setAll (l : List ByteRange) (m : PartMap) (o : Nat) :
    (l.foldl (fun m r => m.set r .needed) m).state? o =
      if (∃ r ∈ l, o ∈ r) ∧ o < m.length then some .needed else m.state? o := by
  induction l generalizing m with
  | nil => simp
  | cons r l ih =>
    rw [List.foldl_cons, ih, PartMap.length_set, PartMap.state?_set]
    by_cases hl : ∃ q ∈ l, o ∈ q
    · by_cases ho : o < m.length <;> simp [hl, ho]
    · by_cases hr : o ∈ r <;> simp [hl, hr]

/-- The bytes of `r` that are pending are needed again, and no other byte changes. -/
theorem state?_revert (m : PartMap) (r : ByteRange) (o : Nat) :
    (revert m r).state? o = if m.state? o = some .pending ∧ o ∈ r then some .needed else m.state? o := by
  rw [revert, state?_setAll]
  refine if_congr ⟨?_, ?_⟩ rfl rfl
  · rintro ⟨⟨q, hq, ho⟩, -⟩
    obtain ⟨p, hp, hinter⟩ := List.mem_filterMap.1 hq
    obtain ⟨hpart, hstate⟩ := List.mem_filter.1 hp
    obtain ⟨hop, hor⟩ := (ByteRange.mem_inter? hinter).1 ho
    have hpending := (PartMap.mem_parts (r := p.1) hpart).2 o hop
    rw [decide_eq_true_iff.1 hstate] at hpending
    exact ⟨hpending, hor⟩
  · rintro ⟨hstate, hor⟩
    obtain ⟨p, hpart, hop⟩ := PartMap.exists_part hstate
    refine ⟨?_, PartMap.lt_length hstate⟩
    cases hinter : p.inter? r with
    | none => exact absurd hor (ByteRange.inter?_eq_none hinter hop)
    | some q =>
      have hq : q ∈ (m.parts.filter (·.2 = .pending)).filterMap fun p => p.1.inter? r :=
        List.mem_filterMap.2 ⟨(p, .pending), List.mem_filter.2 ⟨hpart, by simp⟩, hinter⟩
      exact ⟨q, hq, (ByteRange.mem_inter? hinter).2 ⟨hop, hor⟩⟩

theorem state?_revertAll (l : List ByteRange) (m : PartMap) (o : Nat) :
    (l.foldl revert m).state? o =
      if m.state? o = some .pending ∧ ∃ r ∈ l, o ∈ r then some .needed else m.state? o := by
  induction l generalizing m with
  | nil => simp
  | cons r l ih =>
    rw [List.foldl_cons, ih, state?_revert]
    by_cases hs : m.state? o = some .pending
    · by_cases hr : o ∈ r <;> simp [hs, hr]
    · simp [hs]

/-! ## What is owed -/

theorem owedAt_cons (s : Share) (l : List Share) (o : Nat) :
    owedAt (s :: l) o = s.pending.countP (o ∈ ·) + owedAt l o := rfl

theorem owedAt_append (k l : List Share) (o : Nat) : owedAt (k ++ l) o = owedAt k o + owedAt l o := by
  rw [owedAt, List.map_append, sumOf_append]
  rfl

theorem owedAt_map {f : Share → Share} (l : List Share) (o : Nat)
    (hf : ∀ s, (f s).pending.countP (o ∈ ·) = s.pending.countP (o ∈ ·)) : owedAt (l.map f) o = owedAt l o := by
  induction l with
  | nil => rfl
  | cons s l ih => rw [List.map_cons, owedAt_cons, owedAt_cons, hf, ih]

/-- Whoever owed bytes that came owes them no longer; all else is owed as before. -/
theorem owedAt_receive (l : List Share) (id : String) (r : ByteRange) (o : Nat) :
    owedAt (l.map fun s => if s.id == id then s.receive r else s) o ≤ owedAt l o ∧
      (o ∉ r → owedAt (l.map fun s => if s.id == id then s.receive r else s) o = owedAt l o) := by
  induction l with
  | nil => exact ⟨Nat.le_refl _, fun _ => rfl⟩
  | cons s l ih =>
    obtain ⟨hle, heq⟩ := ih
    have hs := s.countP_receive r o
    rw [List.map_cons, owedAt_cons, owedAt_cons]
    refine ⟨Nat.add_le_add ?_ hle, fun hr => ?_⟩
    · split
      · rw [hs]
        split
        · exact Nat.zero_le _
        · exact Nat.le_refl _
      · exact Nat.le_refl _
    · rw [heq hr]
      split
      · rw [hs, if_neg hr]
      · rfl

theorem owedAt_eq_countP (l : List Share) (o : Nat) : owedAt l o = (l.flatMap (·.pending)).countP (o ∈ ·) := by
  induction l with
  | nil => rfl
  | cons s l ih => rw [owedAt_cons, ih, List.flatMap_cons, List.countP_append]

/-- Ranges that share no byte with one another, told by counting. -/
theorem apart_of_countP {l : List ByteRange} (h : ∀ o, l.countP (o ∈ ·) ≤ 1) : l.Pairwise ByteRange.Apart := by
  induction l with
  | nil => exact .nil
  | cons p l ih =>
    refine .cons (fun q hq o hp ho => ?_)
      (ih fun o => Nat.le_trans (List.Sublist.countP_le (List.sublist_cons_self p l)) (h o))
    have hone := h o
    rw [List.countP_cons_of_pos (by simpa using hp)] at hone
    have hpos : 0 < l.countP (o ∈ ·) := List.countP_pos_iff.2 ⟨q, hq, by simpa using ho⟩
    omega

theorem owedAt_pos {l : List Share} {o : Nat} : 0 < owedAt l o ↔ ∃ s ∈ l, ∃ r ∈ s.pending, o ∈ r := by
  induction l with
  | nil => simp [owedAt, sumOf]
  | cons s l ih =>
    rw [owedAt_cons, Nat.add_pos_iff_pos_or_pos, ih, List.countP_pos_iff]
    simp

theorem owner_unique {l : List Share} {o : Nat} (h : owedAt l o ≤ 1) {i j : Nat} {s q : Share} (hi : l[i]? = some s)
    (hj : l[j]? = some q) (hs : 0 < s.pending.countP (o ∈ ·)) (hq : 0 < q.pending.countP (o ∈ ·)) : i = j := by
  have howes : ∀ {k : List Share} {n : Nat} {s : Share}, k[n]? = some s → 0 < s.pending.countP (o ∈ ·) →
      0 < owedAt k o := by
    intro k n s hn hs
    obtain ⟨r, hr, ho⟩ := List.countP_pos_iff.1 hs
    exact owedAt_pos.2 ⟨s, List.mem_of_getElem? hn, r, hr, by simpa using ho⟩
  induction l generalizing i j with
  | nil => exact nomatch hi
  | cons x l ih =>
    rw [owedAt_cons] at h
    cases i with
    | zero =>
      cases j with
      | zero => rfl
      | succ j =>
        obtain rfl := Option.some.inj hi
        have := howes (k := l) hj hq
        omega
    | succ i =>
      cases j with
      | zero =>
        obtain rfl := Option.some.inj hj
        have := howes (k := l) hi hs
        omega
      | succ j => rw [ih (Nat.le_trans (Nat.le_add_left _ _) h) hi hj]

theorem owedAt_erase {l : List Share} {id : String} {s : Share} (h : l.find? (·.id == id) = some s) (o : Nat) :
    s.pending.countP (o ∈ ·) + owedAt (l.eraseP (·.id == id)) o = owedAt l o := by
  induction l with
  | nil => exact nomatch h
  | cons q l ih =>
    rw [List.find?_cons] at h
    rw [List.eraseP_cons, owedAt_cons]
    cases hq : q.id == id with
    | true =>
      rw [hq] at h
      cases h
      rfl
    | false =>
      rw [hq] at h
      rw [cond_false, owedAt_cons, ← ih h]
      omega

theorem owedAt_takePending (l : List Share) (o : Nat) : owedAt (l.map Share.takePending) o = 0 := by
  induction l with
  | nil => rfl
  | cons s l ih =>
    rw [List.map_cons, owedAt_cons, ih]
    rfl

/-! ## The books -/

/-- The state of a byte, if the file has it and there is a part map. -/
def stateAt (t : Transfer) (o : Nat) : Option PartState := t.parts.bind (·.state? o)

/-- The lists and the map are in step: no empty range is owed and no byte twice, what is owed was not there
when it was asked for, and what is pending is owed. -/
structure Booked (t : Transfer) : Prop where
  pos : ∀ s ∈ t.shares, ∀ r ∈ s.pending, 0 < r.length
  once : ∀ o, owedAt t.shares o ≤ 1
  owed : ∀ o, 0 < owedAt t.shares o → t.stateAt o = some .pending ∨ t.stateAt o = some .available
  pending : ∀ o, t.stateAt o = some .pending → 0 < owedAt t.shares o

section Booked

variable {t u : Transfer}

/-- The books tell how often each byte is owed and nothing else of the lists. -/
theorem Booked.recount (h : t.Booked) (hpos : ∀ s ∈ u.shares, ∀ r ∈ s.pending, 0 < r.length)
    (howed : ∀ o, owedAt u.shares o = owedAt t.shares o) (hparts : u.parts = t.parts) : u.Booked := by
  have hstate : ∀ o, u.stateAt o = t.stateAt o := fun o => by rw [stateAt, stateAt, hparts]
  refine ⟨hpos, fun o => ?_, fun o => ?_, fun o => ?_⟩
  · rw [howed]
    exact h.once o
  · rw [howed, hstate]
    exact h.owed o
  · rw [howed, hstate]
    exact h.pending o

theorem Booked.congr (h : t.Booked) (hshares : u.shares = t.shares) (hparts : u.parts = t.parts) : u.Booked :=
  h.recount (hshares ▸ h.pos) (fun _ => by rw [hshares]) hparts

theorem Booked.unmapped (h : t.Booked) (hparts : t.parts = none) (o : Nat) : owedAt t.shares o = 0 := by
  have hnone : t.stateAt o = none := by rw [stateAt, hparts]; rfl
  by_contra hne
  rcases h.owed o (Nat.pos_of_ne_zero hne) with ho | ho <;> exact nomatch hnone.symm.trans ho

/-- Where nothing is owed any map without a pending byte is in step. -/
theorem booked_of_clean (hpos : ∀ s ∈ u.shares, ∀ r ∈ s.pending, 0 < r.length) (hnone : ∀ o, owedAt u.shares o = 0)
    (hclean : ∀ o, u.stateAt o ≠ some .pending) : u.Booked :=
  ⟨hpos, fun o => by rw [hnone]; exact Nat.zero_le 1, fun o ho => absurd ho (by rw [hnone]; exact Nat.lt_irrefl 0),
    fun o ho => absurd ho (hclean o)⟩

theorem stateAt_blank_ne (hparts : u.parts = some (PartMap.blank n)) (o : Nat) : u.stateAt o ≠ some .pending := by
  rw [stateAt, hparts]
  exact fun ho => nomatch PartMap.eq_needed_of_blank ho

theorem owedAt_owe {l : List Share} {i : Nat} {s : Share} (hs : l[i]? = some s) (r : ByteRange) (o : Nat) :
    owedAt (l.set i (s.owe r)) o = owedAt l o + if o ∈ r then 1 else 0 := by
  have hsum := sumOf_map_set hs (s.owe r) fun s => s.pending.countP (o ∈ ·)
  have howe : (s.owe r).pending.countP (o ∈ ·) = s.pending.countP (o ∈ ·) + if o ∈ r then 1 else 0 := by
    show (s.pending ++ [r]).countP _ = _
    rw [List.countP_append, List.countP_singleton]
    simp only [decide_eq_true_eq]
  unfold owedAt
  omega

theorem booked_assigns {m : PartMap} {r : ByteRange} {i : Nat} {s : Share} (h : t.Booked) (ha : Assigns t m r i s u) :
    u.Booked := by
  obtain ⟨hpos, hneeded⟩ := ha.needed
  obtain ⟨hm, -, hs, -, links, sent, rfl⟩ := ha
  have hstate : ∀ o, t.stateAt o = m.state? o := fun o => by rw [stateAt, hm]; rfl
  -- what is needed is owed by nobody
  have hfree : ∀ o ∈ r, owedAt t.shares o = 0 := by
    intro o ho
    by_contra hne
    have hst := (hstate o).trans (hneeded o ho)
    rcases h.owed o (Nat.pos_of_ne_zero hne) with hp | hp <;> exact nomatch hst.symm.trans hp
  have hset : ∀ o, (m.set r .pending).state? o = if o ∈ r then some .pending else t.stateAt o := by
    intro o
    rw [PartMap.state?_set, hstate]
    exact if_congr ⟨And.left, fun ho => ⟨ho, PartMap.lt_length (hneeded o ho)⟩⟩ rfl rfl
  refine ⟨fun q hq p hp => ?_, fun o => ?_, fun o ho => ?_, fun o ho => ?_⟩
  · rcases List.mem_or_eq_of_mem_set hq with hq | rfl
    · exact h.pos q hq p hp
    · rcases List.mem_append.1 hp with hp | hp
      · exact h.pos s (List.mem_of_getElem? hs) p hp
      · rwa [List.mem_singleton.1 hp]
  · show owedAt (t.shares.set i (s.owe r)) o ≤ 1
    rw [owedAt_owe hs]
    split
    · next hin => exact Nat.le_of_eq (by rw [hfree o hin])
    · exact h.once o
  · show (m.set r .pending).state? o = _ ∨ (m.set r .pending).state? o = _
    rw [hset]
    split
    · exact .inl rfl
    · next hin =>
      rw [show owedAt _ o = _ from owedAt_owe hs r o, if_neg hin] at ho
      exact h.owed o ho
  · show 0 < owedAt (t.shares.set i (s.owe r)) o
    change (m.set r .pending).state? o = some .pending at ho
    rw [hset] at ho
    rw [owedAt_owe hs]
    split
    · exact Nat.succ_pos _
    · next hin =>
      rw [if_neg hin] at ho
      exact h.pending o ho

theorem stateAt_detach (t : Transfer) (s : Share) (o : Nat) : (t.detach s).stateAt o =
    if t.stateAt o = some .pending ∧ ∃ r ∈ s.pending, o ∈ r then some .needed else t.stateAt o := by
  show (t.parts.map fun m => s.pending.foldl revert m).bind (·.state? o) = _
  cases hm : t.parts with
  | none => simp [stateAt, hm]
  | some m =>
    rw [stateAt, hm]
    exact state?_revertAll s.pending m o

theorem booked_detach {id : String} {s : Share} (h : t.Booked) (hs : t.share? id = some s) : (t.detach s).Booked := by
  have herase : ∀ o, s.pending.countP (o ∈ ·) + owedAt (t.detach s).shares o = owedAt t.shares o :=
    owedAt_erase (by rw [id_of_share? hs]; exact hs)
  have hhis : ∀ o, 0 < s.pending.countP (o ∈ ·) ↔ ∃ r ∈ s.pending, o ∈ r := fun o => by simp [List.countP_pos_iff]
  refine ⟨fun q hq => h.pos q (List.mem_of_mem_eraseP hq), fun o => ?_, fun o ho => ?_, fun o ho => ?_⟩
  · exact Nat.le_trans (Nat.le_trans (Nat.le_add_left _ _) (Nat.le_of_eq (herase o))) (h.once o)
  · -- what another peer owes is not what the one that left owed
    have hnot : ¬ ∃ r ∈ s.pending, o ∈ r := by
      rw [← hhis]
      have := herase o
      have := h.once o
      omega
    rw [stateAt_detach, if_neg fun hc => hnot hc.2]
    exact h.owed o (by have := herase o; omega)
  · rw [stateAt_detach] at ho
    split at ho
    · exact nomatch ho
    · next hc =>
      have hnot : ¬ 0 < s.pending.countP (o ∈ ·) := fun hs => hc ⟨ho, (hhis o).1 hs⟩
      have := herase o
      have := h.pending o ho
      omega

theorem booked_move (hm : Move t u) (h : t.Booked) : u.Booked := by
  cases hm with
  | say => exact h.congr rfl rfl
  | assign ha => exact booked_assigns h ha
  | @join s owes =>
    refine h.recount (fun q hq p hp => ?_) (fun o => ?_) rfl
    · rcases List.mem_append.1 hq with hq | hq
      · exact h.pos q hq p hp
      · rw [List.mem_singleton.1 hq, owes] at hp
        exact absurd hp List.not_mem_nil
    · rw [owedAt_append, owedAt_cons, owes]
      rfl
  | start id =>
    have hlist : ∀ s : Share, (if s.id == id then s.start else s).pending = s.pending := fun s => by split <;> rfl
    refine h.recount (fun q hq p hp => ?_) (fun o => owedAt_map t.shares o fun s => by rw [hlist]) rfl
    obtain ⟨s, hs, rfl⟩ := List.mem_map.1 hq
    exact h.pos s hs p (hlist s ▸ hp)
  | leave hs => exact booked_detach h hs
  | enter => exact h.congr (by simp) (by simp)
  | fetchAll _ unmapped =>
    refine booked_of_clean (by simpa using h.pos) (fun o => ?_) (stateAt_blank_ne (fetchAll_parts t))
    rw [(fetchAll_frame t).2.2.2.2.1]
    exact h.unmapped unmapped o
  | learn => exact h.congr rfl rfl
  | search => exact h.congr rfl rfl

theorem Talk.booked (ht : Talk t u) (h : t.Booked) : u.Booked := ht.keeps h booked_move

theorem booked_credited {m : PartMap} (h : t.Booked) (hm : t.parts = some m) (id : String) (r : ByteRange) :
    (t.credited id r m).Booked := by
  have howed := owedAt_receive t.shares id r
  have hstate : ∀ o, t.stateAt o = m.state? o := fun o => by rw [stateAt, hm]; rfl
  have hset : ∀ o, (t.credited id r m).stateAt o = if o ∈ r ∧ o < m.length then some .available else t.stateAt o :=
    fun o => (PartMap.state?_set m r .available o).trans (by rw [hstate])
  refine ⟨fun q hq p hp => ?_, fun o => ?_, fun o ho => ?_, fun o ho => ?_⟩
  · obtain ⟨s, hs, rfl⟩ := List.mem_map.1 hq
    split at hp
    · obtain ⟨p', hp', hrest⟩ := List.mem_flatMap.1 hp
      exact Share.pos_of_mem_remainder (h.pos s hs p' hp') hrest
    · exact h.pos s hs p hp
  · exact Nat.le_trans (howed o).1 (h.once o)
  · rw [hset]
    split
    · exact .inr rfl
    · exact h.owed o (Nat.lt_of_lt_of_le ho (howed o).1)
  · rw [hset] at ho
    split at ho
    · exact nomatch ho
    · next hc =>
      have hin : o ∉ r := fun hr => hc ⟨hr, PartMap.lt_length ((hstate o).symm.trans ho)⟩
      exact Nat.lt_of_lt_of_eq (h.pending o ho) ((howed o).2 hin).symm

theorem booked_installed {m : PartMap} (h : t.Booked) (hparts : t.parts = none)
    (hclean : ∀ o, m.state? o ≠ some .pending) : (t.installed m).Booked :=
  booked_of_clean h.pos (h.unmapped hparts) hclean

theorem booked_afresh (t : Transfer) : t.afresh.Booked := by
  refine booked_of_clean (fun q hq p hp => ?_) (owedAt_takePending t.shares) (stateAt_blank_ne rfl)
  obtain ⟨s, -, rfl⟩ := List.mem_map.1 hq
  exact absurd hp List.not_mem_nil

end Booked

end Transfer

namespace Course

variable {n : Nat} {c d : Course} {e : Event}

theorem Books.booked {v : Transfer} {l : List Task} (h : Books c e v l) (hb : c.transfer.Booked) : v.Booked := by
  cases h with
  | @chunk id offset bytes m d hparts =>
    exact Transfer.booked_credited (t := { c.transfer with disk := d }) (hb.congr rfl rfl) hparts id _
  | copied hunmapped hclean _ => exact Transfer.booked_installed hb hunmapped hclean

/-- No event brings the books out of step as long as the transfer goes on. -/
theorem Happens.booked (h : Happens n c e d) (hnext : d.transfer.phase.isFinal = false) (hb : c.transfer.Booked) :
    d.transfer.Booked := by
  have hsettle : ∀ {u : Transfer} {l : List Task}, u.Booked → (settle u l).transfer.Booked := fun h => h.congr rfl rfl
  have hphase : ∀ {u : Transfer} {p : Phase}, u.Booked → (u.setPhase p).Booked :=
    fun h => h.congr (by simp) (by simp)
  cases h with
  | same => exact hb
  | ended hover => exact nomatch hover.final.symm.trans hnext
  | talk htalk _ => exact hsettle (htalk.booked hb)
  | copying _ _ => exact hb.congr rfl rfl
  | edited _ => exact hb.congr rfl rfl
  | more hbooks htalk =>
    rcases htalk with htalk | htalk
    · exact hsettle (htalk.booked (hbooks.booked hb))
    · exact hsettle (htalk.booked (hphase (hbooks.booked hb)))
  | assembled hbooks _ _ _ =>
    have hv := hphase (p := .verifying) (hbooks.booked hb)
    exact hsettle (hv.congr rfl rfl)
  | hashed _ _ => exact hb.congr rfl rfl
  | retried _ htalk => exact hsettle (htalk.booked (hphase (Transfer.booked_afresh c.transfer)))
  | refused _ _ hbroken _ => exact absurd hnext (by rw [show (settle _ _).transfer.phase = _ from hbroken]; decide)

theorem booked_run {target : Target} {tuning : Tuning} {admission : Admission} {disk made : Disk} {t : Transfer}
    (hc : Transfer.create target tuning admission disk = (.ok t, made)) {events : List Event}
    (hfresh : ∀ e ∈ events, e.Fresh) (hopen : ((start t).run events).transfer.phase.isFinal = false) :
    ((start t).run events).transfer.Booked := by
  obtain ⟨n, hstart⟩ := ongoing_start hc
  have hblank := create_blank hc
  have hbooked : (start t).transfer.Booked := by
    refine Transfer.Booked.congr (t := t) ?_ rfl rfl
    have hnobody : ∀ s ∈ t.shares, s = default := by rw [hblank.shares]; exact nofun
    refine Transfer.booked_of_clean (fun s hs => ?_) (fun o => ?_) (fun o => ?_)
    · rw [hnobody s hs]
      exact nofun
    · rw [hblank.shares]
      rfl
    · cases hm : t.parts with
      | none => rw [Transfer.stateAt, hm]; exact nofun
      | some m => exact Transfer.stateAt_blank_ne (hm.trans (congrArg some (hblank.parts m hm))) o
  refine (open_induction (P := fun c => Ongoing n c ∧ c.transfer.Booked) ⟨hstart, hbooked⟩ ?_ hopen).2
  rintro before e hp ⟨hd, hb⟩ hnext
  have he : e.Fresh := hfresh e (hp.subset (by simp))
  exact ⟨hd.step he hnext, (hd.happens he).booked hnext hb⟩

/-- As long as a transfer goes on and there is a part map: no peer owes an empty range, no two ranges that are owed
share a byte, every pending byte stands in the list of one peer and only there, and what is owed is pending or came
meanwhile. So when a peer leaves, those bytes it owes that are pending are needed again, and no other byte changes its
state, before anything is asked of others. -/
theorem owed_exactly_once {target : Target} {tuning : Tuning} {admission : Admission} {disk made : Disk}
    {t u : Transfer} (hc : Transfer.create target tuning admission disk = (.ok t, made)) {events : List Event}
    (hfresh : ∀ e ∈ events, e.Fresh) (hu : ((start t).run events).transfer = u) (hopen : u.phase.isFinal = false)
    {m : PartMap} (hm : u.parts = some m) :
    (∀ s ∈ u.shares, ∀ r ∈ s.pending, 0 < r.length) ∧
    (u.shares.flatMap (·.pending)).Pairwise ByteRange.Apart ∧
    (∀ o, m.state? o = some .pending → ∃! i : Nat, ∃ s, u.shares[i]? = some s ∧ ∃ r ∈ s.pending, o ∈ r) ∧
    (∀ s ∈ u.shares, ∀ r ∈ s.pending, ∀ o ∈ r, m.state? o = some .pending ∨ m.state? o = some .available) ∧
    ∀ id s, u.share? id = some s → u.removePeer id = ((u.detach s).ensureSignature.sendRequests, none) ∧
      ∃ k, (u.detach s).parts = some k ∧ k.length = m.length ∧ ∀ o, k.state? o =
        if m.state? o = some .pending ∧ ∃ r ∈ s.pending, o ∈ r then some .needed else m.state? o := by
  subst hu
  have hb := booked_run hc hfresh hopen
  generalize ((start t).run events).transfer = u at hopen hm hb
  have hstate : ∀ o, u.stateAt o = m.state? o := fun o => by rw [Transfer.stateAt, hm]; rfl
  refine ⟨hb.pos, ?_, fun o ho => ?_, fun s hs r hr o ho => ?_, fun id s hs => ?_⟩
  · exact Transfer.apart_of_countP fun o => by rw [← Transfer.owedAt_eq_countP]; exact hb.once o
  · obtain ⟨s, hs, r, hr, hor⟩ := Transfer.owedAt_pos.1 (hb.pending o ((hstate o).trans ho))
    obtain ⟨i, hi⟩ := List.mem_iff_getElem?.1 hs
    refine ⟨i, ⟨s, hi, r, hr, hor⟩, ?_⟩
    rintro j ⟨q, hj, p, hp, hop⟩
    exact Transfer.owner_unique (hb.once o) hj hi (List.countP_pos_iff.2 ⟨p, hp, by simpa using hop⟩)
      (List.countP_pos_iff.2 ⟨r, hr, by simpa using hor⟩)
  · rw [← hstate]
    exact hb.owed o (Transfer.owedAt_pos.2 ⟨s, hs, r, hr, ho⟩)
  · refine ⟨Transfer.removePeer_eq hs hopen, s.pending.foldl Transfer.revert m, ?_, ?_, fun o => ?_⟩
    · rw [Transfer.detach, hm]
      rfl
    · exact (Transfer.sheds_revertAll s.pending m).length
    · exact Transfer.state?_revertAll s.pending m o

/-- A peer that was asked for four bytes has sent the second one. -/
def splitEvents : List Event :=
  [.join (.fresh "a" .full 0) fun _ => true, .ready "a", .chunk "a" 1 ⟨#[7]⟩]

def splitArrived : Transfer := ((start (plainTransfer 4 .standard .swarming)).run splitEvents).transfer

/-- The first byte and the last two are pending, and stand in the list of the peer. -/
def splitMap : PartMap := ((PartMap.blank 4).set ⟨0, 4⟩ .pending).set ⟨1, 1⟩ .available

theorem split_owed_exactly_once :
    splitArrived.shares.map (·.pending) = [[⟨0, 1⟩, ⟨2, 2⟩]] ∧
    (splitArrived.shares.flatMap (·.pending)).Pairwise ByteRange.Apart ∧
    (∀ o, splitMap.state? o = some .pending →
      ∃! i : Nat, ∃ s, splitArrived.shares[i]? = some s ∧ ∃ r ∈ s.pending, o ∈ r) ∧
    ∀ s, splitArrived.share? "a" = some s → ∃ k, (splitArrived.detach s).parts = some k ∧ ∀ o, k.state? o =
      if splitMap.state? o = some .pending ∧ ∃ r ∈ s.pending, o ∈ r then some .needed else splitMap.state? o := by
  have hfresh : ∀ e ∈ splitEvents, e.Fresh := by simp [splitEvents, Event.Fresh, Share.fresh]
  have hmap : splitArrived.parts = some splitMap := rfl
  obtain ⟨-, hapart, honce, -, hleave⟩ := owed_exactly_once (create_plain 4 .standard .swarming) hfresh rfl rfl hmap
  refine ⟨rfl, hapart, honce, fun s hs => ?_⟩
  obtain ⟨-, k, hk, -, hstate⟩ := hleave "a" s hs
  exact ⟨k, hk, hstate⟩

end Course

end FileSwarm
