import Mathlib.Data.List.Nodup
import FileSwarm.Proofs.Delta.Copying
import FileSwarm.Proofs.Transfer.Requests

/-!
# What an answer does to the books

The first call in a peer's queue says what the peer is about to answer. The answer takes it out of the
queue, and the peer's share changes to match.

* `Awaits.file`, `Awaits.range`, `Awaits.signature` : what the first call in a queue says of the share;
* `Peers.attach`, `Peers.connect` : one more peer, or one that is turned down; `Peers.answer` : an answer;
  `Peers.awaits` : what a peer is to answer, when all calls are delivered;
* `Fetching.owes` : what a peer owes is pending, and nobody else owes it; `Fetching.credit` : it arrived;
* `Fetching.complete_of_quiet` : nobody owes anything and nothing can be asked for: all is there.
-/

namespace FileSwarm

theorem le_sumOf {n : Nat} {l : List Nat} (h : n ∈ l) : n ≤ sumOf l := by
  induction l with
  | nil => exact absurd h List.not_mem_nil
  | cons k l ih =>
    rw [sumOf_cons]
    rcases List.mem_cons.1 h with rfl | h
    · exact Nat.le_add_right _ _
    · exact Nat.le_trans (ih h) (Nat.le_add_left _ _)

namespace Transfer

section Awaits

variable {owing : Option String} {s : Share} {rest : List Call}

theorem Awaits.file {offset : Nat} (h : Awaits owing s (.file offset :: rest)) :
    s.started = false ∧ s.pending = [] ∧ rest = [] := by
  unfold Awaits at h
  split at h
  · split at h
    · exact nomatch (List.cons.inj h).1
    · cases hp : s.pending with
      | nil => rw [hp] at h; exact nomatch h
      | cons r l => rw [hp] at h; exact nomatch (List.cons.inj h).1
  · next hs =>
    obtain ⟨hpending, o, hrest⟩ := h
    exact ⟨Bool.not_eq_true _ ▸ hs, hpending, (List.cons.inj hrest).2⟩

theorem Awaits.range {r : ByteRange} {accepted : Bool} (h : Awaits owing s (.range r accepted :: rest)) :
    s.started ∧ owing ≠ some s.id ∧ ∃ l, s.pending = r :: l ∧ rest = l.map (Call.range · true) := by
  unfold Awaits at h
  split at h
  · next hs =>
    split at h
    · exact nomatch (List.cons.inj h).1
    · next hne =>
      cases hp : s.pending with
      | nil => rw [hp] at h; exact nomatch h
      | cons q l =>
        rw [hp] at h
        obtain ⟨hcall, hrest⟩ := List.cons.inj h
        obtain ⟨rfl, -⟩ := Call.range.inj hcall
        exact ⟨hs, hne, l, rfl, hrest⟩
  · obtain ⟨-, o, hrest⟩ := h
    exact nomatch (List.cons.inj hrest).1

theorem Awaits.signature (h : Awaits owing s (.signature :: rest)) :
    s.started ∧ owing = some s.id ∧ rest = s.pending.map (Call.range · true) := by
  unfold Awaits at h
  split at h
  · next hs =>
    split at h
    · next heq => exact ⟨hs, heq, (List.cons.inj h).2⟩
    · cases hp : s.pending with
      | nil => rw [hp] at h; exact nomatch h
      | cons q l => rw [hp] at h; exact nomatch (List.cons.inj h).1
  · obtain ⟨-, o, hrest⟩ := h
    exact nomatch (List.cons.inj hrest).1

theorem Awaits.not_abort : ¬ Awaits owing s (.abort :: rest) := by
  intro h
  unfold Awaits at h
  split at h
  · split at h
    · exact nomatch (List.cons.inj h).1
    · cases hp : s.pending with
      | nil => rw [hp] at h; exact nomatch h
      | cons q l => rw [hp] at h; exact nomatch (List.cons.inj h).1
  · obtain ⟨-, o, hrest⟩ := h
    exact nomatch (List.cons.inj hrest).1

theorem Awaits.nil (h : Awaits owing s []) : s.started ∧ owing ≠ some s.id ∧ s.pending = [] := by
  unfold Awaits at h
  split at h
  · next hs =>
    split at h
    · exact nomatch h
    · next hne => exact ⟨hs, hne, List.map_eq_nil_iff.1 h.symm⟩
  · obtain ⟨-, o, hrest⟩ := h
    exact nomatch hrest

end Awaits

theorem unread_size (t : Transfer) (k : Nat) : t.unread t.sent.size k = [] := by
  rw [unread, ← Array.length_toList, List.drop_length]
  rfl

theorem updateShare_eq {t : Transfer} (hids : (t.shares.map (·.id)).Nodup) {i : Nat} {s : Share}
    (hs : t.shares[i]? = some s) (f : Share → Share) :
    t.updateShare s.id f = { t with shares := t.shares.set i (f s) } := by
  have hshares : (t.shares.map fun q => if q.id == s.id then f q else q) = t.shares.set i (f s) := by
    apply List.ext_getElem?
    intro j
    rw [List.getElem?_map, List.getElem?_set]
    by_cases hij : i = j
    · subst hij
      rw [if_pos rfl, if_pos (List.getElem?_eq_some_iff.1 hs).1, hs]
      simp
    · rw [if_neg hij]
      cases hq : t.shares[j]? with
      | none => rfl
      | some q =>
        have hne : q.id ≠ s.id := by
          intro heq
          refine hij ((List.getElem?_inj (l := t.shares.map (·.id)) ?_ hids).1 ?_)
          · rw [List.length_map]
            exact (List.getElem?_eq_some_iff.1 hs).1
          · rw [List.getElem?_map, List.getElem?_map, hs, hq]
            exact congrArg some heq.symm
        simp [hne]
  rw [updateShare, hshares]

theorem isAttached_of_mem {t : Transfer} {s : Share} (h : s ∈ t.shares) : t.isAttached s.id :=
  List.any_eq_true.2 ⟨s, h, beq_self_eq_true s.id⟩

/-! ## Peers -/

section Peers

variable {t u : Transfer} {names : List String} {inbox : Nat → List Call} {i d : Nat} {s : Share} {rest : List Call}

theorem Peers.named_append (h : t.Peers d names inbox) (hs : s ∈ t.shares) (name : String) :
    (names ++ [name])[s.link]? = some s.id := by
  have hlt : s.link < names.length := h.size ▸ h.linked s hs
  rw [List.getElem?_append_left hlt]
  exact h.named s hs

theorem nodup_append_one {α : Type} {f : Share → α} {l : List Share} (h : (l.map f).Nodup)
    (hnew : ∀ q ∈ l, f q ≠ f s) : ((l ++ [s]).map f).Nodup := by
  rw [List.map_append, List.nodup_append]
  refine ⟨h, List.nodup_singleton _, ?_⟩
  rintro _ ha _ hb heq
  obtain ⟨q, hq, rfl⟩ := List.mem_map.1 ha
  obtain rfl := List.mem_singleton.1 hb
  exact hnew q hq heq

/-- A peer joins over a connection of its own, and is told where to start. -/
theorem Peers.attach (h : t.Peers d names inbox) (hlinks : ∃ l : Link, (∀ k, l.answers k) ∧ u.links = t.links.push l)
    (hsent : ∃ offset, u.sent = t.sent.push (t.links.size, .file offset)) (hshares : u.shares = t.shares ++ [s])
    (howing : u.owing = t.owing) (hnew : t.isAttached s.id = false) (hlink : s.link = t.links.size)
    (hable : s.caps = .full ∧ s.broken = false ∧ 1 ≤ s.budget) (hstart : s.started = false ∧ s.pending = []) :
    u.Peers d (names ++ [s.id]) inbox := by
  obtain ⟨l, hl, hlinks⟩ := hlinks
  obtain ⟨offset, hsent⟩ := hsent
  have hunread : ∀ k, u.unread d k = t.unread d k ++ if t.links.size = k then [.file offset] else [] :=
    unread_push h.delivered _ _ u hsent
  have hother : ∀ q ∈ t.shares, q.link ≠ t.links.size := fun q hq heq => by
    have := h.linked q hq
    omega
  have hempty : inbox t.links.size ++ t.unread d t.links.size = [] := h.silent _ hother
  -- a share is one of those before, or the new one
  have hcases : ∀ q ∈ u.shares, q ∈ t.shares ∨ q = s := by
    intro q hq
    rw [hshares] at hq
    exact (List.mem_append.1 hq).imp_right List.mem_singleton.1
  refine ⟨?_, h.accepting.push hl hlinks, ?_, ?_, ?_, ?_, ?_, ?_, ?_⟩
  · rw [hsent, Array.size_push]
    exact Nat.le_succ_of_le h.delivered
  · rw [List.length_append, h.size, hlinks, Array.size_push]
    rfl
  · intro q hq
    rcases hcases q hq with hq | rfl
    · exact h.named_append hq _
    · rw [hlink, ← h.size, List.getElem?_append_right (Nat.le_refl _), Nat.sub_self]
      rfl
  · rw [hshares]
    apply nodup_append_one h.ids
    intro q hq heq
    have := isAttached_of_mem hq
    rw [heq, hnew] at this
    exact nomatch this
  · rw [hshares]
    exact nodup_append_one h.links fun q hq heq => hother q hq (heq.trans hlink)
  · intro q hq
    rcases hcases q hq with hq | rfl
    · exact h.able q hq
    · exact hable
  · intro q hq
    rw [howing, hunread]
    rcases hcases q hq with hq | rfl
    · rw [if_neg (Ne.symm (hother q hq)), List.append_nil]
      exact h.queue q hq
    · rw [hlink, if_pos rfl, ← List.append_assoc, hempty]
      unfold Awaits
      rw [if_neg (by simp [hstart.1])]
      exact ⟨hstart.2, offset, rfl⟩
  · intro link hnobody
    rw [hshares] at hnobody
    have hne : t.links.size ≠ link := by
      rw [← hlink]
      exact hnobody s (List.mem_append_right _ (List.mem_singleton_self s))
    rw [hunread, if_neg hne, List.append_nil]
    exact h.silent link fun q hq => hnobody q (List.mem_append_left _ hq)

/-- A peer that is turned down has a connection, over which nothing is said. -/
theorem Peers.connect (h : t.Peers d names inbox) {l : Link} (hl : ∀ k, l.answers k) (name : String) :
    Peers { t with links := t.links.push l } d (names ++ [name]) inbox := by
  refine ⟨h.delivered, h.accepting.push hl rfl, ?_, fun q hq => h.named_append hq name, h.ids, h.links, h.able,
    h.queue, h.silent⟩
  rw [List.length_append, h.size, Array.size_push]
  rfl

theorem Peers.answer (h : t.Peers t.sent.size names inbox) (hs : t.shares[i]? = some s) {v : Share}
    (hshares : u.shares = t.shares.set i v) (hid : v.id = s.id) (hlink : v.link = s.link)
    (hable : v.caps = s.caps ∧ v.broken = s.broken ∧ v.budget = s.budget) (hsent : u.sent = t.sent)
    (hlinks : u.links = t.links)
    (howing : ∀ q ∈ t.shares, q.link ≠ s.link → (u.owing = some q.id ↔ t.owing = some q.id))
    (hqueue : Awaits u.owing v rest) : u.Peers t.sent.size names (Function.update inbox s.link rest) := by
  have hunread : ∀ k, u.unread t.sent.size k = [] := fun k => (unread_congr hsent _ k).trans (unread_size t k)
  refine h.change hs hshares hid hlink hable ?_ ?_ ?_ (fun k hk => ?_) howing ?_
  · exact Nat.le_of_eq (congrArg Array.size hsent.symm)
  · rw [Accepting, hlinks]
    exact h.accepting
  · rw [hlinks]
  · rw [Function.update_of_ne hk, hunread, unread_size]
  · rw [Function.update_self, hunread, List.append_nil]
    exact hqueue

/-- When all calls are delivered, what a peer is to answer is in its inbox. -/
theorem Peers.awaits (h : t.Peers t.sent.size names inbox) (hs : t.shares[i]? = some s) :
    Awaits t.owing s (inbox s.link) := by
  have hqueue := h.queue s (List.mem_of_getElem? hs)
  rwa [unread_size, List.append_nil] at hqueue

theorem Peers.not_abort (h : t.Peers t.sent.size names inbox) (hs : t.shares[i]? = some s) :
    inbox s.link ≠ .abort :: rest :=
  fun hinbox => Awaits.not_abort (hinbox ▸ h.awaits hs)

end Peers

/-! ## Bytes that arrive -/

theorem chunk_got {t u : Transfer} {n k : Nat} (h : u.metrics = t.metrics.chunk n) (hk : t.got = k)
    (hlim : k + n ≤ Disk.sizeLimit) : u.got = k + n := by
  unfold got at hk ⊢
  rw [h]
  show (t.metrics.bytesReceived + n.toUInt64).toNat + t.metrics.bytesReused.toNat = k + n
  have hsize : k + n < 18446744073709551616 := Nat.lt_of_le_of_lt hlim (by decide)
  have hn : n.toUInt64.toNat = n := by
    refine UInt64.toNat_ofNat_of_lt ?_
    show n < 18446744073709551616
    omega
  rw [UInt64.toNat_add, hn, Nat.mod_eq_of_lt (by omega)]
  omega

theorem countAll_le (m : PartMap) (s : PartState) : m.countAll s ≤ m.length := by
  have := m.countAll_sum
  cases s <;> omega

section Fetching

variable {D : ByteArray} {n i : Nat} {t u : Transfer} {m : PartMap} {r : ByteRange} {s : Share} {l : List ByteRange}

/-- Bytes of `D` arrived that were not there, and are owed by nobody any more. -/
theorem Fetching.credit (h : t.Fetching D n m) (hr : r.stop ≤ D.size) (hlim : D.size ≤ Disk.sizeLimit)
    (hnew : ∀ o ∈ r, m.state? o ≠ some .available)
    (hbytes : ∀ o < D.size, o ∈ r ∨ Bytes.byte? (t.disk.content n) o = Bytes.byte? D o →
      Bytes.byte? (u.disk.content n) o = Bytes.byte? D o)
    (hparts : u.parts = some (m.set r .available)) (hmetrics : u.metrics = t.metrics.chunk r.length)
    (howed : ∀ o, owedAt u.shares o = if o ∈ r then 0 else owedAt t.shares o)
    (hpos : ∀ s ∈ u.shares, ∀ p ∈ s.pending, 0 < p.length) : u.Fetching D n (m.set r .available) := by
  have hcount : (m.set r .available).countAll .available = m.countAll .available + r.length := by
    rw [PartMap.countAll_set (h.length_eq.symm ▸ hr) hnew, if_pos rfl]
  refine ⟨hparts, (PartMap.length_set _ _ _).trans h.length_eq, fun o ho => ?_,
    fun o => ?_, hpos, ?_⟩
  · have hlt : o < D.size := h.length_eq ▸ PartMap.length_set m r .available ▸ PartMap.lt_length ho
    refine hbytes o hlt ?_
    rw [PartMap.state?_set] at ho
    split at ho
    · next hin => exact .inl hin.1
    · exact .inr (h.byte_eq o ho)
  · rw [howed]
    by_cases hin : o ∈ r
    · rw [if_pos hin, PartMap.state?_set_of_mem hin (by rw [h.length_eq]; exact Nat.lt_of_lt_of_le hin.2 hr),
        if_neg (by simp)]
    · rw [if_neg hin, PartMap.state?_set_of_not_mem hin]
      exact h.owed o
  · rw [hcount]
    refine chunk_got hmetrics h.got_eq ?_
    rw [← hcount]
    refine Nat.le_trans (countAll_le _ _) ?_
    rw [PartMap.length_set, h.length_eq]
    exact hlim

/-- The bytes a peer owes are pending, and nobody else owes them. -/
theorem Fetching.owes (h : t.Fetching D n m) (hs : t.shares[i]? = some s) (hp : s.pending = r :: l) :
    0 < r.length ∧ r.stop ≤ D.size ∧ (∀ o ∈ r, m.state? o = some .pending) ∧ s.receive r = { s with pending := l } := by
  have hmem : s ∈ t.shares := List.mem_of_getElem? hs
  have hpos : 0 < r.length := h.pos s hmem r (hp ▸ List.mem_cons_self)
  have hone : ∀ o ∈ r, m.state? o = some .pending ∧ l.countP (o ∈ ·) = 0 := by
    intro o ho
    have hle : s.pending.countP (o ∈ ·) ≤ owedAt t.shares o :=
      le_sumOf (List.mem_map_of_mem (f := fun q : Share => q.pending.countP (o ∈ ·)) hmem)
    rw [hp, List.countP_cons_of_pos (by simpa using ho), h.owed o] at hle
    split at hle
    · next hpending => exact ⟨hpending, by omega⟩
    · omega
  have hstop : r.stop ≤ D.size := by
    have hlast : r.start + (r.length - 1) ∈ r := ⟨Nat.le_add_right _ _, by unfold ByteRange.stop; omega⟩
    have := PartMap.lt_length (hone _ hlast).1
    rw [h.length_eq] at this
    unfold ByteRange.stop
    omega
  refine ⟨hpos, hstop, fun o ho => (hone o ho).1, ?_⟩
  have hself : Share.remainder r r = [] := by
    have hmeet : r.intersects r := by
      have hlt : r.start < r.stop := Nat.lt_add_of_pos_right hpos
      exact ByteRange.intersects_iff.2 ⟨hlt, hlt⟩
    rw [Share.remainder, ByteRange.inter?, if_pos hmeet]
    simp [ByteRange.ofBounds, ByteRange.isEmpty, ByteRange.stop]
  have hothers : ∀ p ∈ l, Share.remainder p r = [p] := by
    intro p hpl
    have hppos : 0 < p.length := h.pos s hmem p (hp ▸ List.mem_cons_of_mem r hpl)
    have hmiss : ¬ p.intersects r := by
      intro hmeet
      have hmeet := ByteRange.intersects_iff.1 hmeet
      have hin : max p.start r.start ∈ r :=
        ⟨Nat.le_max_right _ _, Nat.max_lt.2 ⟨hmeet.1, by unfold ByteRange.stop; omega⟩⟩
      have hin' : max p.start r.start ∈ p :=
        ⟨Nat.le_max_left _ _, Nat.max_lt.2 ⟨by unfold ByteRange.stop; omega, hmeet.2⟩⟩
      have hnone := List.countP_eq_zero.1 (hone _ hin).2 p hpl
      exact hnone (by simpa using hin')
    rw [Share.remainder, ByteRange.inter?, if_neg hmiss]
  rw [Share.receive, hp, List.flatMap_cons, hself, List.nil_append]
  have hrest : ∀ k : List ByteRange, (∀ p ∈ k, Share.remainder p r = [p]) → k.flatMap (Share.remainder · r) = k := by
    intro k
    induction k with
    | nil => exact fun _ => rfl
    | cons p k ih =>
      intro hk
      rw [List.flatMap_cons, hk p List.mem_cons_self, ih fun q hq => hk q (List.mem_cons_of_mem p hq)]
      rfl
  rw [hrest l hothers]

theorem Fetching.owed_set (h : t.Fetching D n m) (hs : t.shares[i]? = some s) (hp : s.pending = r :: l) (o : Nat) :
    owedAt (t.shares.set i { s with pending := l }) o = if o ∈ r then 0 else owedAt t.shares o := by
  have hsum := sumOf_map_set hs { s with pending := l } fun q => q.pending.countP (o ∈ ·)
  dsimp only at hsum
  rw [hp, List.countP_cons] at hsum
  unfold owedAt
  by_cases hin : o ∈ r
  · have hone := h.owed o
    rw [(h.owes hs hp).2.2.1 o hin, if_pos rfl] at hone
    unfold owedAt at hone
    rw [if_pos (by simpa using hin)] at hsum
    rw [if_pos hin]
    omega
  · rw [if_neg (by simpa using hin)] at hsum
    rw [if_neg hin]
    omega

theorem Fetching.isComplete_iff (h : t.Fetching D n m) : m.isComplete ↔ t.got = D.size := by
  rw [h.got_eq, ← h.length_eq]
  refine ⟨PartMap.countAll_of_isComplete, fun hall => PartMap.isComplete_iff.2 fun o ho => ?_⟩
  have hsum := m.countAll_sum
  have hnone : ∀ {q}, m.countAll q = 0 → m.state? o ≠ some q := by
    intro q hq hst
    rw [PartMap.countAll_eq, List.count_eq_zero] at hq
    exact hq (List.mem_of_getElem? hst)
  obtain ⟨st, hst⟩ := PartMap.exists_state ho
  cases st with
  | needed => exact absurd hst (hnone (by omega))
  | pending => exact absurd hst (hnone (by omega))
  | available => exact hst

/-- Nobody owes anything, and whoever is there could be asked: then nothing is missing. -/
theorem Fetching.complete_of_quiet (h : t.Fetching D n m) (hc : t.Conserving m)
    (hquiet : ∀ s ∈ t.shares, s.started ∧ s.pending = [])
    (hable : ∀ s ∈ t.shares, s.caps = .full ∧ s.broken = false ∧ 1 ≤ s.budget) (hsome : t.shares ≠ []) :
    m.isComplete := by
  have hneeded : ∀ o, m.state? o ≠ some .needed := by
    rcases hc with hc | hc
    · exact hc
    · obtain ⟨s, hs⟩ := List.exists_mem_of_ne_nil _ hsome
      obtain ⟨hstarted, hpending⟩ := hquiet s hs
      obtain ⟨hcaps, hbroken, hbudget⟩ := hable s hs
      have hcan := hc s hs
      have hpos : 0 < s.budget := hbudget
      simp [Share.canRequest, hstarted, hbroken, hcaps, hpending, hpos, Capabilities.full] at hcan
  have hpending : ∀ o, m.state? o ≠ some .pending := by
    intro o ho
    have hzero : owedAt t.shares o = 0 := by
      apply sumOf_eq_zero.2
      intro k hk
      obtain ⟨s, hs, rfl⟩ := List.mem_map.1 hk
      rw [(hquiet s hs).2]
      rfl
    rw [h.owed o, if_pos ho] at hzero
    cases hzero
  apply PartMap.isComplete_iff.2
  intro o ho
  obtain ⟨st, hst⟩ := PartMap.exists_state ho
  cases st with
  | needed => exact absurd hst (hneeded o)
  | pending => exact absurd hst (hpending o)
  | available => exact hst

end Fetching

end Transfer

end FileSwarm
