import FileSwarm.Proofs.Peer.Orders
import FileSwarm.Proofs.Transfer.Frames

/-!
# Requests to peers that take everything

Peers that accept every request and answer range requests are served by one queue each. What stands in
the queue of a peer is all that the transfer waits for from it.

* `unread` : calls that have not reached a peer's inbox; `Awaits` : what is in a peer's queue;
* `Peers t d names inbox` : the peers of a transfer and their queues, an inbox and the calls from number `d`
  on; `Peers.change` : one of them changes;
* `owedAt`, `Fetching D n t m` : the part map agrees with the temp file and with what the peers owe: every
  pending byte is owed by one peer, once;
* `Conserving` : nothing is needed, or nobody can be asked;
* `sendRequests_conserving` : asking for what is needed keeps all of it, and ends conserving.
-/

namespace FileSwarm

theorem sumOf_map_set {α : Type} {l : List α} {i : Nat} {a : α} (h : l[i]? = some a) (b : α) (f : α → Nat) :
    sumOf ((l.set i b).map f) + f a = sumOf (l.map f) + f b := by
  induction l generalizing i with
  | nil => exact nomatch h
  | cons x l ih =>
    cases i with
    | zero =>
      obtain rfl := Option.some.inj h
      rw [List.set_cons_zero, List.map_cons, List.map_cons, sumOf_cons, sumOf_cons]
      omega
    | succ i =>
      have := ih h
      rw [List.set_cons_succ, List.map_cons, List.map_cons, sumOf_cons, sumOf_cons]
      omega

theorem map_set_eq {α β : Type} {l : List α} {i : Nat} {a b : α} {f : α → β} (h : l[i]? = some a) (hf : f b = f a) :
    (l.set i b).map f = l.map f := by
  rw [List.map_set, hf]
  apply List.ext_getElem?
  intro j
  rw [List.getElem?_set]
  split
  · next hij =>
    subst hij
    rw [List.length_map, List.getElem?_map, h, if_pos (List.getElem?_eq_some_iff.1 h).1]
    rfl
  · rfl

namespace Transfer

/-- The calls to a peer from number `d` on. -/
def unread (t : Transfer) (d link : Nat) : List Call :=
  ((t.sent.toList.drop d).filter (·.1 == link)).map (·.2)

theorem unread_push {t : Transfer} {d : Nat} (hd : d ≤ t.sent.size) (link : Nat) (c : Call) (u : Transfer)
    (hu : u.sent = t.sent.push (link, c)) (k : Nat) :
    u.unread d k = t.unread d k ++ if link = k then [c] else [] := by
  unfold unread
  rw [hu, Array.toList_push, List.drop_append_of_le_length (by rwa [Array.length_toList]), List.filter_append,
    List.map_append]
  congr 1
  by_cases h : link = k
  · rw [if_pos h, List.filter_cons_of_pos (by simpa using h)]
    rfl
  · rw [if_neg h, List.filter_cons_of_neg (by simpa using h)]
    rfl

theorem unread_congr {t u : Transfer} (h : u.sent = t.sent) (d link : Nat) : u.unread d link = t.unread d link := by
  rw [unread, unread, h]

/-- What is in the queue of a peer: where to start, if it has not started, else the signature it owes and
then the ranges. -/
def Awaits (owing : Option String) (s : Share) (queue : List Call) : Prop :=
  if s.started then
    queue = (if owing = some s.id then [.signature] else []) ++ s.pending.map (Call.range · true)
  else s.pending = [] ∧ ∃ offset, queue = [.file offset]

/-- Every connection takes every request. -/
def Accepting (t : Transfer) : Prop := ∀ link < t.links.size, ∀ k, (t.links.getD link default).answers k = true

theorem Accepting.push {t u : Transfer} (h : t.Accepting) {l : Link} (hl : ∀ k, l.answers k)
    (hlinks : u.links = t.links.push l) : u.Accepting := by
  intro link hlt k
  rw [hlinks, Array.size_push] at hlt
  rw [hlinks, Array.getD_eq_getD_getElem?, Array.getElem?_push]
  split
  · exact hl k
  · next hne =>
    have hlt : link < t.links.size := by omega
    rw [← Array.getD_eq_getD_getElem?]
    exact h link hlt k

/-- The peers and their queues, an inbox and the calls from number `d` on. The connections have the names
of those at their other ends. -/
structure Peers (t : Transfer) (d : Nat) (names : List String) (inbox : Nat → List Call) : Prop where
  delivered : d ≤ t.sent.size
  accepting : t.Accepting
  size : names.length = t.links.size
  named : ∀ s ∈ t.shares, names[s.link]? = some s.id
  ids : (t.shares.map (·.id)).Nodup
  links : (t.shares.map (·.link)).Nodup
  able : ∀ s ∈ t.shares, s.caps = .full ∧ s.broken = false ∧ 1 ≤ s.budget
  queue : ∀ s ∈ t.shares, Awaits t.owing s (inbox s.link ++ t.unread d s.link)
  silent : ∀ link, (∀ s ∈ t.shares, s.link ≠ link) → inbox link ++ t.unread d link = []

theorem Peers.linked {t : Transfer} {d : Nat} {names : List String} {inbox : Nat → List Call}
    (h : t.Peers d names inbox) : ∀ s ∈ t.shares, s.link < t.links.size :=
  fun s hs => h.size ▸ (List.getElem?_eq_some_iff.1 (h.named s hs)).1

/-- Phases, part map and disk do not matter to peers. -/
theorem Peers.update {t : Transfer} {d : Nat} {names : List String} {inbox : Nat → List Call}
    (h : t.Peers d names inbox) {phase : Phase} {parts : Option PartMap}
    {signature : Option Signature} {tally : Tally} {disk : Disk} {metrics : Metrics} {outbox : Outbox} :
    Peers { t with phase, parts, signature, tally, disk, metrics, outbox } d names inbox :=
  ⟨h.delivered, h.accepting, h.size, h.named, h.ids, h.links, h.able, h.queue, h.silent⟩

/-- One peer's share is another one now, and so is its queue. -/
theorem Peers.change {t u : Transfer} {d : Nat} {names : List String} {inbox inbox' : Nat → List Call} {i : Nat}
    {s v : Share} (h : t.Peers d names inbox) (hs : t.shares[i]? = some s) (hshares : u.shares = t.shares.set i v)
    (hid : v.id = s.id) (hlink : v.link = s.link)
    (hable : v.caps = s.caps ∧ v.broken = s.broken ∧ v.budget = s.budget)
    (hdelivered : d ≤ u.sent.size) (haccepting : u.Accepting) (hsize : u.links.size = t.links.size)
    (hothers : ∀ k, k ≠ s.link → inbox' k ++ u.unread d k = inbox k ++ t.unread d k)
    (howing : ∀ q ∈ t.shares, q.link ≠ s.link → (u.owing = some q.id ↔ t.owing = some q.id))
    (hqueue : Awaits u.owing v (inbox' s.link ++ u.unread d s.link)) : u.Peers d names inbox' := by
  have hmem : s ∈ t.shares := List.mem_of_getElem? hs
  -- a share is the one that changed, or another one with another link
  have hcases : ∀ q ∈ u.shares, q = v ∨ q ∈ t.shares ∧ q.link ≠ s.link := by
    intro q hq
    rw [hshares] at hq
    obtain ⟨j, hj⟩ := List.mem_iff_getElem?.1 hq
    rw [List.getElem?_set] at hj
    split at hj
    · split at hj
      · exact .inl (Option.some.inj hj).symm
      · exact nomatch hj
    · next hij =>
      refine .inr ⟨List.mem_of_getElem? hj, fun heq => hij ?_⟩
      refine (List.getElem?_inj (l := t.shares.map (·.link)) ?_ h.links).1 ?_
      · rw [List.length_map]
        exact (List.getElem?_eq_some_iff.1 hs).1
      · rw [List.getElem?_map, List.getElem?_map, hs, hj]
        exact congrArg some heq.symm
  refine ⟨hdelivered, haccepting, h.size.trans hsize.symm, ?_, ?_, ?_, ?_, ?_, ?_⟩
  · intro q hq
    rcases hcases q hq with rfl | ⟨hq, -⟩
    · rw [hid, hlink]
      exact h.named s hmem
    · exact h.named q hq
  · rw [hshares, map_set_eq (b := v) hs hid]
    exact h.ids
  · rw [hshares, map_set_eq (b := v) hs hlink]
    exact h.links
  · intro q hq
    rcases hcases q hq with rfl | ⟨hq, -⟩
    · rw [hable.1, hable.2.1, hable.2.2]
      exact h.able s hmem
    · exact h.able q hq
  · intro q hq
    rcases hcases q hq with rfl | ⟨hq, hne⟩
    · rw [hlink]
      exact hqueue
    · have hold := h.queue q hq
      unfold Awaits at hold ⊢
      rw [hothers q.link hne]
      simpa only [howing q hq hne] using hold
  · intro link hnobody
    have hset : v ∈ u.shares := by
      rw [hshares]
      exact List.mem_set (List.getElem?_eq_some_iff.1 hs).1 _
    have hne : link ≠ s.link := fun heq => hnobody v hset (hlink.trans heq.symm)
    rw [hothers link hne]
    apply h.silent link
    intro q hq heq
    obtain ⟨j, hj⟩ := List.mem_iff_getElem?.1 hq
    by_cases hij : i = j
    · subst hij
      rw [hs] at hj
      obtain rfl := Option.some.inj hj
      exact hne heq.symm
    · refine hnobody q ?_ heq
      rw [hshares]
      refine List.mem_of_getElem? (i := j) ?_
      rw [List.getElem?_set, if_neg hij, hj]

/-- How many requests under way are for a byte. -/
def owedAt (l : List Share) (o : Nat) : Nat := sumOf (l.map fun s => s.pending.countP (o ∈ ·))

/-- Bytes received and bytes reused. -/
def got (t : Transfer) : Nat := t.metrics.bytesReceived.toNat + t.metrics.bytesReused.toNat

/-- The temp file, node `n`, has the bytes of `D` that are available, and each pending byte is owed once. -/
structure Fetching (D : ByteArray) (n : Nat) (t : Transfer) (m : PartMap) : Prop where
  parts : t.parts = some m
  length_eq : m.length = D.size
  byte_eq : ∀ o, m.state? o = some .available → Bytes.byte? (t.disk.content n) o = Bytes.byte? D o
  owed : ∀ o, owedAt t.shares o = if m.state? o = some .pending then 1 else 0
  pos : ∀ s ∈ t.shares, ∀ r ∈ s.pending, 0 < r.length
  got_eq : t.got = m.countAll .available

/-- Nothing is needed, or nobody can be asked. -/
def Conserving (t : Transfer) (m : PartMap) : Prop :=
  (∀ o, m.state? o ≠ some .needed) ∨ ∀ s ∈ t.shares, s.canRequest = false

/-! ## One range asked for -/

theorem offer_accepting {t : Transfer} (ha : t.Accepting) (hl : ∀ s ∈ t.shares, s.link < t.links.size)
    (r : ByteRange) (l : List Nat) :
    (∃ i s links, t.offer r l = ({ t with
        links, sent := t.sent.push (s.link, .range r true), shares := t.shares.set i (s.owe r) }, some i) ∧
      t.shares[i]? = some s ∧ s.mayAsk r ∧ links.size = t.links.size ∧ Accepting { t with links }) ∨
    (t.offer r l = (t, none) ∧ ∀ i ∈ l, ∀ s, t.shares[i]? = some s → s.mayAsk r = false) := by
  induction l with
  | nil => exact .inr ⟨rfl, fun _ h => absurd h List.not_mem_nil⟩
  | cons i l ih =>
    by_cases hfirst : ∃ s, t.shares[i]? = some s ∧ s.mayAsk r
    · obtain ⟨s, hi, hask⟩ := hfirst
      have hlt : s.link < t.links.size := hl s (List.mem_of_getElem? hi)
      have hacc : (t.links.getD s.link default).answer = true := ha s.link hlt _
      refine .inl ⟨i, s, t.links.setIfInBounds s.link { t.links.getD s.link default with
        asked := (t.links.getD s.link default).asked + 1 }, ?_, hi, hask, Array.size_setIfInBounds, ?_⟩
      · rw [offer, hi]
        simp only [hask, askRange, tell, hacc, if_true]
      · intro link hlink k
        rw [Array.size_setIfInBounds] at hlink
        show ((t.links.setIfInBounds s.link { t.links.getD s.link default with
          asked := (t.links.getD s.link default).asked + 1 }).getD link default).answers k = true
        have hold := ha link hlink k
        rw [Array.getD_eq_getD_getElem?, Array.getElem?_setIfInBounds]
        by_cases heq : s.link = link
        · subst heq
          rw [if_pos rfl, if_pos hlt]
          exact hold
        · rw [if_neg heq, ← Array.getD_eq_getD_getElem?]
          exact hold
    · -- the first one in the list cannot be asked
      have hno : ∀ s, t.shares[i]? = some s → s.mayAsk r = false :=
        fun s hs => Bool.not_eq_true _ ▸ fun hask => hfirst ⟨s, hs, hask⟩
      have hskip : t.offer r (i :: l) = t.offer r l := by
        rw [offer]
        cases hi : t.shares[i]? with
        | none => rfl
        | some s => simp [hno s hi]
      rw [hskip]
      refine ih.imp id fun h => ⟨h.1, fun j hj => ?_⟩
      rcases List.mem_cons.1 hj with rfl | hj
      · exact hno
      · exact h.2 j hj

theorem mem_order_of_share {t : Transfer} {i : Nat} {s : Share} (hs : t.shares[i]? = some s) :
    i ∈ t.tuning.selection.order t.loads t.cursor := by
  rw [Selection.mem_order_iff, loads, List.length_map]
  exact (List.getElem?_eq_some_iff.1 hs).1

/-- The peer at position `i` owes the range `r` from now on. -/
structure Asks (t : Transfer) (m : PartMap) (r : ByteRange) (i : Nat) (s : Share) (u : Transfer) : Prop where
  needed : ∀ o ∈ r, m.state? o = some .needed
  pos : 0 < r.length
  stop_le : r.stop ≤ m.length
  share : t.shares[i]? = some s
  able : s.canRequest
  result : ∃ links, u = { t with
      links
      sent := t.sent.push (s.link, .range r true)
      shares := t.shares.set i (s.owe r)
      parts := some (m.set r .pending)
      metrics := t.metrics.askPart
      cursor := i + 1 } ∧ links.size = t.links.size ∧ Accepting { t with links }

theorem Asks.peers {t u : Transfer} {m : PartMap} {r : ByteRange} {i : Nat} {s : Share} {d : Nat}
    {names : List String} {inbox : Nat → List Call} (ha : t.Asks m r i s u) (h : t.Peers d names inbox) :
    u.Peers d names inbox := by
  obtain ⟨-, -, -, hs, hable, links, rfl, hsize, hacc⟩ := ha
  have hstarted : s.started := by
    simp only [Share.canRequest, Bool.and_eq_true] at hable
    exact hable.1.1.1
  have hunread : ∀ k, Transfer.unread { t with
      links, sent := t.sent.push (s.link, .range r true), shares := t.shares.set i (s.owe r)
      parts := some (m.set r .pending), metrics := t.metrics.askPart, cursor := i + 1 } d k =
      t.unread d k ++ if s.link = k then [.range r true] else [] :=
    fun k => unread_push h.delivered s.link (.range r true) _ rfl k
  refine h.change hs rfl rfl rfl ⟨rfl, rfl, rfl⟩ ?_ hacc hsize (fun k hk => ?_) (fun _ _ _ => Iff.rfl) ?_
  · show d ≤ (t.sent.push _).size
    rw [Array.size_push]
    exact Nat.le_succ_of_le h.delivered
  · rw [hunread, if_neg (Ne.symm hk), List.append_nil]
  · have hqueue := h.queue s (List.mem_of_getElem? hs)
    rw [hunread, if_pos rfl, ← List.append_assoc]
    unfold Awaits at hqueue ⊢
    rw [if_pos hstarted] at hqueue
    rw [if_pos (show (s.owe r).started from hstarted), hqueue]
    show _ = _ ++ (s.pending ++ [r]).map _
    rw [List.map_append, List.append_assoc]
    rfl

theorem Asks.fetching {D : ByteArray} {n : Nat} {t u : Transfer} {m : PartMap} {r : ByteRange} {i : Nat} {s : Share}
    (ha : t.Asks m r i s u) (h : t.Fetching D n m) : u.Fetching D n (m.set r .pending) := by
  obtain ⟨hneeded, hpos, hstop, hs, -, links, rfl, -, -⟩ := ha
  refine ⟨rfl, (PartMap.length_set _ _ _).trans h.length_eq,
    fun o ho => ?_, fun o => ?_, fun q hq p hp => ?_, ?_⟩
  · rw [PartMap.state?_set] at ho
    split at ho
    · exact nomatch ho
    · exact h.byte_eq o ho
  · have hsum := sumOf_map_set hs (s.owe r) fun s => s.pending.countP (o ∈ ·)
    have howe : (s.owe r).pending.countP (o ∈ ·) = s.pending.countP (o ∈ ·) + if o ∈ r then 1 else 0 := by
      show (s.pending ++ [r]).countP _ = _
      rw [List.countP_append, List.countP_singleton]
      simp only [decide_eq_true_eq]
    have hold := h.owed o
    unfold owedAt at hold ⊢
    rw [howe] at hsum
    show sumOf ((t.shares.set i (s.owe r)).map fun s => s.pending.countP (o ∈ ·)) = _
    by_cases hin : o ∈ r
    · rw [PartMap.state?_set_of_mem hin (Nat.lt_of_lt_of_le hin.2 hstop), if_pos rfl]
      rw [hneeded o hin, if_neg (by simp)] at hold
      rw [if_pos hin] at hsum
      omega
    · rw [PartMap.state?_set_of_not_mem hin, ← hold]
      rw [if_neg hin] at hsum
      omega
  · rcases List.mem_or_eq_of_mem_set hq with hq | rfl
    · exact h.pos q hq p hp
    · rcases List.mem_append.1 hp with hp | hp
      · exact h.pos s (List.mem_of_getElem? hs) p hp
      · obtain rfl := List.mem_singleton.1 hp
        exact hpos
  · rw [PartMap.countAll_set hstop fun o ho => by rw [hneeded o ho]; exact nofun, if_neg nofun]
    exact h.got_eq

/-! ## All that is needed -/

theorem room_owe {t : Transfer} {i : Nat} {s : Share} (hs : t.shares[i]? = some s) (hable : s.canRequest)
    (r : ByteRange) :
    sumOf ((t.shares.set i (s.owe r)).map fun s => s.budget - s.pending.length) + 1 = t.room := by
  have hsum := sumOf_map_set hs (s.owe r) fun s => s.budget - s.pending.length
  have hlt : s.pending.length < s.budget := by
    simp only [Share.canRequest, Bool.and_eq_true, decide_eq_true_eq] at hable
    exact hable.2
  have howe : (s.owe r).budget - (s.owe r).pending.length + 1 = s.budget - s.pending.length := by
    show s.budget - (s.pending ++ [r]).length + 1 = _
    rw [List.length_append, List.length_singleton]
    omega
  show _ = sumOf (t.shares.map _)
  omega

theorem room_asks {t u : Transfer} {m : PartMap} {r : ByteRange} {i : Nat} {s : Share} (ha : t.Asks m r i s u) :
    u.room + 1 = t.room := by
  obtain ⟨-, -, -, hs, hable, links, rfl, -, -⟩ := ha
  exact room_owe hs hable r

theorem nobody_of_room {t : Transfer} (h : t.room = 0) : ∀ s ∈ t.shares, s.canRequest = false := by
  intro s hs
  have hzero := sumOf_eq_zero.1 h _ (List.mem_map_of_mem hs)
  simp only [Share.canRequest, Bool.and_eq_false_iff, decide_eq_false_iff_not]
  exact .inr (by omega)

theorem conserving_of_room {t : Transfer} {m : PartMap} (h : t.room = 0) : t.Conserving m := .inr (nobody_of_room h)

theorem nextRange_eq_some {t : Transfer} {m : PartMap} {r : ByteRange} (hparts : t.parts = some m)
    (hchunk : 1 ≤ t.tuning.maxChunk) (h : t.nextRange? = some r) :
    (∀ o ∈ r, m.state? o = some .needed) ∧ 0 < r.length ∧ r.stop ≤ m.length := by
  rw [nextRange?, hparts] at h
  obtain ⟨whole, hwhole, rfl⟩ := Option.map_eq_some_iff.1 h
  have hmem := PartMap.first?_eq_some (m := m) hwhole
  have hpos := PartMap.pos_of_mem_parts hmem
  obtain ⟨hstop, hstate⟩ := PartMap.mem_parts hmem
  unfold ByteRange.stop at hstop
  refine ⟨fun o ho => hstate o ⟨ho.1, ?_⟩, ?_, ?_⟩
  · have := ho.2
    simp only [ByteRange.truncate, ByteRange.stop] at this ⊢
    omega
  · simp only [ByteRange.truncate]
    omega
  · simp only [ByteRange.truncate, ByteRange.stop]
    omega

theorem assign_conserving {D : ByteArray} {n d : Nat} {names : List String} {inbox : Nat → List Call} (k : Nat)
    {t : Transfer} {m : PartMap} (hp : t.Peers d names inbox) (hf : t.Fetching D n m)
    (hchunk : 1 ≤ t.tuning.maxChunk) (hroom : t.room ≤ k) :
    (assign k t).Peers d names inbox ∧ ∃ m', (assign k t).Fetching D n m' ∧ (assign k t).Conserving m' := by
  induction k generalizing t m with
  | zero => exact ⟨hp, m, hf, conserving_of_room (Nat.le_zero.1 hroom)⟩
  | succ k ih =>
    rw [assign]
    cases hr : t.nextRange? with
    | none =>
      refine ⟨hp, m, hf, .inl fun o => PartMap.first?_eq_none ?_ o⟩
      rw [nextRange?, hf.parts] at hr
      exact Option.map_eq_none_iff.1 hr
    | some r =>
      obtain ⟨hneeded, hpos, hstop⟩ := nextRange_eq_some hf.parts hchunk hr
      have hmay := Share.mayAsk_of_pos hpos
      dsimp only
      rcases offer_accepting hp.accepting hp.linked r (t.tuning.selection.order t.loads t.cursor) with
        ⟨i, s, links, hoffer, hs, hask, hsize, hacc⟩ | ⟨hoffer, hnobody⟩
      · rw [hoffer]
        dsimp only
        rw [hf.parts]
        have hasks : t.Asks m r i s { t with
            links
            sent := t.sent.push (s.link, .range r true)
            shares := t.shares.set i (s.owe r)
            parts := some (m.set r .pending)
            metrics := t.metrics.askPart
            cursor := i + 1 } :=
          ⟨hneeded, hpos, hstop, hs, hmay s ▸ hask, links, rfl, hsize, hacc⟩
        exact ih (hasks.peers hp) (hasks.fetching hf) hchunk
          (Nat.le_of_succ_le_succ (Nat.le_trans (Nat.le_of_eq (room_asks hasks)) hroom))
      · rw [hoffer]
        refine ⟨hp, m, hf, .inr fun s hs => ?_⟩
        obtain ⟨i, hi⟩ := List.mem_iff_getElem?.1 hs
        rw [← hmay s]
        exact hnobody i (mem_order_of_share hi) s hi

/-- Asking for what is needed keeps the books, and ends when nothing is needed or nobody can be asked. -/
theorem sendRequests_conserving {D : ByteArray} {n d : Nat} {names : List String} {inbox : Nat → List Call}
    {t : Transfer} {m : PartMap} (hp : t.Peers d names inbox) (hf : t.Fetching D n m) (hchunk : 1 ≤ t.tuning.maxChunk)
    (hopen : t.phase.isFinal = false) :
    t.sendRequests.Peers d names inbox ∧ ∃ m', t.sendRequests.Fetching D n m' ∧ t.sendRequests.Conserving m' := by
  unfold sendRequests
  cases hs : t.shares with
  | nil =>
    have hby : t.byParts = false := by rw [byParts, hs]; rfl
    rw [hby, Bool.not_false, Bool.or_true, if_pos rfl]
    exact ⟨hp, m, hf, .inr fun s h => by rw [hs] at h; exact absurd h List.not_mem_nil⟩
  | cons s l =>
    have hby : t.byParts = true := by
      rw [byParts, hs]
      show s.caps.partRequests = true
      rw [(hp.able s (by rw [hs]; exact List.mem_cons_self)).1]
      rfl
    rw [hby, hopen, Bool.not_true, Bool.or_false, if_neg nofun]
    exact assign_conserving t.room hp hf hchunk (Nat.le_refl _)

theorem sendRequests_of_none {t : Transfer} (h : t.nextRange? = none) : t.sendRequests = t := by
  have hassign : ∀ k, assign k t = t := by
    intro k
    cases k with
    | zero => rfl
    | succ k => rw [assign, h]
  unfold sendRequests
  split
  · rfl
  · exact hassign _

theorem nextRange_unmapped {t : Transfer} (h : t.parts = none) : t.nextRange? = none := by
  rw [nextRange?, h]
  rfl

theorem nextRange_complete {t : Transfer} {m : PartMap} (h : t.parts = some m) (hc : m.isComplete) :
    t.nextRange? = none := by
  have hfirst : m.first? .needed = none := by
    cases hm : m.first? .needed with
    | none => rfl
    | some r =>
      have hmem := PartMap.first?_eq_some hm
      have hpos := PartMap.pos_of_mem_parts hmem
      have hin : r.start ∈ r := ⟨Nat.le_refl _, Nat.lt_add_of_pos_right hpos⟩
      have hstate := (PartMap.mem_parts hmem).2 r.start hin
      rw [PartMap.isComplete_iff.1 hc _ (PartMap.lt_length hstate)] at hstate
      exact nomatch hstate
  rw [nextRange?, h]
  exact Option.map_eq_none_iff.2 hfirst

theorem sendRequests_metrics (t : Transfer) :
    t.sendRequests.metrics.bytesReceived = t.metrics.bytesReceived ∧
      t.sendRequests.metrics.bytesReused = t.metrics.bytesReused ∧
      t.sendRequests.metrics.mismatches = t.metrics.mismatches := by
  refine sendRequests_induction (P := fun u => u.metrics.bytesReceived = t.metrics.bytesReceived ∧
    u.metrics.bytesReused = t.metrics.bytesReused ∧ u.metrics.mismatches = t.metrics.mismatches)
    (fun _ _ _ h => h) ?_ ⟨rfl, rfl, rfl⟩
  rintro u m r i s v ⟨-, -, -, -, links, sent, rfl⟩ h
  exact h

end Transfer

end FileSwarm
