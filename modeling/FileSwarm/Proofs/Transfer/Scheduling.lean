import Mathlib.Logic.Relation
import FileSwarm.Proofs.Transfer.Requests

/-!
# Scheduling, call by call

Asking for what is needed is a loop with a loop in it: ranges one after another, and for each the peers in their order.
Here it is taken apart into single calls, and freed of its bound.

* `Tells t u` : one call; `Round t u` : any number of them, as `sendRequests` makes them (`round_sendRequests`);
  `Tells.sound` : what is asked for in one call, and whom; `Round.call` : every call of a round has its moment;
* `Distributes t u` : the loop with no bound on its turns; `distributes_iff` : it ends, in one way, within the room
  there is (`sendRequests_eq`);
* `Tended t` : peers that take everything, all of one kind; `Distributes.tended` : the loop ends when nothing is needed
  or nobody can be asked; `sendRequests_of_conserving` : then it has nothing to do.
-/

namespace FileSwarm

namespace Transfer

variable {t u v : Transfer} {r : ByteRange} {i : Nat}

/-- A range was taken by the peer at position `i`. -/
def note (t : Transfer) (r : ByteRange) (i : Nat) : Transfer :=
  { t with parts := t.parts.map (·.set r .pending), metrics := t.metrics.askPart, cursor := i + 1 }

/-! ## Single calls -/

/-- One call: a peer that may be asked is asked for the next range, and refuses it, or owes it from now on. -/
inductive Tells (t : Transfer) : Transfer → Prop
  | refused {r : ByteRange} {s : Share} (next : t.nextRange? = some r) (share : s ∈ t.shares) (mayAsk : s.mayAsk r)
    (answer : (t.askRange s.link r).2 = false) : Tells t (t.askRange s.link r).1
  | taken {r : ByteRange} {i : Nat} {s : Share} (next : t.nextRange? = some r) (share : t.shares[i]? = some s)
    (mayAsk : s.mayAsk r) (answer : (t.askRange s.link r).2 = true) :
    Tells t (note { (t.askRange s.link r).1 with shares := t.shares.set i (s.owe r) } r i)

/-- Any number of calls. -/
def Round : Transfer → Transfer → Prop := Relation.ReflTransGen Tells

theorem Round.refl (t : Transfer) : Round t t := Relation.ReflTransGen.refl

theorem Tells.round (h : Tells t u) (k : Round u v) : Round t v := Relation.ReflTransGen.head h k

theorem nextRange?_eq_some (h : t.nextRange? = some r) : ∃ m whole, t.parts = some m ∧
    m.first? .needed = some whole ∧ r = whole.truncate t.tuning.maxChunk := by
  obtain ⟨whole, hwhole, hr⟩ := Option.map_eq_some_iff.1 h
  obtain ⟨m, hm, hfirst⟩ := Option.bind_eq_some_iff.1 hwhole
  exact ⟨m, whole, hm, hfirst, hr.symm⟩

/-- One call is told to a peer that may be asked, and is for the first bytes that are needed, at least one and at most
as many as the tuning allows. -/
theorem Tells.sound (h : Tells t u) : ∃ s ∈ t.shares, ∃ m r a, u.sent = t.sent.push (s.link, .range r a) ∧
    s.canRequest ∧ t.parts = some m ∧ 0 < r.length ∧ r.length ≤ t.tuning.maxChunk ∧ r.stop ≤ m.length ∧
    (∀ o ∈ r, m.state? o = some .needed) ∧ ∀ o < r.start, m.state? o ≠ some .needed := by
  have hrange : ∀ {r : ByteRange}, t.nextRange? = some r → ∃ m, t.parts = some m ∧ r.length ≤ t.tuning.maxChunk ∧
      r.stop ≤ m.length ∧ (∀ o ∈ r, m.state? o = some .needed) ∧ ∀ o < r.start, m.state? o ≠ some .needed := by
    intro r h
    obtain ⟨m, whole, hm, hfirst, rfl⟩ := nextRange?_eq_some h
    obtain ⟨hstop, hneeded⟩ := PartMap.mem_parts (PartMap.first?_eq_some hfirst)
    have hle : (whole.truncate t.tuning.maxChunk).stop ≤ whole.stop :=
      Nat.add_le_add_left (Nat.min_le_left _ _) _
    exact ⟨m, hm, Nat.min_le_right _ _, Nat.le_trans hle hstop,
      fun o ho => hneeded o ⟨ho.1, Nat.lt_of_lt_of_le ho.2 hle⟩, fun o ho => PartMap.first?_least hfirst ho⟩
  cases h with
  | @refused r s next share mayAsk answer =>
    obtain ⟨hpos, hable⟩ := Share.mayAsk_iff.1 mayAsk
    obtain ⟨m, hm, hlen, hstop, hneeded, hleast⟩ := hrange next
    exact ⟨s, share, m, r, _, rfl, hable, hm, hpos, hlen, hstop, hneeded, hleast⟩
  | @taken r i s next share mayAsk answer =>
    obtain ⟨hpos, hable⟩ := Share.mayAsk_iff.1 mayAsk
    obtain ⟨m, hm, hlen, hstop, hneeded, hleast⟩ := hrange next
    exact ⟨s, List.mem_of_getElem? share, m, r, _, rfl, hable, hm, hpos, hlen, hstop, hneeded, hleast⟩

theorem Tells.frame (h : Tells t u) : u.target = t.target ∧ u.tuning = t.tuning ∧
    ∀ k, u.parts = some k → ∃ m, t.parts = some m ∧ k.length = m.length := by
  cases h with
  | refused => exact ⟨rfl, rfl, fun k hk => ⟨k, hk, rfl⟩⟩
  | @taken r i s =>
    refine ⟨rfl, rfl, fun k hk => ?_⟩
    obtain ⟨m, hm, rfl⟩ := Option.map_eq_some_iff.1 hk
    exact ⟨m, hm, PartMap.length_set m r .pending⟩

theorem round_offer (l : List Nat) (hnext : t.nextRange? = some r) :
    (∀ u, t.offer r l = (u, none) → Round t u) ∧ ∀ u i, t.offer r l = (u, some i) → Round t (u.note r i) := by
  induction l generalizing t with
  | nil =>
    refine ⟨fun u h => ?_, fun u i h => nomatch (Prod.mk.inj h).2⟩
    rw [← (Prod.mk.inj h).1]
    exact .refl t
  | cons i l ih =>
    cases hi : t.shares[i]? with
    | none =>
      rw [show t.offer r (i :: l) = t.offer r l by rw [offer, hi]]
      exact ih hnext
    | some s =>
      cases hask : s.mayAsk r with
      | false =>
        rw [show t.offer r (i :: l) = t.offer r l by rw [offer, hi]; simp [hask]]
        exact ih hnext
      | true =>
        cases hacc : (t.askRange s.link r).2 with
        | false =>
          rw [show t.offer r (i :: l) = (t.askRange s.link r).1.offer r l by
            rw [offer, hi]; simp only [hask, hacc]; rfl]
          have htells := Tells.refused hnext (List.mem_of_getElem? hi) hask hacc
          obtain ⟨hnone, hsome⟩ := ih (t := (t.askRange s.link r).1) hnext
          exact ⟨fun u h => htells.round (hnone u h), fun u j h => htells.round (hsome u j h)⟩
        | true =>
          rw [show t.offer r (i :: l) = ({ (t.askRange s.link r).1 with shares := t.shares.set i (s.owe r) }, some i) by
            rw [offer, hi]; simp only [hask, hacc, if_true]; rfl]
          refine ⟨fun u h => ?_, fun u j h => ?_⟩
          · cases (Prod.mk.inj h).2
          · obtain ⟨rfl, hj⟩ := Prod.mk.inj h
            obtain rfl := Option.some.inj hj
            exact (Tells.taken hnext hi hask hacc).round (.refl _)

theorem round_assign (n : Nat) (t : Transfer) : Round t (assign n t) := by
  induction n generalizing t with
  | zero => exact .refl t
  | succ n ih =>
    rw [assign]
    cases hr : t.nextRange? with
    | none => exact .refl t
    | some r =>
      obtain ⟨hnone, hsome⟩ := round_offer (t.tuning.selection.order t.loads t.cursor) hr
      dsimp only
      generalize t.offer r (t.tuning.selection.order t.loads t.cursor) = result at hnone hsome ⊢
      rcases result with ⟨u, _ | i⟩
      · exact hnone u rfl
      · exact Relation.ReflTransGen.trans (hsome u i rfl) (ih _)

theorem round_sendRequests (t : Transfer) : Round t t.sendRequests := by
  unfold sendRequests
  split
  · exact .refl t
  · exact round_assign _ t

theorem Round.frame (h : Round t u) : u.target = t.target ∧ u.tuning = t.tuning ∧
    ∀ k, u.parts = some k → ∃ m, t.parts = some m ∧ k.length = m.length := by
  induction h with
  | refl => exact ⟨rfl, rfl, fun k hk => ⟨k, hk, rfl⟩⟩
  | tail _ htells ih =>
    obtain ⟨htarget, htuning, hparts⟩ := htells.frame
    refine ⟨htarget.trans ih.1, htuning.trans ih.2.1, fun k hk => ?_⟩
    obtain ⟨m, hm, hlength⟩ := hparts k hk
    obtain ⟨m', hm', hlength'⟩ := ih.2.2 m hm
    exact ⟨m', hm', hlength.trans hlength'⟩

theorem Round.sent (h : Round t u) : ∃ more, u.sent = t.sent ++ more := by
  induction h with
  | refl => exact ⟨#[], by simp⟩
  | tail _ htells ih =>
    obtain ⟨more, hmore⟩ := ih
    obtain ⟨s, -, m, r, a, hsent, -⟩ := htells.sound
    exact ⟨more.push (s.link, .range r a), by rw [hsent, hmore, Array.append_push]⟩

theorem Round.call (h : Round t u) {k : Nat} (hlo : t.sent.size ≤ k) (hhi : k < u.sent.size) :
    ∃ v w, Round t v ∧ Tells v w ∧ Round w u ∧ v.sent.size = k ∧ u.sent[k]? = w.sent[k]? := by
  induction h with
  | refl => omega
  | @tail u w hround htells ih =>
    obtain ⟨s, -, m, r, a, hsent, -⟩ := htells.sound
    rcases Nat.lt_or_ge k u.sent.size with hlt | hge
    · obtain ⟨v, x, htv, hvx, hxu, hsize, hsame⟩ := ih hlt
      refine ⟨v, x, htv, hvx, Relation.ReflTransGen.tail hxu htells, hsize, ?_⟩
      rw [hsent, Array.getElem?_push_lt hlt, ← hsame, Array.getElem?_eq_getElem hlt]
    · rw [hsent, Array.size_push] at hhi
      exact ⟨u, w, hround, htells, .refl w, by omega, rfl⟩

/-! ## The loop -/

/-- Handing out needed ranges, turn by turn, until nothing is needed or nobody takes the next range. -/
inductive Distributes : Transfer → Transfer → Prop
  | done {t : Transfer} (next : t.nextRange? = none) : Distributes t t
  | nobody {t u : Transfer} {r : ByteRange} (next : t.nextRange? = some r)
    (offer : t.offer r (t.tuning.selection.order t.loads t.cursor) = (u, none)) : Distributes t u
  | taken {t u v : Transfer} {r : ByteRange} {i : Nat} (next : t.nextRange? = some r)
    (offer : t.offer r (t.tuning.selection.order t.loads t.cursor) = (u, some i))
    (rest : Distributes (u.note r i) v) : Distributes t v

theorem Distributes.unique {w : Transfer} (h : Distributes t u) (k : Distributes t w) : u = w := by
  induction h with
  | done next =>
    cases k with
    | done => rfl
    | nobody next' => exact nomatch next.symm.trans next'
    | taken next' => exact nomatch next.symm.trans next'
  | @nobody t u r next offer =>
    cases k with
    | done next' => exact nomatch next.symm.trans next'
    | nobody next' offer' =>
      obtain rfl := Option.some.inj (next.symm.trans next')
      exact (Prod.mk.inj (offer.symm.trans offer')).1
    | taken next' offer' =>
      obtain rfl := Option.some.inj (next.symm.trans next')
      exact nomatch (Prod.mk.inj (offer.symm.trans offer')).2
  | @taken t u v r i next offer rest ih =>
    cases k with
    | done next' => exact nomatch next.symm.trans next'
    | nobody next' offer' =>
      obtain rfl := Option.some.inj (next.symm.trans next')
      exact nomatch (Prod.mk.inj (offer.symm.trans offer')).2
    | taken next' offer' rest' =>
      obtain rfl := Option.some.inj (next.symm.trans next')
      obtain ⟨rfl, hi⟩ := Prod.mk.inj (offer.symm.trans offer')
      obtain rfl := Option.some.inj hi
      exact ih rest'

theorem room_offer {l : List Nat} (h : t.offer r l = (u, some i)) : (u.note r i).room + 1 = t.room := by
  have ho := offer_cases t r l
  rw [h] at ho
  obtain ⟨-, links, sent, s, hs, hask, rfl⟩ := ho
  exact room_owe hs (Share.mayAsk_iff.1 hask).2 r

theorem offer_nobody (hnone : ∀ s ∈ t.shares, s.canRequest = false) (r : ByteRange) (l : List Nat) :
    t.offer r l = (t, none) := by
  induction l with
  | nil => rfl
  | cons i l ih =>
    rw [offer]
    cases hi : t.shares[i]? with
    | none => exact ih
    | some s =>
      have hask : s.mayAsk r = false := by rw [Share.mayAsk, hnone s (List.mem_of_getElem? hi), Bool.and_false]
      dsimp only
      rw [if_neg (by simp [hask])]
      exact ih

theorem distributes_assign (n : Nat) (h : t.room ≤ n) : Distributes t (assign n t) := by
  induction n generalizing t with
  | zero =>
    cases hr : t.nextRange? with
    | none => exact .done hr
    | some r => exact .nobody hr (offer_nobody (nobody_of_room (Nat.le_zero.1 h)) r _)
  | succ n ih =>
    rw [assign]
    cases hr : t.nextRange? with
    | none => exact .done hr
    | some r =>
      dsimp only
      rcases ho : t.offer r (t.tuning.selection.order t.loads t.cursor) with ⟨u, _ | i⟩
      · exact .nobody hr ho
      · have hroom := room_offer ho
        exact .taken hr ho (ih (t := u.note r i) (by omega))

/-- The loop ends, and comes to what a bound of `room` turns gives. -/
theorem distributes_iff : Distributes t u ↔ u = assign t.room t := by
  constructor
  · intro h
    exact h.unique (distributes_assign _ (Nat.le_refl _))
  · rintro rfl
    exact distributes_assign _ (Nat.le_refl _)

/-! ## Nothing is left undone -/

/-- Peers that take every request, all of them or none by range. -/
structure Tended (t : Transfer) : Prop where
  accepting : t.Accepting
  linked : ∀ s ∈ t.shares, s.link < t.links.size
  uniform : ∀ s ∈ t.shares, ∀ q ∈ t.shares, s.caps.partRequests = q.caps.partRequests

theorem Tended.of (h : t.Tended) (hlinks : u.links = t.links)
    (hshares : ∀ s ∈ u.shares, ∃ q ∈ t.shares, s.link = q.link ∧ s.caps = q.caps) : u.Tended := by
  refine ⟨?_, fun s hs => ?_, fun s hs p hp => ?_⟩
  · have haccepting := h.accepting
    unfold Accepting at haccepting ⊢
    rwa [hlinks]
  · obtain ⟨q, hq, hlink, -⟩ := hshares s hs
    rw [hlinks, hlink]
    exact h.linked q hq
  · obtain ⟨q, hq, -, hcaps⟩ := hshares s hs
    obtain ⟨q', hq', -, hcaps'⟩ := hshares p hp
    rw [hcaps, hcaps']
    exact h.uniform q hq q' hq'

theorem Distributes.tended (hd : Distributes t u) (h : t.Tended) (hchunk : 1 ≤ t.tuning.maxChunk) :
    u.Tended ∧ ∀ m, u.parts = some m → u.Conserving m := by
  induction hd with
  | @done t next =>
    refine ⟨h, fun m hm => .inl fun o => PartMap.first?_eq_none ?_ o⟩
    rw [nextRange?, hm] at next
    exact Option.map_eq_none_iff.1 next
  | @nobody t u r next offer =>
    obtain ⟨m, -, hm, -, -⟩ := nextRange?_eq_some next
    have hpos : 0 < r.length := (nextRange_eq_some hm hchunk next).2.1
    rcases offer_accepting h.accepting h.linked r (t.tuning.selection.order t.loads t.cursor) with
      ⟨i, s, links, heq, -⟩ | ⟨heq, hnobody⟩
    · cases (Prod.mk.inj (heq.symm.trans offer)).2
    · obtain ⟨rfl, -⟩ := Prod.mk.inj (heq.symm.trans offer)
      refine ⟨h, fun _ _ => .inr fun s hs => ?_⟩
      obtain ⟨i, hi⟩ := List.mem_iff_getElem?.1 hs
      exact (Share.mayAsk_of_pos hpos s).symm.trans (hnobody i (mem_order_of_share hi) s hi)
  | @taken t u v r i next offer rest ih =>
    rcases offer_accepting h.accepting h.linked r (t.tuning.selection.order t.loads t.cursor) with
      ⟨j, s, links, heq, hs, -, hsize, haccepting⟩ | ⟨heq, -⟩
    · obtain ⟨rfl, -⟩ := Prod.mk.inj (heq.symm.trans offer)
      have hlinked : Tended { t with links } := ⟨haccepting, fun q hq => by
        show q.link < links.size
        rw [hsize]
        exact h.linked q hq, h.uniform⟩
      refine ih (hlinked.of rfl fun q hq => ?_) hchunk
      rcases List.mem_or_eq_of_mem_set hq with hq | rfl
      · exact ⟨q, hq, rfl, rfl⟩
      · exact ⟨s, List.mem_of_getElem? hs, rfl, rfl⟩
    · cases (Prod.mk.inj (heq.symm.trans offer)).2

theorem Tended.streaming (h : t.Tended) (hby : t.byParts = false) : ∀ s ∈ t.shares, s.canRequest = false := by
  intro s hs
  have hparts : s.caps.partRequests = false := by
    cases hl : t.shares with
    | nil =>
      rw [hl] at hs
      exact absurd hs List.not_mem_nil
    | cons q l =>
      rw [h.uniform s hs q (by rw [hl]; exact List.mem_cons_self)]
      rw [byParts, hl] at hby
      exact hby
  rw [Share.canRequest, hparts, Bool.and_false, Bool.false_and]

/-- After whatever is needed was asked for, nothing is needed or nobody can be asked. -/
theorem Tended.sendRequests (h : t.Tended) (hchunk : 1 ≤ t.tuning.maxChunk) (hopen : t.phase.isFinal = false) :
    t.sendRequests.Tended ∧ ∀ m, t.sendRequests.parts = some m → t.sendRequests.Conserving m := by
  unfold Transfer.sendRequests
  rw [hopen, Bool.false_or]
  split
  · next hby => exact ⟨h, fun m _ => .inr (h.streaming (by simpa using hby))⟩
  · exact (distributes_assign _ (Nat.le_refl _)).tended h hchunk

theorem sendRequests_of_conserving (h : ∀ m, t.parts = some m → t.Conserving m) : t.sendRequests = t := by
  cases hr : t.nextRange? with
  | none => exact sendRequests_of_none hr
  | some r =>
    obtain ⟨m, whole, hm, hfirst, -⟩ := nextRange?_eq_some hr
    rcases h m hm with hnone | hnobody
    · have hmem := PartMap.first?_eq_some hfirst
      have hin : whole.start ∈ whole := ⟨Nat.le_refl _, Nat.lt_add_of_pos_right (PartMap.pos_of_mem_parts hmem)⟩
      exact absurd ((PartMap.mem_parts hmem).2 _ hin) (hnone _)
    · unfold Transfer.sendRequests
      split
      · rfl
      · exact (distributes_iff.1 (.nobody hr (offer_nobody hnobody r _))).symm

end Transfer

end FileSwarm
