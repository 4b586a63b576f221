import FileSwarm.Proofs.Transfer.Scheduling

/-!
# Handing out ranges, turn by turn

Of the loop that asks for what is needed, one turn hands one range to the first peer in the order that takes it. What
was said to whom in a turn is told exactly here, and who has the range after it where nobody turns a request down.

* `declined_of_mem` : nobody is passed over in an offer who did not decline;
* `turn?`, `Turns` : a turn, and any number of them; `Distributes.ends` : how the loop ends; `declined_all` : it
  gives up when everybody declined, and not before;
* `Generous t` : every peer has room for a request and would take it; `Generous.turn` : the first in the order has the
  range then;
* `Even t`, `Turns.even`, `sendRequests_even` : the least loaded are asked first, and nobody falls behind by more than
  one.
-/

namespace FileSwarm

/-- A range was asked for, and the peer took it. -/
def Call.isTaken : Call → Bool
  | .range _ accepted => accepted
  | _ => false

namespace Transfer

variable {t u v w : Transfer} {r : ByteRange} {i : Nat}

/-! ## Who declines -/

theorem not_taken_of_mem_refusals {l : List Nat} : ∀ call ∈ t.refusals r l, call.2.isTaken = false := by
  intro call hcall
  obtain ⟨s, -, rfl⟩ := List.mem_map.1 (List.mem_toArray.1 hcall)
  rfl

/-- Whoever is at one of the positions could not be asked, or refused. -/
theorem declined_of_mem {l : List Nat} {s : Share} (hi : i ∈ l) (hs : t.shares[i]? = some s) :
    s.mayAsk r = false ∨ (s.link, .range r false) ∈ t.refusals r l := by
  cases hask : s.mayAsk r with
  | false => exact .inl rfl
  | true =>
    refine .inr (List.mem_toArray.2 (List.mem_map.2 ⟨s, List.mem_filter.2 ⟨?_, hask⟩, rfl⟩))
    exact List.mem_filterMap.2 ⟨i, hi, hs⟩

/-! ## A turn -/

/-- One turn of the loop: the range to be asked for next goes to the first peer that takes it. -/
def turn? (t : Transfer) : Option Transfer :=
  t.nextRange?.bind fun r =>
    match t.offer r (t.tuning.selection.order t.loads t.cursor) with
    | (u, some i) => some (u.note r i)
    | (_, none) => none

/-- Any number of turns. -/
def Turns : Transfer → Transfer → Prop := Relation.ReflTransGen fun t u => t.turn? = some u

theorem turn?_eq_some : t.turn? = some u ↔ ∃ r v i, t.nextRange? = some r ∧
    t.offer r (t.tuning.selection.order t.loads t.cursor) = (v, some i) ∧ u = v.note r i := by
  rw [turn?, Option.bind_eq_some_iff]
  constructor
  · rintro ⟨r, hr, h⟩
    split at h
    · next v i ho => exact ⟨r, v, i, hr, ho, (Option.some.inj h).symm⟩
    · cases h
  · rintro ⟨r, v, i, hr, ho, rfl⟩
    exact ⟨r, hr, by rw [ho]⟩

/-- A turn takes the next range off the order: all before the one that takes it decline. -/
theorem turn_told (h : t.turn? = some u) : ∃ r before i after links s, t.nextRange? = some r ∧
    t.tuning.selection.order t.loads t.cursor = before ++ i :: after ∧ t.shares[i]? = some s ∧ s.mayAsk r ∧
    links.size = t.links.size ∧ u = note { t with
      links
      sent := (t.sent ++ t.refusals r before).push (s.link, .range r true)
      shares := t.shares.set i (s.owe r) } r i := by
  obtain ⟨r, v, i, hr, ho, rfl⟩ := turn?_eq_some.1 h
  have htold := offer_told t r (t.tuning.selection.order t.loads t.cursor)
  rw [ho] at htold
  obtain ⟨before, after, links, s, horder, hs, hask, hlinks, rfl⟩ := htold
  exact ⟨r, before, i, after, links, s, hr, horder, hs, hask, hlinks, rfl⟩

theorem turn_frame (h : t.turn? = some u) : u.tuning = t.tuning ∧ u.phase = t.phase ∧
    u.shares.map (·.link) = t.shares.map (·.link) ∧ u.links.size = t.links.size ∧ t.sent.size ≤ u.sent.size := by
  obtain ⟨r, before, i, after, links, s, -, -, hs, -, hlinks, rfl⟩ := turn_told h
  refine ⟨rfl, rfl, map_set_eq (b := s.owe r) hs rfl, hlinks, ?_⟩
  show _ ≤ ((t.sent ++ t.refusals r before).push (s.link, Call.range r true)).size
  rw [Array.size_push, Array.size_append]
  omega

theorem Turns.frame (h : t.Turns u) : u.tuning = t.tuning ∧ u.phase = t.phase ∧
    u.shares.map (·.link) = t.shares.map (·.link) ∧ t.sent.size ≤ u.sent.size := by
  induction h with
  | refl => exact ⟨rfl, rfl, rfl, Nat.le_refl _⟩
  | tail _ hturn ih =>
    obtain ⟨htuning, hphase, hlinks, -, hsize⟩ := turn_frame hturn
    exact ⟨htuning.trans ih.1, hphase.trans ih.2.1, hlinks.trans ih.2.2.1, Nat.le_trans ih.2.2.2 hsize⟩

/-- The transfer after `k` turns, if there are so many. -/
def turned (t : Transfer) : Nat → Option Transfer
  | 0 => some t
  | k + 1 => (t.turned k).bind turn?

theorem Turns.turned (h : t.Turns u) : ∃ k, t.turned k = some u := by
  induction h with
  | refl => exact ⟨0, rfl⟩
  | tail _ hturn ih =>
    obtain ⟨k, hk⟩ := ih
    exact ⟨k + 1, by rw [Transfer.turned, hk]; exact hturn⟩

theorem turned_none {n k : Nat} (h : t.turned n = none) (hk : n ≤ k) : t.turned k = none := by
  induction k, hk using Nat.le_induction with
  | base => exact h
  | succ k _ ih => rw [turned, ih]; rfl

/-! ## The end of the loop -/

/-- The loop ends where nothing is needed, or where everybody in the order declines the next range. -/
theorem Distributes.ends (h : Distributes t u) : ∃ w, t.Turns w ∧ (w.nextRange? = none ∧ u = w ∨
    ∃ r links, w.nextRange? = some r ∧ links.size = w.links.size ∧ u = { w with
      links, sent := w.sent ++ w.refusals r (w.tuning.selection.order w.loads w.cursor) }) := by
  induction h with
  | @done t next => exact ⟨t, .refl, .inl ⟨next, rfl⟩⟩
  | @nobody t u r next offer =>
    have htold := offer_told t r (t.tuning.selection.order t.loads t.cursor)
    rw [offer] at htold
    obtain ⟨links, hlinks, hu⟩ := htold
    exact ⟨t, .refl, .inr ⟨r, links, next, hlinks, hu⟩⟩
  | taken next offer rest ih =>
    obtain ⟨w, hturns, hend⟩ := ih
    exact ⟨w, .head (turn?_eq_some.2 ⟨_, _, _, next, offer, rfl⟩) hturns, hend⟩

theorem Distributes.after (h : Distributes t u) (hturn : t.turn? = some v) : Distributes v u := by
  obtain ⟨r, x, i, hr, ho, rfl⟩ := turn?_eq_some.1 hturn
  cases h with
  | done next => exact nomatch next.symm.trans hr
  | nobody next offer =>
    obtain rfl := Option.some.inj (next.symm.trans hr)
    exact nomatch (Prod.mk.inj (offer.symm.trans ho)).2
  | taken next offer rest =>
    obtain rfl := Option.some.inj (next.symm.trans hr)
    obtain ⟨rfl, hi⟩ := Prod.mk.inj (offer.symm.trans ho)
    obtain rfl := Option.some.inj hi
    exact rest

theorem Turns.distributes (h : t.Turns w) (hd : Distributes t u) : Distributes w u := by
  induction h with
  | refl => exact hd
  | tail _ hturn ih => exact ih.after hturn

theorem distributes_sendRequests (hopen : t.phase.isFinal = false) (hby : t.byParts) :
    Distributes t t.sendRequests := by
  rw [sendRequests, hopen, hby]
  exact distributes_assign _ (Nat.le_refl _)

theorem Turns.size_le (h : t.Turns w) (hopen : t.phase.isFinal = false) (hby : t.byParts) :
    w.sent.size ≤ t.sendRequests.sent.size := by
  obtain ⟨x, hturns, ⟨-, heq⟩ | ⟨r, links, -, -, heq⟩⟩ := (h.distributes (distributes_sendRequests hopen hby)).ends
  · rw [heq]
    exact (Turns.frame hturns).2.2.2
  · rw [heq]
    refine Nat.le_trans (Turns.frame hturns).2.2.2 ?_
    show _ ≤ (x.sent ++ _).size
    rw [Array.size_append]
    exact Nat.le_add_right _ _

/-- Asking for what is needed goes on until nothing is needed, or until everybody who is attached declined one and the
same range. -/
theorem declined_all (hopen : t.phase.isFinal = false) (hby : t.byParts) : t.sendRequests.nextRange? = none ∨
    ∃ w r links refusals, t.Turns w ∧ w.nextRange? = some r ∧
      t.sendRequests = { w with links, sent := w.sent ++ refusals } ∧
      ∀ s ∈ w.shares, s.mayAsk r = false ∨ (s.link, .range r false) ∈ refusals := by
  obtain ⟨w, hturns, ⟨hnone, heq⟩ | ⟨r, links, hr, -, heq⟩⟩ := (distributes_sendRequests hopen hby).ends
  · exact .inl (heq ▸ hnone)
  · refine .inr ⟨w, r, links, _, hturns, hr, heq, fun s hs => ?_⟩
    obtain ⟨i, hi⟩ := List.mem_iff_getElem?.1 hs
    exact declined_of_mem (mem_order_of_share hi) hi

/-! ## Where nobody turns a request down -/

/-- Every peer has room for one more request, and would take it. -/
def Generous (t : Transfer) : Prop := ∀ s ∈ t.shares, s.canRequest ∧ (t.links.getD s.link default).answer

instance (t : Transfer) : Decidable t.Generous := inferInstanceAs (Decidable (∀ s ∈ t.shares, _))

theorem generous_turns {n : Nat} (hall : ∀ k < n, ∀ v ∈ t.turned k, v.Generous) (hlast : (t.turned n).isNone)
    (h : t.Turns u) : u.Generous := by
  obtain ⟨k, hk⟩ := h.turned
  rcases Nat.lt_or_ge k n with hlt | hge
  · exact hall k hlt u hk
  · exact nomatch hk.symm.trans (turned_none (Option.isNone_iff_eq_none.1 hlast) hge)

theorem Generous.turn (h : t.Generous) (hturn : t.turn? = some u) : ∃ r i links s,
    (t.tuning.selection.order t.loads t.cursor).head? = some i ∧ t.shares[i]? = some s ∧ links.size = t.links.size ∧
    u = note { t with
      links, sent := t.sent.push (s.link, .range r true), shares := t.shares.set i (s.owe r) } r i := by
  obtain ⟨r, v, i, hr, ho, rfl⟩ := turn?_eq_some.1 hturn
  have hpos : 0 < r.length := by
    have htold := offer_told t r (t.tuning.selection.order t.loads t.cursor)
    rw [ho] at htold
    obtain ⟨-, -, -, s, -, -, hask, -⟩ := htold
    exact (Share.mayAsk_iff.1 hask).1
  have hplaces : ∀ j ∈ t.tuning.selection.order t.loads t.cursor, j < t.shares.length := by
    intro j hj
    rw [Selection.mem_order_iff, loads, List.length_map] at hj
    exact hj
  generalize t.tuning.selection.order t.loads t.cursor = order at ho hplaces ⊢
  cases order with
  | nil => cases (Prod.mk.inj ho).2
  | cons j rest =>
    have hlt := hplaces j List.mem_cons_self
    have hq := List.getElem?_eq_getElem hlt
    obtain ⟨hable, hanswer⟩ := h _ (List.getElem_mem hlt)
    have hmay := Share.mayAsk_iff.2 ⟨hpos, hable⟩
    rw [offer, hq] at ho
    simp only [hmay, askRange, tell, hanswer, if_true] at ho
    obtain ⟨rfl, hi⟩ := Prod.mk.inj ho
    obtain rfl := Option.some.inj hi
    exact ⟨r, j, _, _, rfl, hq, Array.size_setIfInBounds, rfl⟩

/-- No two peers differ by more than one open request. -/
def Even (t : Transfer) : Prop := ∀ s ∈ t.shares, ∀ q ∈ t.shares, s.pending.length ≤ q.pending.length + 1

/-- The one that takes the next range has the fewest open requests. -/
theorem Even.turn (h : t.Even) (hsel : t.tuning.selection = .leastLoaded) (hgenerous : t.Generous)
    (hturn : t.turn? = some u) : u.Even := by
  obtain ⟨r, i, links, s, hhead, hs, -, rfl⟩ := hgenerous.turn hturn
  rw [hsel] at hhead
  have hleast : ∀ q ∈ t.shares, s.pending.length ≤ q.pending.length := by
    intro q hq
    obtain ⟨j, hj⟩ := List.mem_iff_getElem?.1 hq
    have hload : ∀ {k : Nat} {p : Share}, t.shares[k]? = some p → t.loads.getD k 0 = p.pending.length := by
      intro k p hk
      rw [loads, List.getD_eq_getElem?_getD, List.getElem?_map, hk]
      rfl
    have hle := Selection.head_leastLoaded hhead (j := j) (by
      rw [loads, List.length_map]
      exact (List.getElem?_eq_some_iff.1 hj).1)
    rwa [hload hs, hload hj] at hle
  have hmore : (s.owe r).pending.length = s.pending.length + 1 := List.length_append
  have hcases : ∀ q ∈ t.shares.set i (s.owe r), q ∈ t.shares ∨ q = s.owe r := fun q hq => List.mem_or_eq_of_mem_set hq
  intro q hq p hp
  rcases hcases q hq with hq | rfl <;> rcases hcases p hp with hp | rfl
  · exact h q hq p hp
  · rw [hmore]
    exact Nat.le_succ_of_le (h q hq s (List.mem_of_getElem? hs))
  · rw [hmore]
    exact Nat.succ_le_succ (hleast p hp)
  · exact Nat.le_succ _

theorem Turns.even (h : t.Turns u) (hsel : t.tuning.selection = .leastLoaded) (heven : t.Even)
    (hgenerous : ∀ v w, t.Turns v → v.turn? = some w → v.Generous) : u.Even := by
  induction h with
  | refl => exact heven
  | tail hbefore hturn ih =>
    have hsel' := (congrArg Tuning.selection (Turns.frame hbefore).1).trans hsel
    exact ih.turn hsel' (hgenerous _ _ hbefore hturn) hturn

/-- Asking the least loaded first leaves open requests even. -/
theorem sendRequests_even (hsel : t.tuning.selection = .leastLoaded) (heven : t.Even)
    (hgenerous : ∀ v w, t.Turns v → v.turn? = some w → v.Generous) : t.sendRequests.Even := by
  cases hact : t.phase.isFinal || !t.byParts with
  | true =>
    rw [sendRequests, hact]
    exact heven
  | false =>
    rw [Bool.or_eq_false_iff, Bool.not_eq_false'] at hact
    obtain ⟨w, hturns, hend⟩ := (distributes_sendRequests hact.1 hact.2).ends
    have hw := hturns.even hsel heven hgenerous
    rcases hend with ⟨-, heq⟩ | ⟨r, links, -, -, heq⟩ <;>
    · rw [heq]
      exact hw

end Transfer

end FileSwarm
