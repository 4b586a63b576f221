import FileSwarm.Proofs.Transfer.Ledger
import FileSwarm.Proofs.Transfer.Membership

/-!
# How much is asked of one peer

A peer is asked for a range only while its list is shorter than its budget. Bytes that arrive in the midst of a range
leave two of it in the list, so the list may grow longer than the budget; the requests it is left of may not become
more.

* `Share.Splits`, `length_remainders` : bytes in the midst of a range, and how long a list gets by them;
* `Outstanding` : a request with what is missing of it; `Outstanding.receive` : bytes came;
* `Share.Dealt` : a list that is what is missing of so many requests; `Dealt.owe`, `Dealt.receive` : it stays one;
* `Eases t u` : nobody owes more than before; one rule for each operation that is no request;
* `Budgeted` : the list of one peer; `Budgeted.operate` : it is kept by whatever happens;
* `budget_kept` : how many requests and how many ranges, all along a course; `middle_exceeds` : a range in two.
-/

namespace FileSwarm

/-! ## Ranges in pieces -/

namespace Share

/-- The bytes of `r` leave some of `p` on either side. -/
def Splits (r p : ByteRange) : Prop := p.start < r.start ∧ r.stop < p.stop

instance (r p : ByteRange) : Decidable (Splits r p) := inferInstanceAs (Decidable (_ ∧ _))

theorem remainder_ordered (p r : ByteRange) : (remainder p r).Pairwise fun x y => x.stop ≤ y.start := by
  rcases remainder_cases p r with h | ⟨a, b, ha, hab, hb, -, -, h⟩
  · rw [h]
    exact List.pairwise_singleton _ _
  · rw [h]
    refine List.Pairwise.filter _ (List.pairwise_pair.2 ?_)
    rw [ByteRange.stop_ofBounds ha]
    exact hab

theorem length_remainder (p r : ByteRange) : (remainder p r).length ≤ 1 + if Splits r p then 1 else 0 := by
  rcases remainder_cases p r with h | ⟨a, b, ha, hab, hb, hstart, hstop, h⟩
  · rw [h]
    exact Nat.le_add_right _ _
  · rw [h]
    split
    · exact List.length_filter_le _ _
    · next hends =>
      -- one of the two ends has no bytes
      rw [Splits, not_and_or] at hends
      have hempty : ∀ {x y : Nat}, y ≤ x → (!(ByteRange.ofBounds x y).isEmpty) = false := fun h => by
        simp [ByteRange.ofBounds, ByteRange.isEmpty, h]
      rcases hends with hends | hends
      · rw [List.filter_cons, hempty (show a ≤ p.start by omega)]
        exact List.length_filter_le _ _
      · rw [List.filter_cons, List.filter_cons, hempty (show p.stop ≤ b by omega)]
        split <;> simp

/-- Each range that is split makes the list longer by one. -/
theorem length_remainders (l : List ByteRange) (r : ByteRange) :
    (l.flatMap (remainder · r)).length ≤ l.length + l.countP (Splits r ·) := by
  induction l with
  | nil => exact Nat.le_refl _
  | cons p l ih =>
    have hp := length_remainder p r
    rw [List.flatMap_cons, List.length_append, List.length_cons, List.countP_cons]
    simp only [decide_eq_true_eq]
    omega

end Share

/-- A request some of whose bytes have not come, and what is missing of it. -/
structure Outstanding where
  range : ByteRange
  missing : List ByteRange
  some_missing : missing ≠ []
  inside : ∀ p ∈ missing, range.start ≤ p.start ∧ p.stop ≤ range.stop
  ordered : missing.Pairwise fun p q => p.stop ≤ q.start
  solid : 0 < range.length → ∀ p ∈ missing, 0 < p.length

namespace Outstanding

/-- Nothing of it has come. -/
def whole (r : ByteRange) : Outstanding :=
  ⟨r, [r], List.cons_ne_nil _ _, fun p hp => by
    rw [List.mem_singleton.1 hp]
    exact ⟨Nat.le_refl _, Nat.le_refl _⟩, List.pairwise_singleton _ _, fun hr p hp => by rwa [List.mem_singleton.1 hp]⟩

/-- The bytes of `r` came, perhaps the last that were missing. -/
def receive (g : Outstanding) (r : ByteRange) : Option Outstanding :=
  if h : g.missing.flatMap (Share.remainder · r) = [] then none
  else some
    { range := g.range
      missing := g.missing.flatMap (Share.remainder · r)
      some_missing := h
      inside := fun q hq => by
        obtain ⟨p, hp, hq⟩ := List.mem_flatMap.1 hq
        obtain ⟨hstart, hstop⟩ := g.inside p hp
        obtain ⟨hstart', hstop'⟩ := Share.remainder_inside hq
        exact ⟨Nat.le_trans hstart hstart', Nat.le_trans hstop' hstop⟩
      ordered := by
        refine List.pairwise_flatMap.2
          ⟨fun p _ => Share.remainder_ordered p r, g.ordered.imp fun {p q} h x hx y hy => ?_⟩
        exact Nat.le_trans (Share.remainder_inside hx).2 (Nat.le_trans h (Share.remainder_inside hy).1)
      solid := fun hr q hq => by
        obtain ⟨p, hp, hq⟩ := List.mem_flatMap.1 hq
        exact Share.pos_of_mem_remainder (g.solid hr p hp) hq }

theorem range_receive {g h : Outstanding} {r : ByteRange} (hg : g.receive r = some h) : h.range = g.range := by
  unfold receive at hg
  split at hg
  · exact nomatch hg
  · rw [← Option.some.inj hg]

/-- What is missing of all of them. -/
def missings (l : List Outstanding) : List ByteRange := l.flatMap (·.missing)

theorem missings_receive (l : List Outstanding) (r : ByteRange) :
    missings (l.filterMap (·.receive r)) = (missings l).flatMap (Share.remainder · r) := by
  induction l with
  | nil => rfl
  | cons g l ih =>
    have hsplit : (missings (g :: l)).flatMap (Share.remainder · r) =
        g.missing.flatMap (Share.remainder · r) ++ missings (l.filterMap (·.receive r)) := by
      rw [missings, List.flatMap_cons, List.flatMap_append, ih]
      rfl
    rw [hsplit, List.filterMap_cons, receive]
    split
    · next hnone =>
      split at hnone
      · next hempty => rw [hempty, List.nil_append]
      · exact nomatch hnone
    · next h hsome =>
      split at hsome
      · exact nomatch hsome
      · rw [← Option.some.inj hsome]
        rfl

theorem length_le_missings (l : List Outstanding) : l.length ≤ (missings l).length := by
  induction l with
  | nil => exact Nat.le_refl _
  | cons g l ih =>
    have hpos := List.length_pos_iff.2 g.some_missing
    have hlength : (missings (g :: l)).length = g.missing.length + (missings l).length := by
      rw [missings, List.flatMap_cons, List.length_append]
      rfl
    rw [List.length_cons, hlength]
    omega

end Outstanding

/-! ## Lists within a budget -/

namespace Share

/-- What is owed is missing of no more than `limit` requests that were `asked`; it is in no more ranges than that, and
`splits` beside. -/
structure Dealt (s : Share) (limit splits : Nat) (asked : ByteRange → Prop) : Prop where
  ranges : s.pending.length ≤ limit + splits
  requests : ∃ l : List Outstanding, s.pending = Outstanding.missings l ∧ l.length ≤ limit ∧ ∀ g ∈ l, asked g.range

variable {s q : Share} {limit splits : Nat} {asked wanted : ByteRange → Prop}

theorem dealt_of_empty (h : s.pending = []) : s.Dealt limit splits asked :=
  ⟨by rw [h]; exact Nat.zero_le _, [], h, Nat.zero_le _, nofun⟩

theorem Dealt.mono (h : s.Dealt limit splits asked) (hlist : q.pending = s.pending) {more : Nat} (hmore : splits ≤ more)
    (hasked : ∀ r, asked r → wanted r) : q.Dealt limit more wanted := by
  obtain ⟨l, hl, hlength, hall⟩ := h.requests
  refine ⟨?_, l, hlist.trans hl, hlength, fun g hg => hasked _ (hall g hg)⟩
  rw [hlist]
  exact Nat.le_trans h.ranges (Nat.add_le_add_left hmore _)

theorem dealt_brought (h : s.pending.length ≤ limit) (hasked : ∀ r ∈ s.pending, asked r) :
    s.Dealt limit splits asked := by
  refine ⟨Nat.le_trans h (Nat.le_add_right _ _), s.pending.map Outstanding.whole, ?_, by rwa [List.length_map], ?_⟩
  · rw [Outstanding.missings, List.flatMap_map]
    exact (List.flatMap_singleton' s.pending).symm
  · rintro g hg
    obtain ⟨r, hr, rfl⟩ := List.mem_map.1 hg
    exact hasked r hr

theorem Dealt.owe (h : s.Dealt limit splits asked) (hroom : s.pending.length < limit) {r : ByteRange} (hr : asked r) :
    (s.owe r).Dealt limit splits asked := by
  obtain ⟨l, hl, -, hall⟩ := h.requests
  have hlength := Outstanding.length_le_missings l
  rw [← hl] at hlength
  refine ⟨?_, l ++ [.whole r], ?_, ?_, fun g hg => ?_⟩
  · show (s.pending ++ [r]).length ≤ _
    rw [List.length_append, List.length_singleton]
    omega
  · rw [Outstanding.missings, List.flatMap_append, ← Outstanding.missings, ← hl]
    rfl
  · rw [List.length_append, List.length_singleton]
    omega
  · rcases List.mem_append.1 hg with hg | hg
    · exact hall g hg
    · rw [List.mem_singleton.1 hg]
      exact hr

theorem Dealt.receive (h : s.Dealt limit splits asked) (r : ByteRange) {more : Nat}
    (hmore : s.pending.countP (Splits r ·) ≤ more) : (s.receive r).Dealt limit (splits + more) asked := by
  obtain ⟨l, hl, hlength, hall⟩ := h.requests
  have hranges := h.ranges
  refine ⟨?_, l.filterMap (·.receive r), ?_, Nat.le_trans (List.length_filterMap_le _ _) hlength, fun g hg => ?_⟩
  · have hreceived : (s.receive r).pending.length ≤ s.pending.length + s.pending.countP (Splits r ·) :=
      length_remainders s.pending r
    omega
  · rw [Outstanding.missings_receive, ← hl]
    rfl
  · obtain ⟨g', hg', hreceive⟩ := List.mem_filterMap.1 hg
    rw [Outstanding.range_receive hreceive]
    exact hall g' hg'

end Share

namespace Transfer

variable {t u v : Transfer}

/-! ## Operations that are no requests -/

/-- Every peer that is attached was, and owes what it owed or nothing. -/
structure Eases (t u : Transfer) : Prop where
  shares : ∀ s ∈ u.shares, ∃ q ∈ t.shares, s.id = q.id ∧ s.link = q.link ∧ s.budget = q.budget ∧
    (s.pending = q.pending ∨ s.pending = [])
  sent : ∃ more, u.sent = t.sent ++ more

theorem eases_of_map (f : Share → Share) (hf : ∀ s, (f s).id = s.id ∧ (f s).link = s.link ∧ (f s).budget = s.budget ∧
    ((f s).pending = s.pending ∨ (f s).pending = [])) (hshares : u.shares = t.shares.map f)
    (hsent : ∃ more, u.sent = t.sent ++ more) : Eases t u := by
  refine ⟨fun s hs => ?_, hsent⟩
  rw [hshares] at hs
  obtain ⟨q, hq, rfl⟩ := List.mem_map.1 hs
  exact ⟨q, hq, hf q⟩

theorem eases_of_subset (hshares : u.shares ⊆ t.shares) (hsent : ∃ more, u.sent = t.sent ++ more) : Eases t u :=
  ⟨fun s hs => ⟨s, hshares hs, rfl, rfl, rfl, .inl rfl⟩, hsent⟩

theorem eases_of_eq (hshares : u.shares = t.shares) (hsent : u.sent = t.sent) : Eases t u :=
  eases_of_subset (hshares ▸ List.Subset.refl _) ⟨#[], by rw [hsent, Array.append_empty]⟩

theorem Eases.refl (t : Transfer) : Eases t t := eases_of_eq rfl rfl

theorem Eases.trans (h : Eases t u) (k : Eases u v) : Eases t v := by
  obtain ⟨a, ha⟩ := h.sent
  obtain ⟨b, hb⟩ := k.sent
  refine ⟨fun s hs => ?_, a ++ b, by rw [hb, ha, Array.append_assoc]⟩
  obtain ⟨q, hq, hid, hlink, hbudget, hpending⟩ := k.shares s hs
  obtain ⟨p, hp, hid', hlink', hbudget', hpending'⟩ := h.shares q hq
  refine ⟨p, hp, hid.trans hid', hlink.trans hlink', hbudget.trans hbudget', ?_⟩
  rcases hpending with hpending | hpending
  · rwa [hpending]
  · exact .inr hpending

theorem Eases.books (h : Eases t u) (hshares : v.shares = u.shares) (hsent : v.sent = u.sent) : Eases t v :=
  h.trans (eases_of_eq hshares hsent)

theorem eases_setPhase (t : Transfer) (p : Phase) : Eases t (t.setPhase p) := eases_of_eq (by simp) (by simp)

theorem eases_fetchAll (t : Transfer) : Eases t t.fetchAll := eases_of_eq (by simp) (by simp)

theorem eases_tellAll (t : Transfer) (c : Call) : Eases t (t.tellAll c) := by
  rw [tellAll_eq]
  exact eases_of_subset (List.Subset.refl _) ⟨_, rfl⟩

theorem eases_complete (t : Transfer) : Eases t t.complete := by
  unfold complete
  split
  · exact .refl t
  · exact eases_of_eq (by simp [notify]) (by simp [notify])

theorem eases_breakDown (t : Transfer) (why : Breakage) : Eases t (t.breakDown why) := by
  unfold breakDown
  split
  · exact .refl t
  · dsimp only
    rw [tellAll_eq]
    exact eases_of_map Share.markBroken (fun _ => ⟨rfl, rfl, rfl, .inl rfl⟩) (by simp [notify])
      ⟨_, by simp [notify]; rfl⟩

theorem eases_abort (t : Transfer) : Eases t t.abort := by
  have htold : Eases t (Transfer.tellAll { t with aborted := true } .abort) :=
    (eases_of_eq rfl rfl : Eases t { t with aborted := true }).trans (eases_tellAll _ _)
  unfold abort
  split
  · exact .refl t
  · dsimp only
    split
    · exact htold.books (by simp) (by simp)
    · exact htold.books (by simp) (by simp)

theorem eases_checkComplete (t : Transfer) : Eases t t.checkComplete := by
  unfold checkComplete
  dsimp only
  split
  · exact eases_of_eq (by simp [queueJob]) (by simp [queueJob])
  · exact (eases_setPhase t _).trans (eases_complete _)

theorem eases_ensureSignature (t : Transfer) : Eases t t.ensureSignature := by
  rcases ensureSignature_cases t with e | ⟨-, owing, e⟩
  · rw [e]
    exact .refl t
  · rw [e]
    have howing : Eases t { t with owing } := eases_of_eq rfl rfl
    rcases askSignature_cases { t with owing } with ⟨s, -, -, -, -, e⟩ | e | ⟨-, e⟩
    · rw [e]
      refine howing.trans (Eases.trans ?_ (eases_setPhase _ _))
      exact eases_of_subset (List.Subset.refl _) ⟨#[_], rfl⟩
    · rw [e]
      exact howing
    · rw [e]
      exact howing.trans (eases_fetchAll _)

theorem eases_start (t : Transfer) (id : String) : Eases t (t.updateShare id Share.start) := by
  refine eases_of_map (fun s => if s.id == id then s.start else s) (fun s => ?_) rfl ⟨#[], by simp [updateShare]⟩
  split <;> exact ⟨rfl, rfl, rfl, .inl rfl⟩

theorem eases_afresh (t : Transfer) : Eases t t.afresh :=
  eases_of_map Share.takePending (fun _ => ⟨rfl, rfl, rfl, .inr rfl⟩) rfl ⟨#[], by simp [afresh]⟩

theorem eases_detach (t : Transfer) (s : Share) : Eases t (t.detach s) :=
  eases_of_subset List.eraseP_subset ⟨#[], by simp [detach]⟩

/-! ## The list of one peer -/

/-- All that a peer owes. -/
def owes (t : Transfer) (id : String) : List ByteRange := (t.shares.filter (·.id == id)).flatMap (·.pending)

/-- What the peer `id` owes is within the limit, its budget too, and each of the requests was accepted by it or
`brought` along. -/
def Budgeted (id : String) (limit splits : Nat) (brought : ByteRange → Prop) (t : Transfer) : Prop :=
  ∀ s ∈ t.shares, s.id = id → s.budget ≤ limit ∧
    s.Dealt limit splits fun r => (s.link, .range r true) ∈ t.sent.toList ∨ brought r

section Budgeted

variable {id : String} {limit splits : Nat} {brought : ByteRange → Prop}

theorem Budgeted.more (h : t.Budgeted id limit splits brought) (more : Nat) :
    t.Budgeted id limit (splits + more) brought := fun s hs hid =>
  ⟨(h s hs hid).1, (h s hs hid).2.mono rfl (Nat.le_add_right _ _) fun _ hr => hr⟩

theorem Budgeted.eases (h : t.Budgeted id limit splits brought) (k : Eases t u) :
    u.Budgeted id limit splits brought := by
  intro s hs hid
  obtain ⟨q, hq, hname, hlink, hbudget, hpending⟩ := k.shares s hs
  obtain ⟨more, hmore⟩ := k.sent
  obtain ⟨hle, hdealt⟩ := h q hq (hname ▸ hid)
  refine ⟨hbudget ▸ hle, ?_⟩
  rcases hpending with hpending | hpending
  · refine hdealt.mono hpending (Nat.le_refl _) fun r hr => hr.imp_left fun hr => ?_
    rw [hlink, hmore, Array.toList_append]
    exact List.mem_append_left _ hr
  · exact Share.dealt_of_empty hpending

/-- Whoever takes a request may be asked, so there was room for it. -/
theorem Budgeted.tells (h : t.Budgeted id limit splits brought) (k : Tells t u) :
    u.Budgeted id limit splits brought := by
  cases k with
  | refused =>
    refine h.eases (eases_of_subset (List.Subset.refl _) ⟨#[_], rfl⟩)
  | @taken r i s next share mayAsk answer =>
    have hsent : (note { (t.askRange s.link r).1 with shares := t.shares.set i (s.owe r) } r i).sent =
        t.sent.push (s.link, .range r (t.askRange s.link r).2) := rfl
    have hkept : ∀ call ∈ t.sent.toList,
        call ∈ (note { (t.askRange s.link r).1 with shares := t.shares.set i (s.owe r) } r i).sent.toList := by
      intro call hcall
      rw [hsent, Array.toList_push]
      exact List.mem_append_left _ hcall
    intro q hq hid
    rcases List.mem_or_eq_of_mem_set hq with hq | rfl
    · obtain ⟨hle, hdealt⟩ := h q hq hid
      exact ⟨hle, hdealt.mono rfl (Nat.le_refl _) fun r hr => hr.imp_left (hkept _)⟩
    · obtain ⟨hle, hdealt⟩ := h s (List.mem_of_getElem? share) hid
      obtain ⟨-, hable⟩ := Share.mayAsk_iff.1 mayAsk
      simp only [Share.canRequest, Bool.and_eq_true, decide_eq_true_eq] at hable
      have hroom : s.pending.length < limit := Nat.lt_of_lt_of_le hable.2 hle
      have hgrown := hdealt.mono (q := s) rfl (Nat.le_refl splits) fun r hr => hr.imp_left (hkept _)
      refine ⟨hle, hgrown.owe hroom (.inl ?_)⟩
      rw [hsent, answer, Array.toList_push]
      exact List.mem_append_right _ List.mem_cons_self

theorem Budgeted.round (h : t.Budgeted id limit splits brought) (k : Round t u) :
    u.Budgeted id limit splits brought := by
  induction k with
  | refl => exact h
  | tail _ htells ih => exact ih.tells htells

theorem Budgeted.sendRequests (h : t.Budgeted id limit splits brought) :
    t.sendRequests.Budgeted id limit splits brought :=
  h.round (round_sendRequests t)

theorem Budgeted.seat (h : t.Budgeted id limit splits brought) {s : Share} (answers : Nat → Bool)
    (hbudget : max t.tuning.maxRequests 1 ≤ limit)
    (hbrought : s.id = id → s.pending.length ≤ limit ∧ ∀ r ∈ s.pending, brought r) :
    (t.seat s answers).Budgeted id limit splits brought := by
  intro q hq hid
  rcases List.mem_append.1 hq with hq | hq
  · obtain ⟨hle, hdealt⟩ := h q hq hid
    refine ⟨hle, hdealt.mono rfl (Nat.le_refl _) fun r hr => hr.imp_left fun hr => ?_⟩
    rw [Transfer.seat, Array.toList_push]
    exact List.mem_append_left _ hr
  · obtain rfl := List.mem_singleton.1 hq
    obtain ⟨hlength, hall⟩ := hbrought hid
    exact ⟨hbudget, Share.dealt_brought hlength fun r hr => .inr (hall r hr)⟩

/-- Bytes came: those in the midst of a range of the peer they came from leave two of it. -/
theorem Budgeted.credited (h : t.Budgeted id limit splits brought) (sender : String) (r : ByteRange) (m : PartMap) :
    (t.credited sender r m).Budgeted id limit
      (splits + if sender = id then (t.owes id).countP (Share.Splits r ·) else 0) brought := by
  intro q hq hid
  obtain ⟨s, hs, rfl⟩ := List.mem_map.1 hq
  by_cases hsender : s.id == sender
  · rw [if_pos hsender] at hid ⊢
    have hmine : sender = id := (beq_iff_eq.1 hsender).symm.trans hid
    obtain ⟨hle, hdealt⟩ := h s hs hid
    refine ⟨hle, hdealt.receive r ?_⟩
    rw [if_pos hmine]
    have hmem : s ∈ t.shares.filter (·.id == id) := List.mem_filter.2 ⟨hs, beq_iff_eq.2 hid⟩
    rw [owes, List.flatMap_def]
    exact (List.sublist_flatten_of_mem (List.mem_map_of_mem hmem)).countP_le
  · rw [if_neg hsender] at hid ⊢
    exact h.more _ s hs hid

end Budgeted

end Transfer

namespace Course

open Transfer

variable {c : Course} {id : String} {limit splits : Nat} {brought : ByteRange → Prop}

/-- How many of the ranges that the peer `id` owes are split by what happens. -/
def middles (c : Course) (id : String) : Event → Nat
  | .chunk sender offset bytes =>
    if sender = id ∧ 0 < bytes.size then (c.transfer.owes id).countP (Share.Splits ⟨offset, bytes.size⟩ ·) else 0
  | _ => 0

/-- How many in all. -/
def middlesIn (c : Course) (id : String) : List Event → Nat
  | [] => 0
  | e :: events => c.middles id e + (c.step e).middlesIn id events

theorem middlesIn_snoc (c : Course) (id : String) (events : List Event) (e : Event) :
    c.middlesIn id (events ++ [e]) = c.middlesIn id events + (c.run events).middles id e := by
  induction events generalizing c with
  | nil => exact Nat.add_comm _ _
  | cons a events ih =>
    rw [List.cons_append, middlesIn, middlesIn, ih, Nat.add_assoc]
    rfl

theorem budgeted_finishDelta {t : Transfer} (h : t.Budgeted id limit splits brought) (r : Except Failure PartMap) :
    (t.finishDelta r).Budgeted id limit splits brought := by
  cases r with
  | error f => exact h.eases (eases_breakDown t _)
  | ok m =>
    have hinstalled : (t.installed m).Budgeted id limit splits brought := h.eases (eases_of_eq rfl rfl)
    rcases finishDelta_cases t m with ⟨-, heq⟩ | heq
    · rw [heq]
      exact hinstalled.eases (eases_checkComplete _)
    · rw [heq]
      exact (hinstalled.eases (eases_setPhase _ _)).sendRequests

theorem budgeted_finishVerify {t : Transfer} (h : t.Budgeted id limit splits brought) (r : Except Failure Bool) :
    (t.finishVerify r).Budgeted id limit splits brought := by
  match r with
  | .error f => exact h.eases (eases_breakDown t _)
  | .ok true =>
    have hright : ({ t with mismatches := 0 } : Transfer).Budgeted id limit splits brought :=
      h.eases (eases_of_eq rfl rfl)
    exact hright.eases (eases_complete _)
  | .ok false =>
    have hwrong : ({ t with mismatches := t.mismatches + 1, metrics := t.metrics.mismatch } : Transfer).Budgeted id
        limit splits brought := h.eases (eases_of_eq rfl rfl)
    unfold finishVerify
    dsimp only
    split
    · exact hwrong.eases (eases_breakDown _ _)
    · exact ((h.eases (eases_afresh t)).eases (eases_setPhase _ _)).sendRequests

theorem budgeted_receiveSignature {t : Transfer} (h : t.Budgeted id limit splits brought) (s : Signature) :
    (t.receiveSignature s).Budgeted id limit splits brought := by
  have hlearned : ({ t with signature := some s, owing := none } : Transfer).Budgeted id limit splits brought :=
    h.eases (eases_of_eq rfl rfl)
  unfold receiveSignature
  split
  · exact h
  · split
    · exact h.eases (eases_breakDown t _)
    · split
      · exact h.eases (eases_breakDown t _)
      · dsimp only
        split
        · exact hlearned
        · split
          · exact (hlearned.eases (eases_fetchAll _)).sendRequests
          · exact hlearned
          · exact hlearned.eases (eases_of_eq (by simp [queueJob]) (by simp [queueJob]))

theorem budgeted_accept {t : Transfer} (h : t.Budgeted id limit splits brought) (epoch : Nat) {f : Transfer → Transfer}
    (hf : (f t).Budgeted id limit splits brought) : (t.accept epoch f).Budgeted id limit splits brought := by
  unfold accept
  split
  · exact hf
  · exact h

theorem budgeted_work {t : Transfer} (h : t.Budgeted id limit splits brought) (task : Task) :
    (task.step t).1.Budgeted id limit splits brought := by
  cases hwork : task.isWork with
  | true =>
    obtain ⟨disk, next, hstep, -⟩ := work_follows t hwork
    rw [hstep]
    exact h.eases (eases_of_eq rfl rfl)
  | false =>
    cases task with
    | searched epoch s candidate temp found =>
      cases found with
      | ok l => exact budgeted_accept h epoch (h.eases (eases_setPhase t _))
      | error f => exact budgeted_accept h epoch (budgeted_finishDelta h (.error f))
    | copied epoch r => exact budgeted_accept h epoch (budgeted_finishDelta h r)
    | hashed epoch r => exact budgeted_accept h epoch (budgeted_finishVerify h r)
    | _ => cases hwork

theorem budgeted_join (h : c.transfer.Budgeted id limit splits brought) (share : Share) (answers : Nat → Bool)
    (hbudget : c.transfer.phase.isFinal = false → max c.transfer.tuning.maxRequests 1 ≤ limit)
    (hbrought : share.id = id → share.pending.length ≤ limit ∧ ∀ r ∈ share.pending, brought r) :
    (c.operate (.join share answers)).1.Budgeted id limit splits brought := by
  have hconnected : (c.transfer.connect ⟨share.id, answers, 0⟩).1.Budgeted id limit splits brought :=
    h.eases (eases_of_eq rfl rfl)
  cases hfinal : c.transfer.phase.isFinal with
  | true =>
    rw [operate, addPeer, if_pos (show (c.transfer.connect _).1.phase.isFinal from hfinal)]
    exact hconnected
  | false =>
    by_cases hrefused : c.transfer.isAttached share.id ∨
        ∃ why, c.transfer.admission.refusal? c.transfer.shares.length c.transfer.byParts share.caps = some why
    · rw [operate, addPeer_refused hfinal hrefused]
      exact hconnected
    · rw [not_or, Bool.not_eq_true, not_exists] at hrefused
      have hseat := h.seat answers (hbudget hfinal) hbrought
      have henter : (c.transfer.seat share answers).enter.Budgeted id limit splits brought := by
        unfold enter
        split
        · exact hseat.eases (eases_setPhase _ _)
        · exact hseat
      rw [operate, addPeer_eq hfinal hrefused.1 (Option.eq_none_iff_forall_ne_some.2 hrefused.2)]
      split
      · exact hseat.eases (eases_complete _)
      · exact (henter.eases (eases_ensureSignature _)).sendRequests

theorem budgeted_leave {t : Transfer} (h : t.Budgeted id limit splits brought) (name : String) :
    (t.removePeer name).1.Budgeted id limit splits brought := by
  cases hs : t.share? name with
  | none =>
    rw [removePeer, hs]
    exact h
  | some s =>
    cases hfinal : t.phase.isFinal with
    | true =>
      rw [removePeer, hs]
      dsimp only
      rw [if_pos hfinal]
      exact h.eases (eases_of_subset List.eraseP_subset ⟨#[], by simp⟩)
    | false =>
      rw [removePeer_eq hs hfinal]
      exact ((h.eases (eases_detach t s)).eases (eases_ensureSignature _)).sendRequests

theorem budgeted_creditChunk {t : Transfer} {sender : String} {r : ByteRange} {m : PartMap}
    (h : (t.credited sender r m).Budgeted id limit splits brought) :
    (t.creditChunk sender r m).Budgeted id limit splits brought := by
  unfold creditChunk
  dsimp only
  split
  · exact h.eases (eases_checkComplete _)
  · exact h.sendRequests

theorem budgeted_chunk (h : c.transfer.Budgeted id limit splits brought) (sender : String) (offset : Nat)
    (bytes : ByteArray) : (c.operate (.chunk sender offset bytes)).1.Budgeted id limit
      (splits + c.middles id (.chunk sender offset bytes)) brought := by
  rw [operate]
  cases hc : c.transfer.receiveChunk sender offset bytes with
  | error f => exact h.more _
  | ok u =>
    show u.Budgeted _ _ _ _
    rcases receiveChunk_eq hc with rfl | ⟨-, ⟨why, rfl⟩ | ⟨-, hpos, -, m, temp, disk, -, -, -, rfl⟩⟩
    · exact h.more _
    · exact (h.more _).eases (eases_breakDown _ _)
    · have hdisk : ({ c.transfer with disk } : Transfer).Budgeted id limit splits brought :=
        h.eases (eases_of_eq rfl rfl)
      have hcredited := hdisk.credited sender ⟨offset, bytes.size⟩ m
      have hcount : c.middles id (.chunk sender offset bytes) = if sender = id then
          ({ c.transfer with disk } : Transfer).owes id |>.countP (Share.Splits ⟨offset, bytes.size⟩ ·) else 0 :=
        if_congr (and_iff_left hpos) rfl rfl
      rw [hcount]
      exact budgeted_creditChunk hcredited

theorem budgeted_operate (h : c.transfer.Budgeted id limit splits brought) (e : Event)
    (hbudget : c.transfer.phase.isFinal = false → max c.transfer.tuning.maxRequests 1 ≤ limit)
    (hbrought : ∀ share answers, e = .join share answers → share.id = id →
      share.pending.length ≤ limit ∧ ∀ r ∈ share.pending, brought r) :
    (c.operate e).1.Budgeted id limit (splits + c.middles id e) brought := by
  cases e with
  | join share answers => exact budgeted_join h share answers hbudget (hbrought share answers rfl)
  | ready name =>
    rw [operate]
    unfold peerReady
    split
    · exact h
    · split
      · exact h
      · exact ((h.eases (eases_start _ _)).eases (eases_ensureSignature _)).sendRequests
  | leave name => exact budgeted_leave h name
  | chunk sender offset bytes => exact budgeted_chunk h sender offset bytes
  | signature s => exact budgeted_receiveSignature h s
  | send => exact h.sendRequests
  | breakByCaller => exact h.eases (eases_breakDown _ _)
  | abort => exact h.eases (eases_abort _)
  | cleanUp => exact h.eases ((eases_abort _).books rfl rfl)
  | work i =>
    rw [operate]
    cases c.tasks[i]? with
    | none => exact h
    | some task => exact budgeted_work h task
  | crash i message =>
    rw [operate]
    cases c.tasks[i]? with
    | none => exact h
    | some task => exact budgeted_accept h task.epoch (h.eases (eases_breakDown _ _))
  | edit disk =>
    rw [operate]
    split
    · exact h.eases (eases_of_eq rfl rfl)
    · exact h

/-- A peer brings along the ranges that its share has when it joins. -/
def Brings (events : List Event) (id : String) (r : ByteRange) : Prop :=
  ∃ share answers, .join share answers ∈ events ∧ share.id = id ∧ r ∈ share.pending

/-- Of every peer that is attached, at any time: what it owes is what is missing of so many requests, which it
accepted or brought along, that their number is within its budget, or is no more than it brought. In the list are
that many ranges, and one more for each range in the midst of which bytes came from the peer. -/
theorem budget_kept {target : Target} {tuning : Tuning} {admission : Admission} {disk made : Disk} {t : Transfer}
    (h : Transfer.create target tuning admission disk = (.ok t, made)) (events : List Event) (id : String) (k : Nat)
    (hbrought : ∀ share answers, .join share answers ∈ events → share.id = id → share.pending.length ≤ k) :
    let c := (start t).run events
    let limit := max (max 1 tuning.maxRequests) k
    ∀ s ∈ c.transfer.shares, s.id = id →
      s.pending.length ≤ limit + (start t).middlesIn id events ∧
      ∃ l : List Outstanding, s.pending = l.flatMap (·.missing) ∧ l.length ≤ limit ∧
        ∀ g ∈ l, (s.link, .range g.range true) ∈ c.transfer.sent.toList ∨ Brings events id g.range := by
  have huntouched := create_untouched h
  have hstart : Orderly (start t) := orderly_start huntouched
  intro c limit
  have hbudgeted : ((start t).run events).transfer.Budgeted id limit ((start t).middlesIn id events)
      (Brings events id) := by
    suffices hpart : ∀ done : List Event, done ⊆ events →
        ((start t).run done).transfer.Budgeted id limit ((start t).middlesIn id done) (Brings events id) from
      hpart events (List.Subset.refl _)
    intro done
    induction done using List.reverseRecOn with
    | nil =>
      intro _ s hs
      have hnobody : (start t).transfer.shares = [] := huntouched.shares
      rw [run_nil, hnobody] at hs
      exact absurd hs List.not_mem_nil
    | append_singleton done e ih =>
      intro hdone
      have hbefore := ih fun a ha => hdone (List.mem_append_left _ ha)
      have he : e ∈ events := hdone (by simp)
      rw [run_snoc, middlesIn_snoc, step_eq (hstart.run done).emptied]
      refine Transfer.Budgeted.eases (t := (((start t).run done).operate e).1) ?_ (eases_of_eq rfl rfl)
      refine budgeted_operate hbefore e (fun hopen => ?_) ?_
      · have htuning : ((start t).run done).transfer.tuning = tuning :=
          (hstart.made_run done hopen).tuning.trans huntouched.tuning
        rw [htuning, Nat.max_comm]
        exact Nat.le_max_left _ _
      · rintro share answers rfl hid
        exact ⟨Nat.le_trans (hbrought share answers he hid) (Nat.le_max_right _ _),
          fun r hr => ⟨share, answers, he, hid, hr⟩⟩
  intro s hs hid
  have hdealt := (hbudgeted s hs hid).2
  exact ⟨hdealt.ranges, hdealt.requests⟩

/-- A peer with a budget of one was asked for three bytes, and has sent the second. -/
def middleEvents : List Event :=
  [.join (.fresh "a" .full 0) fun _ => true, .ready "a", .chunk "a" 1 ⟨#[2]⟩]

def middleTransfer : Transfer := plainTransfer 3 { Tuning.standard with maxRequests := 1 } .swarming

theorem middle_kept :
    (∀ share answers, .join share answers ∈ middleEvents → share.id = "a" → share.pending.length ≤ 0) ∧
    ((start middleTransfer).run middleEvents).transfer.shares.map (·.pending) = [[⟨0, 1⟩, ⟨2, 1⟩]] ∧
    (start middleTransfer).middlesIn "a" middleEvents = 1 ∧
    ∀ s ∈ ((start middleTransfer).run middleEvents).transfer.shares, s.id = "a" →
      s.pending.length ≤ 1 + 1 ∧ ∃ l : List Outstanding, s.pending = l.flatMap (·.missing) ∧ l.length ≤ 1 := by
  have hbrought : ∀ share answers, .join share answers ∈ middleEvents → share.id = "a" → share.pending.length ≤ 0 := by
    simp [middleEvents, Share.fresh]
  have hmiddles : (start middleTransfer).middlesIn "a" middleEvents = 1 := by decide +kernel
  refine ⟨hbrought, by decide +kernel, hmiddles, fun s hs hid => ?_⟩
  have hkept := budget_kept (create_plain 3 { Tuning.standard with maxRequests := 1 } .swarming) middleEvents "a" 0
    hbrought s hs hid
  obtain ⟨hranges, l, hl, hlength, -⟩ := hkept
  exact ⟨hmiddles ▸ hranges, l, hl, hlength⟩

/-- A peer may owe more ranges than its budget allows requests. -/
theorem middle_exceeds :
    ¬ ∀ (target : Target) (tuning : Tuning) (admission : Admission) (disk made : Disk) (t : Transfer),
      Transfer.create target tuning admission disk = (.ok t, made) → ∀ events : List Event, (∀ e ∈ events, e.Fresh) →
        ∀ s ∈ ((start t).run events).transfer.shares, s.pending.length ≤ max 1 tuning.maxRequests := by
  intro h
  have hfresh : ∀ e ∈ middleEvents, e.Fresh := by simp [middleEvents, Event.Fresh, Share.fresh]
  have hall := h _ _ _ _ _ _ (create_plain 3 { Tuning.standard with maxRequests := 1 } .swarming) middleEvents hfresh
  exact absurd hall (by decide +kernel)

end Course

end FileSwarm
