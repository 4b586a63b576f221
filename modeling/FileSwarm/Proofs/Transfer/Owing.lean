import FileSwarm.Proofs.Transfer.Answers
import FileSwarm.Proofs.Transfer.Deliveries
import FileSwarm.Proofs.Transfer.Membership

/-!
# Who owes the signature

A transfer with delta-sync planned waits for a signature from one of its peers. It never waits for one that nobody
owes: peers join, get ready and leave in any order, and each time somebody who can deliver is asked, or there is
somebody who will be able to, or the whole file is fetched.

* `Asked t s` : the peer was asked since it was let in; `Share.Able s` : it can deliver now;
* `Apart t` : peers are told apart by their names and links, and at most one was asked; `Owing t` : and that one owes
  the signature while it is waited for; `Sought t` : if nobody owes it, somebody will be able to deliver;
* `Owing.debtor`, `Owing.asked_iff`, `Sought.waits` : what this says of those who are attached;
* `Aside t u` : nothing happened that has to do with the signature; `aside_sendRequests`, `Fills.aside` : requests and
  bytes have not;
* `Owing.start`, `Owing.detach`, `Owing.seat`, `Owing.ensureSignature` : the rest has, and `owing_outcome` puts it
  together; `owing_run` : so it is all along a course;
* `leave_moves` : if the peer that owes leaves, the next one is asked;
* `signature_owed` : all of it, of every course.
-/

namespace FileSwarm

/-- The peer can deliver a signature now. -/
def Share.Able (s : Share) : Prop := s.started ∧ s.caps.supportsDelta

namespace Transfer

variable {t u v : Transfer} {s q : Share}

/-- The peer was asked for the signature since it was let in. The link it was let in over is its own. -/
def Asked (t : Transfer) (s : Share) : Prop := (s.link, Call.signature) ∈ t.sent

/-- Peers are told apart by their names and by their links, none is broken, and at most one was asked. -/
structure Apart (t : Transfer) : Prop where
  ids : (t.roster.map (·.id)).Nodup
  links : (t.roster.map (·.link)).Nodup
  linked : ∀ s ∈ t.roster, s.link < t.links.size
  told : ∀ k, (k, Call.signature) ∈ t.sent → k < t.links.size
  whole : ∀ s ∈ t.roster, s.broken = false
  once : ∀ s ∈ t.roster, ∀ q ∈ t.roster, t.Asked s → t.Asked q → s = q

/-- While the signature is waited for, the peer that was asked owes it, and whoever owes it was asked and can
deliver. -/
structure Owing (t : Transfer) : Prop extends Apart t where
  held : t.Wanting → ∀ s ∈ t.roster, t.Asked s → t.owing = some s.id
  owed : t.Wanting → ∀ id, t.owing = some id → ∃ s ∈ t.roster, s.id = id ∧ s.Able ∧ t.Asked s

/-- If the signature is waited for and nobody owes it, nobody can deliver now and somebody will be able to. -/
structure Sought (t : Transfer) : Prop where
  nobody : t.Wanting → t.owing = none → ∀ s ∈ t.roster, ¬ s.Able
  hope : t.Wanting → t.owing = none → ∃ s ∈ t.roster, s.caps.supportsDelta

/-! ## What this says of the attached peers -/

theorem mem_roster (hs : s ∈ t.shares) : s.takePending ∈ t.roster := List.mem_map_of_mem hs

theorem Apart.names (h : t.Apart) : (t.shares.map (·.id)).Nodup := by
  have hroster := h.ids
  rwa [roster, List.map_map] at hroster

theorem Apart.unbroken (h : t.Apart) (hs : s ∈ t.shares) : s.broken = false := h.whole s.takePending (mem_roster hs)

theorem Apart.asked_once (h : t.Apart) (hs : s ∈ t.shares) (hq : q ∈ t.shares) (hsa : t.Asked s) (hqa : t.Asked q) :
    s = q := by
  have hsame := h.once s.takePending (mem_roster hs) q.takePending (mem_roster hq) hsa hqa
  have hid : s.takePending.id = q.takePending.id := by rw [hsame]
  exact List.inj_on_of_nodup_map h.names hs hq hid

/-- Whoever owes the signature is attached, can deliver and was asked. -/
theorem Owing.debtor (h : t.Owing) (hw : t.Wanting) {id : String} (hid : t.owing = some id) :
    ∃ s ∈ t.shares, s.id = id ∧ s.Able ∧ t.Asked s := by
  obtain ⟨x, hx, hxid, hable, hasked⟩ := h.owed hw id hid
  obtain ⟨s, hs, rfl⟩ := List.mem_map.1 hx
  exact ⟨s, hs, hxid, hable, hasked⟩

/-- While the signature is waited for, the peer that was asked is the one that owes it. -/
theorem Owing.asked_iff (h : t.Owing) (hw : t.Wanting) (hs : s ∈ t.shares) : t.Asked s ↔ t.owing = some s.id := by
  refine ⟨fun hasked => h.held hw s.takePending (mem_roster hs) hasked, fun hid => ?_⟩
  obtain ⟨q, hq, hqid, -, hasked⟩ := h.debtor hw hid
  rwa [← List.inj_on_of_nodup_map h.names hq hs hqid]

/-- If nobody owes it, nobody can deliver now, and somebody is not ready yet that will be able to. -/
theorem Sought.waits (h : t.Sought) (hw : t.Wanting) (hnone : t.owing = none) :
    (∀ s ∈ t.shares, ¬ s.Able) ∧ ∃ s ∈ t.shares, s.caps.supportsDelta ∧ s.started = false := by
  have hunable : ∀ s ∈ t.shares, ¬ s.Able := fun s hs => h.nobody hw hnone s.takePending (mem_roster hs)
  obtain ⟨x, hx, hsupports⟩ := h.hope hw hnone
  obtain ⟨s, hs, rfl⟩ := List.mem_map.1 hx
  refine ⟨hunable, s, hs, hsupports, ?_⟩
  by_contra hstarted
  exact hunable s hs ⟨by simpa using hstarted, hsupports⟩

/-! ## What has nothing to do with the signature -/

/-- The same peers are attached, and the same were asked; and if the signature is waited for, it was before, and the
same peer owes it in the same phase. -/
structure Aside (t u : Transfer) : Prop where
  roster : u.roster = t.roster
  links : t.links.size ≤ u.links.size
  calls : ∀ k, (k, Call.signature) ∈ u.sent ↔ (k, Call.signature) ∈ t.sent
  wanting : u.Wanting → t.Wanting ∧ u.owing = t.owing ∧ u.phase = t.phase

theorem Aside.refl (t : Transfer) : Aside t t := ⟨rfl, Nat.le_refl _, fun _ => .rfl, fun h => ⟨h, rfl, rfl⟩⟩

theorem Aside.trans (h : Aside t u) (k : Aside u v) : Aside t v := by
  refine ⟨k.roster.trans h.roster, Nat.le_trans h.links k.links, fun n => (k.calls n).trans (h.calls n), fun hw => ?_⟩
  obtain ⟨hu, howing, hphase⟩ := k.wanting hw
  obtain ⟨ht, howing', hphase'⟩ := h.wanting hu
  exact ⟨ht, howing.trans howing', hphase.trans hphase'⟩

theorem aside_unwanted (hroster : u.roster = t.roster) (hlinks : u.links = t.links) (hsent : u.sent = t.sent)
    (hno : u.parts.isSome ∨ u.signature.isSome) : Aside t u := by
  refine ⟨hroster, by rw [hlinks], fun k => by rw [hsent], fun hw => ?_⟩
  obtain ⟨-, hparts, hsignature, -⟩ := hw
  rcases hno with h | h
  · simp [hparts] at h
  · simp [hsignature] at h

theorem Tells.aside (h : Tells t u) : Aside t u := by
  have hcalls : ∀ (link k : Nat) (r : ByteRange) (a : Bool),
      (k, Call.signature) ∈ t.sent.push (link, .range r a) ↔ (k, Call.signature) ∈ t.sent := by
    intro link k r a
    rw [Array.mem_push]
    exact or_iff_left fun h => nomatch (Prod.mk.inj h).2
  cases h with
  | refused =>
    exact ⟨rfl, Nat.le_of_eq Array.size_setIfInBounds.symm, fun k => hcalls _ k _ _, fun h => ⟨h, rfl, rfl⟩⟩
  | @taken r i s _ share =>
    refine ⟨map_set_eq (b := s.owe r) share rfl, Nat.le_of_eq Array.size_setIfInBounds.symm, fun k => hcalls _ k _ _,
      fun ⟨hdelta, hparts, hsignature, hopen⟩ => ⟨⟨hdelta, ?_, hsignature, hopen⟩, rfl, rfl⟩⟩
    exact Option.map_eq_none_iff.1 hparts

theorem aside_sendRequests (t : Transfer) : Aside t t.sendRequests := by
  have h := round_sendRequests t
  generalize t.sendRequests = u at h
  induction h with
  | refl => exact .refl t
  | tail _ htells ih => exact ih.trans htells.aside

theorem aside_enter (t : Transfer) : Aside t t.enter := by
  unfold enter
  split
  · next h =>
    rw [Bool.and_eq_true] at h
    exact aside_unwanted (by simp [roster]) (by simp) (by simp) (.inl (by simpa using h.2))
  · exact .refl t

theorem Apart.of (h : t.Apart) {f : Share → Share}
    (hf : ∀ s, (f s).id = s.id ∧ (f s).link = s.link ∧ (f s).broken = s.broken)
    (hroster : u.roster.Sublist (t.roster.map f)) (hlinks : t.links.size ≤ u.links.size)
    (hcalls : ∀ k, (k, Call.signature) ∈ u.sent ↔ (k, Call.signature) ∈ t.sent) : u.Apart := by
  have hmem : ∀ q ∈ u.roster, ∃ s ∈ t.roster, f s = q := fun q hq => List.mem_map.1 (hroster.subset hq)
  have hasked : ∀ s, u.Asked (f s) → t.Asked s := fun s hs => by
    rw [Asked, (hf s).2.1, hcalls] at hs
    exact hs
  refine ⟨?_, ?_, fun q hq => ?_, fun k hk => Nat.lt_of_lt_of_le (h.told k ((hcalls k).1 hk)) hlinks, fun q hq => ?_,
    fun q hq p hp hqa hpa => ?_⟩
  · have hids := hroster.map (·.id)
    rw [List.map_map, show (·.id) ∘ f = (·.id) from funext fun s => (hf s).1] at hids
    exact h.ids.sublist hids
  · have hnumbers := hroster.map (·.link)
    rw [List.map_map, show (·.link) ∘ f = (·.link) from funext fun s => (hf s).2.1] at hnumbers
    exact h.links.sublist hnumbers
  · obtain ⟨s, hs, rfl⟩ := hmem q hq
    rw [(hf s).2.1]
    exact Nat.lt_of_lt_of_le (h.linked s hs) hlinks
  · obtain ⟨s, hs, rfl⟩ := hmem q hq
    rw [(hf s).2.2]
    exact h.whole s hs
  · obtain ⟨s, hs, rfl⟩ := hmem q hq
    obtain ⟨s', hs', rfl⟩ := hmem p hp
    rw [h.once s hs s' hs' (hasked s hqa) (hasked s' hpa)]

theorem Owing.aside (h : t.Owing) (k : Aside t u) : u.Owing := by
  have hapart : u.Apart :=
    h.toApart.of (f := id) (fun _ => ⟨rfl, rfl, rfl⟩) (by rw [k.roster, List.map_id]) k.links k.calls
  refine ⟨hapart, fun hw s hs hasked => ?_, fun hw id hid => ?_⟩
  · obtain ⟨hwt, howing, -⟩ := k.wanting hw
    rw [howing]
    exact h.held hwt s (k.roster ▸ hs) ((k.calls _).1 hasked)
  · obtain ⟨hwt, howing, -⟩ := k.wanting hw
    obtain ⟨s, hs, hsid, hable, hasked⟩ := h.owed hwt id (howing ▸ hid)
    exact ⟨s, k.roster ▸ hs, hsid, hable, (k.calls _).2 hasked⟩

theorem Sought.aside (h : t.Sought) (k : Aside t u) : u.Sought := by
  refine ⟨fun hw hnone => ?_, fun hw hnone => ?_⟩
  · obtain ⟨hwt, howing, -⟩ := k.wanting hw
    rw [k.roster]
    exact h.nobody hwt (howing ▸ hnone)
  · obtain ⟨hwt, howing, -⟩ := k.wanting hw
    rw [k.roster]
    exact h.hope hwt (howing ▸ hnone)

/-! ## Peers get ready, leave and join -/

theorem Owing.start (h : t.Owing) (id : String) : (t.updateShare id Share.start).Owing := by
  have hroster : (t.updateShare id Share.start).roster = t.roster.map fun s => if s.id == id then s.start else s := by
    rw [updateShare, roster, roster, List.map_map, List.map_map]
    refine List.map_congr_left fun s _ => ?_
    show (if s.id == id then s.start else s).takePending = if s.id == id then s.takePending.start else s.takePending
    split <;> rfl
  have hf : ∀ s : Share, (if s.id == id then s.start else s).id = s.id ∧
      (if s.id == id then s.start else s).link = s.link ∧
        (if s.id == id then s.start else s).broken = s.broken := fun s => by split <;> exact ⟨rfl, rfl, rfl⟩
  have hapart : (t.updateShare id Share.start).Apart :=
    h.toApart.of hf (by rw [hroster]) (Nat.le_refl _) (fun _ => .rfl)
  refine ⟨hapart, fun hw q hq hasked => ?_, fun hw other hother => ?_⟩
  · rw [hroster] at hq
    obtain ⟨s, hs, rfl⟩ := List.mem_map.1 hq
    rw [Asked, (hf s).2.1] at hasked
    rw [(hf s).1]
    exact h.held hw s hs hasked
  · obtain ⟨s, hs, hsid, hable, hasked⟩ := h.owed hw other hother
    refine ⟨if s.id == id then s.start else s, ?_, (hf s).1.trans hsid, ?_, ?_⟩
    · rw [hroster]
      exact List.mem_map_of_mem hs
    · split
      · exact ⟨rfl, hable.2⟩
      · exact hable
    · rw [Asked, (hf s).2.1]
      exact hasked

theorem roster_detach (t : Transfer) (s : Share) : (t.detach s).roster = t.roster.eraseP (·.id == s.id) := by
  rw [roster, detach, roster, List.eraseP_map]
  rfl

theorem wanting_detach {s : Share} : (t.detach s).Wanting ↔ t.Wanting := by
  rw [Wanting, Wanting, detach, Option.map_eq_none_iff]

theorem Apart.id_ne_of_detach (h : t.Apart) (hq : q ∈ (t.detach s).roster) : q.id ≠ s.id := by
  have hgone : s.id ∉ (t.roster.eraseP (·.id == s.id)).map (·.id) := by
    rw [show (t.roster.eraseP (·.id == s.id)).map (·.id) = (t.roster.map (·.id)).eraseP (· == s.id) by
      rw [List.eraseP_map]; rfl, ← List.erase_eq_eraseP']
    exact h.ids.not_mem_erase
  rw [roster_detach] at hq
  exact fun heq => hgone (List.mem_map.2 ⟨q, hq, heq⟩)

theorem Owing.detach (h : t.Owing) (s : Share) : (t.detach s).Owing := by
  have hsub : (t.detach s).roster.Sublist t.roster := by
    rw [roster_detach]
    exact List.eraseP_sublist
  have hapart : (t.detach s).Apart :=
    h.toApart.of (f := id) (fun _ => ⟨rfl, rfl, rfl⟩) (by rwa [List.map_id]) (Nat.le_refl _) (fun _ => .rfl)
  have howing : ∀ id, id ≠ s.id → ((t.detach s).owing = some id ↔ t.owing = some id) := by
    intro id hne
    rw [Transfer.detach]
    dsimp only
    split
    · next ho =>
      rw [ho]
      exact ⟨fun h => (by cases h), fun h => absurd (Option.some.inj h).symm hne⟩
    · rfl
  refine ⟨hapart, fun hw q hq hasked => ?_, fun hw id hid => ?_⟩
  · have hheld := h.held (wanting_detach.1 hw) q (hsub.subset hq) hasked
    exact (howing q.id (h.id_ne_of_detach hq)).2 hheld
  · have hne : id ≠ s.id := by
      rintro rfl
      rw [Transfer.detach] at hid
      dsimp only at hid
      split at hid
      · cases hid
      · next ho => exact ho hid
    obtain ⟨q, hq, hqid, hable, hasked⟩ := h.owed (wanting_detach.1 hw) id ((howing id hne).1 hid)
    refine ⟨q, ?_, hqid, hable, hasked⟩
    rw [roster_detach]
    exact (List.mem_eraseP_of_neg (by simpa [hqid] using hne)).2 hq

theorem Owing.seat (h : t.Owing) {s : Share} (answers : Nat → Bool) (hnew : t.isAttached s.id = false)
    (hwhole : s.broken = false) : (t.seat s answers).Owing := by
  have hsize : (t.seat s answers).links.size = t.links.size + 1 := Array.size_push _
  generalize hx : ({ s with link := t.links.size }.withBudget t.tuning.maxRequests).takePending = x
  have hroster : (t.seat s answers).roster = t.roster ++ [x] := by rw [← hx]; exact List.map_append
  have hxid : x.id = s.id := by rw [← hx]; rfl
  have hxlink : x.link = t.links.size := by rw [← hx]; rfl
  have hxwhole : x.broken = false := by rw [← hx]; exact hwhole
  have hcalls : ∀ k, (k, Call.signature) ∈ (t.seat s answers).sent ↔ (k, Call.signature) ∈ t.sent := by
    intro k
    show (k, Call.signature) ∈ t.sent.push _ ↔ _
    rw [Array.mem_push]
    exact or_iff_left fun h => nomatch (Prod.mk.inj h).2
  have hids : ∀ q ∈ t.roster, q.id ≠ x.id := by
    intro q hq heq
    obtain ⟨p, hp, rfl⟩ := List.mem_map.1 hq
    have hno : (t.shares.any fun p => p.id == s.id) = false := hnew
    simp only [List.any_eq_false, beq_iff_eq] at hno
    exact hno p hp (heq.trans hxid)
  have hlinks : ∀ q ∈ t.roster, q.link ≠ x.link := fun q hq => by
    rw [hxlink]
    exact Nat.ne_of_lt (h.linked q hq)
  have hmem : ∀ q ∈ (t.seat s answers).roster, (t.seat s answers).Asked q → q ∈ t.roster ∧ t.Asked q := by
    intro q hq hasked
    rw [Asked, hcalls] at hasked
    rw [hroster] at hq
    rcases List.mem_append.1 hq with hq | hq
    · exact ⟨hq, hasked⟩
    · have hlt := h.told _ hasked
      rw [List.mem_singleton.1 hq, hxlink] at hlt
      exact absurd hlt (Nat.lt_irrefl _)
  refine ⟨⟨?_, ?_, fun q hq => ?_, fun k hk => ?_, fun q hq => ?_, fun q hq p hp hqa hpa => ?_⟩,
    fun hw q hq hasked => ?_, fun hw id hid => ?_⟩
  · rw [hroster]
    exact nodup_append_one h.ids hids
  · rw [hroster]
    exact nodup_append_one h.links hlinks
  · rw [hsize]
    rw [hroster] at hq
    rcases List.mem_append.1 hq with hq | hq
    · exact Nat.lt_succ_of_lt (h.linked q hq)
    · rw [List.mem_singleton.1 hq, hxlink]
      exact Nat.lt_succ_self _
  · rw [hsize]
    exact Nat.lt_succ_of_lt (h.told k ((hcalls k).1 hk))
  · rw [hroster] at hq
    rcases List.mem_append.1 hq with hq | hq
    · exact h.whole q hq
    · rwa [List.mem_singleton.1 hq]
  · obtain ⟨hq, hqa⟩ := hmem q hq hqa
    obtain ⟨hp, hpa⟩ := hmem p hp hpa
    exact h.once q hq p hp hqa hpa
  · obtain ⟨hq, hasked⟩ := hmem q hq hasked
    exact h.held hw q hq hasked
  · obtain ⟨q, hq, hqid, hable, hasked⟩ := h.owed hw id hid
    refine ⟨q, ?_, hqid, hable, (hcalls _).2 hasked⟩
    rw [hroster]
    exact List.mem_append_left _ hq

/-! ## Asking -/

/-- A peer that can deliver was asked. -/
def asking (t : Transfer) (s : Share) : Transfer :=
  ({ t with
    sent := t.sent.push (s.link, .signature)
    metrics := t.metrics.askSignature
    owing := some s.id } : Transfer).setPhase .requestingSignature

/-- The peer may be asked. -/
def mayOwe (s : Share) : Bool := s.started && !s.broken && s.caps.supportsDelta

theorem mayOwe_iff (hwhole : s.broken = false) : mayOwe s ↔ s.Able := by
  simp [mayOwe, Share.Able, hwhole]

theorem askSignature_some (h : t.shares.find? mayOwe = some s) : t.askSignature = t.asking s := by
  unfold askSignature
  rw [show t.shares.find? (fun s => s.started && !s.broken && s.caps.supportsDelta) = some s from h]
  rfl

theorem askSignature_none (h : t.shares.find? mayOwe = none) :
    t.askSignature = if t.shares.any (fun s => !s.broken && s.caps.supportsDelta) then t else t.fetchAll := by
  unfold askSignature
  rw [show t.shares.find? (fun s => s.started && !s.broken && s.caps.supportsDelta) = none from h]

theorem asking_frame (t : Transfer) (s : Share) : (t.asking s).shares = t.shares ∧ (t.asking s).links = t.links ∧
    (t.asking s).sent = t.sent.push (s.link, .signature) ∧ (t.asking s).owing = some s.id ∧
    (t.asking s).parts = t.parts ∧ (t.asking s).signature = t.signature := by
  simp [asking]

/-- The first peer that can deliver is asked. -/
theorem Owing.asking (h : t.Owing) (hw : t.Wanting) (hnone : t.owing = none) (hs : s ∈ t.shares) (hable : s.Able) :
    (t.asking s).Owing := by
  obtain ⟨hshares, hlinks, hsent, howing, -⟩ := asking_frame t s
  have hroster : (t.asking s).roster = t.roster := by rw [roster, hshares, roster]
  -- nobody who is attached was asked before
  have hnew : ∀ q ∈ t.roster, (t.asking s).Asked q → q = s.takePending := by
    intro q hq hasked
    rw [Asked, hsent, Array.mem_push] at hasked
    rcases hasked with hasked | hasked
    · cases (h.held hw q hq hasked).symm.trans hnone
    · exact List.inj_on_of_nodup_map h.links hq (mem_roster hs) (Prod.mk.inj hasked).1
  refine ⟨⟨?_, ?_, ?_, fun k hk => ?_, ?_, ?_⟩, ?_, ?_⟩
  · rw [hroster]
    exact h.ids
  · rw [hroster]
    exact h.links
  · rw [hroster, hlinks]
    exact h.linked
  · rw [hsent, Array.mem_push] at hk
    rw [hlinks]
    rcases hk with hk | hk
    · exact h.told k hk
    · rw [(Prod.mk.inj hk).1]
      exact h.linked s.takePending (mem_roster hs)
  · rw [hroster]
    exact h.whole
  · rw [hroster]
    intro q hq p hp hqa hpa
    rw [hnew q hq hqa, hnew p hp hpa]
  · rw [hroster, howing]
    intro _ q hq hasked
    rw [hnew q hq hasked]
    rfl
  · rw [hroster, howing]
    rintro _ id hid
    refine ⟨s.takePending, mem_roster hs, Option.some.inj hid, hable, ?_⟩
    rw [Asked, hsent]
    exact Array.mem_push_self

theorem Owing.askSignature (h : t.Owing) (hw : t.Wanting) (hnone : t.owing = none) :
    t.askSignature.Owing ∧ t.askSignature.Sought := by
  cases hfind : t.shares.find? mayOwe with
  | some s =>
    have hs := List.mem_of_find?_eq_some hfind
    have hheld : (t.asking s).owing ≠ none := by simp [(asking_frame t s).2.2.2.1]
    rw [askSignature_some hfind]
    exact ⟨h.asking hw hnone hs ((mayOwe_iff (h.unbroken hs)).1 (List.find?_some hfind)),
      fun _ hno => absurd hno hheld, fun _ hno => absurd hno hheld⟩
  | none =>
    rw [askSignature_none hfind]
    split
    · next hany =>
      refine ⟨h, fun _ _ q hq hable => ?_, fun _ _ => ?_⟩
      · obtain ⟨s, hs, rfl⟩ := List.mem_map.1 hq
        exact List.find?_eq_none.1 hfind s hs ((mayOwe_iff (h.unbroken hs)).2 hable)
      · obtain ⟨s, hs, hdelta⟩ := List.any_eq_true.1 hany
        rw [Bool.and_eq_true] at hdelta
        exact ⟨s.takePending, mem_roster hs, hdelta.2⟩
    · have hfetch : ¬ t.fetchAll.Wanting := fun hw => by
        have hparts := hw.2.1
        rw [fetchAll_parts] at hparts
        exact nomatch hparts
      have haside : Aside t t.fetchAll :=
        aside_unwanted (by simp [roster]) (by simp) (by simp) (.inl (by rw [fetchAll_parts]; rfl))
      exact ⟨h.aside haside, fun hw => absurd hw hfetch, fun hw => absurd hw hfetch⟩

theorem ensureSignature_none (hw : t.Wanting) (hnone : t.owing = none) : t.ensureSignature = t.askSignature := by
  obtain ⟨hdelta, hparts, hsignature, hopen⟩ := hw
  rw [ensureSignature, if_neg (by simp [hdelta, hparts, hsignature, hopen]), hnone]

/-- After somebody was seen to, the signature is owed or sought. -/
theorem Owing.ensureSignature (h : t.Owing) : t.ensureSignature.Owing ∧ t.ensureSignature.Sought := by
  by_cases hw : t.Wanting
  · cases howing : t.owing with
    | none =>
      rw [ensureSignature_none hw howing]
      exact h.askSignature hw howing
    | some id =>
      obtain ⟨s, hs, hid, -⟩ := h.debtor hw howing
      have hthere : (t.share? id).any (!·.broken) := by
        cases hfind : t.share? id with
        | none => exact absurd (beq_iff_eq.2 hid) (List.find?_eq_none.1 hfind s hs)
        | some p =>
          rw [Option.any_some, h.unbroken (List.mem_of_find?_eq_some hfind), Bool.not_false]
      have hsame : t.ensureSignature = t := by
        unfold Transfer.ensureSignature
        split
        · rfl
        · rw [howing]
          exact if_pos hthere
      rw [hsame]
      have hheld : t.owing ≠ none := by simp [howing]
      exact ⟨h, fun _ hno => absurd hno hheld, fun _ hno => absurd hno hheld⟩
  · have hsame : t.ensureSignature = t := (ensureSignature_cases t).resolve_right fun h => hw h.1
    rw [hsame]
    exact ⟨h, fun hw' => absurd hw' hw, fun hw' => absurd hw' hw⟩

end Transfer

namespace Course

open Transfer

variable {c : Course} {e : Event}

/-! ## One event -/

theorem Fills.aside {v : Transfer} {m : PartMap} {l : List Task} (h : Fills c e v m l) :
    Aside c.transfer v ∧ v.parts = some m := by
  cases h with
  | @chunk id offset bytes m temp disk =>
    refine ⟨aside_unwanted ?_ rfl rfl (.inl rfl), rfl⟩
    show (c.transfer.shares.map _).map Share.takePending = c.transfer.shares.map Share.takePending
    rw [List.map_map]
    refine List.map_congr_left fun s _ => ?_
    rw [Function.comp_apply]
    split <;> rfl
  | copied => exact ⟨aside_unwanted rfl rfl rfl (.inl rfl), rfl⟩

theorem Fills.aside_setPhase {v : Transfer} {m : PartMap} {l : List Task} (h : Fills c e v m l) (p : Phase) :
    Aside c.transfer (v.setPhase p) := by
  obtain ⟨haside, hparts⟩ := h.aside
  exact haside.trans (aside_unwanted (by simp [roster]) (by simp) (by simp) (.inl (by simp [hparts])))

theorem owing_opens (h : c.transfer.Owing) {u : Transfer} {l : List Task} (ho : Opens c e u l)
    (hwhole : ∀ share answers, e = .join share answers → share.broken = false) :
    Aside c.transfer u ∨ u.Owing ∧ u.Sought := by
  cases ho with
  | @join share answers pos unknown =>
    have hseat := h.seat answers unknown (hwhole share answers rfl)
    exact .inr (hseat.aside (aside_enter _)).ensureSignature
  | @ready id => exact .inr (h.start id).ensureSignature
  | @leave id s => exact .inr (h.detach s).ensureSignature
  | chunk fills => exact .inl fills.aside.1
  | fetch => exact .inl (aside_unwanted (by simp [roster]) (by simp) (by simp) (.inl (by rw [fetchAll_parts]; rfl)))
  | send => exact .inl (.refl _)
  | copied fills => exact .inl (fills.aside_setPhase .downloading)
  | failed =>
    refine .inl (aside_unwanted ?_ (by simp [afresh]) (by simp [afresh]) (.inl (by simp [afresh])))
    rw [roster, (setPhase_frame _ _).2.2.2.2.1, afresh, roster]
    show (c.transfer.shares.map Share.takePending).map Share.takePending = _
    rw [List.map_map]
    rfl

/-- An event has nothing to do with the signature, or somebody was seen to. -/
theorem owing_outcome (hp : Placed c) (h : c.transfer.Owing) {u : Transfer} {l : List Task} (ho : Outcome c e u l)
    (hnext : u.phase.isFinal = false) (hwhole : ∀ share answers, e = .join share answers → share.broken = false) :
    Aside c.transfer u ∨ u.Owing ∧ u.Sought := by
  have hquiet : ∀ {disk : Disk} {links : Array Link}, c.transfer.links.size ≤ links.size →
      Aside c.transfer { c.transfer with disk, links } := fun hlinks =>
    ⟨rfl, hlinks, fun _ => .rfl, fun hw => ⟨hw, rfl, rfl⟩⟩
  cases ho with
  | same => exact .inl (.refl _)
  | connected => exact .inl (hquiet (by rw [Array.size_push]; exact Nat.le_succ _))
  | @round _ v _ opens =>
    have hsend := aside_sendRequests v
    exact (owing_opens h opens hwhole).imp (·.trans hsend) fun hv => ⟨hv.1.aside hsend, hv.2.aside hsend⟩
  | assembled fills =>
    have haside := fills.aside_setPhase .verifying
    exact .inl (haside.trans ⟨rfl, Nat.le_refl _, fun _ => .rfl, fun hw => ⟨hw, rfl, rfl⟩⟩)
  | closed closes => exact absurd hnext closes.not_open
  | learned => exact .inl (aside_unwanted rfl rfl rfl (.inr rfl))
  | searching =>
    exact .inl (aside_unwanted (by simp [roster, queueJob]) (by simp [queueJob]) (by simp [queueJob])
      (.inr (by simp [queueJob])))
  | worked => exact .inl (hquiet (Nat.le_refl _))
  | matched here =>
    obtain ⟨-, -, signed, -⟩ := hp.standing.alone here rfl
    exact .inl (aside_unwanted (by simp [roster]) (by simp) (by simp) (.inr (by simpa using signed)))
  | dropped => exact .inl (.refl _)
  | edited => exact .inl (hquiet (Nat.le_refl _))

theorem aside_settle (u : Transfer) (l : List Task) : Aside u (settle u l).transfer :=
  ⟨rfl, Nat.le_refl _, fun _ => .rfl, fun hw => ⟨hw, rfl, rfl⟩⟩

/-! ## Courses -/

theorem create_owing {target : Target} {tuning : Tuning} {admission : Admission} {disk made : Disk} {t : Transfer}
    (h : Transfer.create target tuning admission disk = (.ok t, made)) : t.owing = none :=
  (create_untouched h).owing

theorem owing_start {file : Target} {limits : Tuning} {rule : Admission} {t : Transfer}
    (h : t.Untouched file limits rule) (howing : t.owing = none) : (start t).transfer.Owing := by
  have hroster : t.roster = [] := by rw [roster, h.shares, List.map_nil]
  have hnobody : ∀ s, s ∉ t.roster := fun s => by
    rw [hroster]
    exact List.not_mem_nil
  have howes : t.Owing := by
    refine ⟨⟨?_, ?_, fun s hs => absurd hs (hnobody s), fun k hk => ?_, fun s hs => absurd hs (hnobody s),
      fun s hs => absurd hs (hnobody s)⟩, fun _ s hs => absurd hs (hnobody s), fun _ id hid => ?_⟩
    · rw [hroster]
      exact List.nodup_nil
    · rw [hroster]
      exact List.nodup_nil
    · rw [h.sent] at hk
      exact absurd hk (Array.not_mem_empty _)
    · cases howing.symm.trans hid
  exact howes.aside (aside_settle t [])

/-- All along a course the signature is owed or sought, unless nobody was attached yet. -/
theorem Orderly.owing_run (h : Orderly c) (hp : c.transfer.phase.isFinal = false → Placed c)
    (howing : c.transfer.Owing) (hidle : c.transfer.owing = none ∧ c.transfer.phase = .initial ∧ c.transfer.shares = [])
    (events : List Event) (hwhole : ∀ share answers, .join share answers ∈ events → share.broken = false)
    (hopen : (c.run events).transfer.phase.isFinal = false) :
    (c.run events).transfer.Owing ∧ ((c.run events).transfer.Sought ∨
      ((c.run events).transfer.Wanting → (c.run events).transfer.owing = none ∧
        (c.run events).transfer.phase = .initial) ∧
      ∀ done, done <+: events → (c.run done).transfer.shares = []) := by
  induction events using List.reverseRecOn with
  | nil =>
    refine ⟨howing, .inr ⟨fun _ => ⟨hidle.1, hidle.2.1⟩, fun done hdone => ?_⟩⟩
    rw [List.prefix_nil.1 hdone]
    exact hidle.2.2
  | append_singleton events e ih =>
    have hnow := h.run events
    rw [run_snoc] at hopen ⊢
    have hbefore := hnow.open_before hopen
    obtain ⟨howes, hrest⟩ := ih (fun share answers hin => hwhole share answers (List.mem_append_left _ hin)) hbefore
    have ho := outcome_operate hbefore (hnow.released.trans hbefore) (hnow.aborted hbefore) e
    have hstep := step_eq hnow.emptied e
    rw [hstep] at hopen ⊢
    have hjoin : ∀ share answers, e = .join share answers → share.broken = false := fun share answers he =>
      hwhole share answers (by simp [he])
    rcases owing_outcome (h.placed_run hp events hbefore) howes ho hopen hjoin with haside | ⟨howes', hsought⟩
    · have haside := haside.trans (aside_settle _ ((c.run events).operate e).2)
      refine ⟨howes.aside haside, hrest.imp (·.aside haside) fun ⟨hinitial, hnobody⟩ =>
        ⟨fun hw => ?_, fun done hdone => ?_⟩⟩
      · obtain ⟨hwt, hsame, hphase⟩ := haside.wanting hw
        rw [hsame, hphase]
        exact hinitial hwt
      · rcases List.prefix_concat_iff.1 hdone with rfl | hdone
        · rw [run_snoc, hstep]
          have hroster := haside.roster
          rw [roster, roster, hnobody events (List.prefix_refl _), List.map_nil] at hroster
          exact List.map_eq_nil_iff.1 hroster
        · exact hnobody done hdone
    · have haside := aside_settle ((c.run events).operate e).1 ((c.run events).operate e).2
      exact ⟨howes'.aside haside, .inl (hsought.aside haside)⟩

theorem Placed.wanting (h : Placed c) (hopen : c.transfer.phase.isFinal = false) (hparts : c.transfer.parts = none)
    (hsignature : c.transfer.signature = none) : c.transfer.Wanting := by
  have hdelta : c.transfer.delta := by
    cases h.standing with
    | waiting planned => exact planned
    | looking planned => exact planned
    | fetching parts => cases parts.symm.trans hparts
    | verifying parts => cases parts.symm.trans hparts
  exact ⟨hdelta, hparts, hsignature, hopen⟩

/-- The peer that owes the signature leaves: the first of the others that can deliver is asked, if there is one. -/
theorem leave_moves (hopen : c.transfer.phase.isFinal = false) (h : c.transfer.Owing) (hw : c.transfer.Wanting)
    {id : String} (howing : c.transfer.owing = some id)
    (hother : ∃ p ∈ c.transfer.shares, p.id ≠ id ∧ p.Able) :
    ∃ q ∈ c.transfer.shares, q.id ≠ id ∧ q.Able ∧ ¬ c.transfer.Asked q ∧
      (c.step (.leave id)).transfer.owing = some q.id ∧ q ∈ (c.step (.leave id)).transfer.shares ∧
      (c.step (.leave id)).transfer.sent = c.transfer.sent.push (q.link, .signature) := by
  obtain ⟨y, hy, hyid, -⟩ := h.debtor hw howing
  -- the peer that leaves is found by its name
  obtain ⟨s, hs⟩ : ∃ s, c.transfer.share? id = some s := by
    rw [← Option.isSome_iff_exists, share?, List.find?_isSome]
    exact ⟨y, hy, beq_iff_eq.2 hyid⟩
  have hsid := id_of_share? hs
  obtain ⟨p, hp, hpid, hpable⟩ := hother
  have hkept : p ∈ (c.transfer.detach s).shares :=
    (List.mem_eraseP_of_neg (by simpa [hsid] using hpid)).2 hp
  have hwanting : (c.transfer.detach s).Wanting := wanting_detach.2 hw
  have hnone : (c.transfer.detach s).owing = none := by
    rw [detach]
    exact if_pos (by rw [howing, hsid])
  -- so there is a first one among the others
  obtain ⟨q, hfind⟩ : ∃ q, (c.transfer.detach s).shares.find? mayOwe = some q := by
    rw [← Option.isSome_iff_exists, List.find?_isSome]
    exact ⟨p, hkept, (mayOwe_iff (h.unbroken hp)).2 hpable⟩
  have hq := List.mem_of_find?_eq_some hfind
  have hqold : q ∈ c.transfer.shares := List.mem_of_mem_eraseP hq
  obtain ⟨hshares, -, hsent, howes, hparts, -⟩ := asking_frame (c.transfer.detach s) q
  have hstep : (c.step (.leave id)).transfer = { (c.transfer.detach s).asking q with outbox := .empty } := by
    show (settle (c.transfer.removePeer id).1 c.tasks).transfer = _
    rw [removePeer_eq hs hopen, ensureSignature_none hwanting hnone, askSignature_some hfind,
      sendRequests_of_none (nextRange_unmapped (hparts.trans hwanting.2.1))]
    rfl
  have hqid : q.id ≠ id := by
    have hne : q.takePending.id ≠ s.id := h.id_ne_of_detach (mem_roster hq)
    rwa [hsid] at hne
  rw [hstep]
  refine ⟨q, hqold, hqid, (mayOwe_iff (h.unbroken hqold)).1 (List.find?_some hfind), fun hasked => ?_, howes, ?_,
    hsent⟩
  · have hheld := (h.asked_iff hw hqold).1 hasked
    exact hqid (Option.some.inj (hheld.symm.trans howing))
  · exact hshares ▸ hq

/-- A transfer of a file that is not empty never waits for a signature that nobody owes, whatever peers do that are not
broken when they join. While there is neither a part map nor a signature, one attached peer that can deliver was asked
since it joined and owes it; or nobody owes it and nobody can deliver now, but somebody will be able to, or nobody was
attached so far. Of the attached peers no two were asked, and while the signature is waited for the one that was asked
owes it. If that one leaves, another that can deliver is asked, if there is one. -/
theorem signature_owed {target : Target} {tuning : Tuning} {admission : Admission} {disk made : Disk} {t : Transfer}
    (h : Transfer.create target tuning admission disk = (.ok t, made)) (hpos : 0 < target.size) (events : List Event)
    (hwhole : ∀ share answers, .join share answers ∈ events → share.broken = false) :
    let c := (start t).run events
    c.transfer.phase.isFinal = false →
    (∀ s ∈ c.transfer.shares, ∀ q ∈ c.transfer.shares, c.transfer.Asked s → c.transfer.Asked q → s = q) ∧
    (c.transfer.parts = none → c.transfer.signature = none →
      ((∃ s ∈ c.transfer.shares, c.transfer.owing = some s.id ∧ s.Able ∧ c.transfer.Asked s) ∨
        c.transfer.owing = none ∧ (∀ s ∈ c.transfer.shares, ¬ s.Able) ∧
          ((∃ s ∈ c.transfer.shares, s.caps.supportsDelta ∧ s.started = false) ∨
            c.transfer.phase = .initial ∧ ∀ done, done <+: events → ((start t).run done).transfer.shares = [])) ∧
      (∀ s ∈ c.transfer.shares, c.transfer.Asked s ↔ c.transfer.owing = some s.id) ∧
      ∀ id, c.transfer.owing = some id → (∃ p ∈ c.transfer.shares, p.id ≠ id ∧ p.Able) →
        let d := c.step (.leave id)
        ∃ q ∈ c.transfer.shares, q.id ≠ id ∧ q.Able ∧ ¬ c.transfer.Asked q ∧ d.transfer.owing = some q.id ∧
          q ∈ d.transfer.shares ∧ d.transfer.sent = c.transfer.sent.push (q.link, .signature)) := by
  have huntouched := create_untouched h
  have hstart : Orderly (start t) := orderly_start huntouched
  have hplaced : Placed (start t) := placed_start huntouched (Nat.ne_of_gt hpos)
  have hnone := create_owing h
  intro c hopen
  have hp : Placed c := hstart.placed_run (fun _ => hplaced) events hopen
  obtain ⟨howing, hrest⟩ := hstart.owing_run (fun _ => hplaced) (owing_start huntouched hnone)
    ⟨hnone, huntouched.phase, huntouched.shares⟩ events hwhole hopen
  refine ⟨fun s hs q hq => howing.asked_once hs hq, fun hparts hsignature => ?_⟩
  have hw : c.transfer.Wanting := hp.wanting hopen hparts hsignature
  refine ⟨?_, fun s hs => howing.asked_iff hw hs, fun id hid hother => leave_moves hopen howing hw hid hother⟩
  cases hid : c.transfer.owing with
  | some id =>
    obtain ⟨s, hs, rfl, hable, hasked⟩ := howing.debtor hw hid
    exact .inl ⟨s, hs, rfl, hable, hasked⟩
  | none =>
    refine .inr ⟨rfl, ?_⟩
    rcases hrest with hsought | ⟨hinitial, hnobody⟩
    · obtain ⟨hunable, hope⟩ := hsought.waits hw hid
      exact ⟨hunable, .inl hope⟩
    · have hshares : c.transfer.shares = [] := hnobody events (List.prefix_refl _)
      refine ⟨fun s hs => ?_, .inr ⟨(hinitial hw).2, hnobody⟩⟩
      rw [hshares] at hs
      exact absurd hs List.not_mem_nil

/-- Two peers that can deliver. The first was asked; when it leaves, the second is. -/
theorem pair_signature_owed :
    let events : List Event := [.join (.fresh "a" .full 0) fun _ => true, .ready "a",
      .join (.fresh "b" .full 0) fun _ => true, .ready "b"]
    let c := (start copyTransfer).run events
    let d := c.step (.leave "a")
    c.transfer.owing = some "a" ∧ (∃ s ∈ c.transfer.shares, s.id = "a" ∧ s.Able ∧ c.transfer.Asked s) ∧
      ∃ q ∈ c.transfer.shares, q.id ≠ "a" ∧ ¬ c.transfer.Asked q ∧ d.transfer.owing = some q.id ∧
        d.transfer.sent = c.transfer.sent.push (q.link, .signature) := by
  intro events c d
  have hwhole : ∀ share answers, .join share answers ∈ events → share.broken = false := by
    intro share answers hin
    have hshare : share = .fresh "a" .full 0 ∨ share = .fresh "b" .full 0 := by
      simp only [events, List.mem_cons, Event.join.injEq, List.not_mem_nil, or_false, reduceCtorEq, false_or] at hin
      exact hin.imp (·.1) (·.1)
    rcases hshare with rfl | rfl <;> rfl
  have hopen : c.transfer.phase.isFinal = false := by decide +kernel
  have hparts : c.transfer.parts = none := rfl
  have hsignature : c.transfer.signature = none := rfl
  have howing : c.transfer.owing = some "a" := by decide +kernel
  obtain ⟨-, hwaiting⟩ := signature_owed create_copy (by decide) events hwhole hopen
  obtain ⟨howed, -, hmoves⟩ := hwaiting hparts hsignature
  obtain ⟨s, hs, hid, hable, hasked⟩ := howed.resolve_right fun h => nomatch howing.symm.trans h.1
  have hother : ∃ p ∈ c.transfer.shares, p.id ≠ "a" ∧ p.Able :=
    ⟨c.transfer.shares.get ⟨1, by decide +kernel⟩, List.get_mem _ _, by decide +kernel, by decide +kernel,
      by decide +kernel⟩
  obtain ⟨q, hq, hne, -, hnew, howing', -, hsent⟩ := hmoves "a" howing hother
  exact ⟨howing, ⟨s, hs, Option.some.inj (hid.symm.trans howing), hable, hasked⟩, q, hq, hne, hnew, howing', hsent⟩

end Course

end FileSwarm
