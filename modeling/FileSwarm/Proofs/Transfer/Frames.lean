import FileSwarm.Proofs.Disk.Nodes
import FileSwarm.Proofs.PartMap.States
import FileSwarm.Transfer.Members

/-!
# What each operation leaves alone

Frames are conjunctions of equations tagged for `simp`; where an operation has several outcomes, a
lemma lists them.

* `setPhase_frame`, `tellAll_eq` : single changes;
* `offer_told` : an offer goes down the list until somebody takes the range, and all before it decline;
* `offer_cases`, `sendRequests_induction`, `sendRequests_frame` : requests change part states, shares,
  links, calls, counters and the cursor, and nothing else;
* `fetchAll_frame`, `askSignature_cases`, `ensureSignature_cases` : asking for a signature;
* `release_frame`, `release_disk` : endings.
-/

namespace FileSwarm.Transfer

@[simp] theorem setPhase_phase (t : Transfer) (p : Phase) : (t.setPhase p).phase = p := by
  unfold setPhase
  split
  · assumption
  · rfl

/-- A change of phase is heard of, and changes nothing else. -/
@[simp] theorem setPhase_frame (t : Transfer) (p : Phase) :
    (t.setPhase p).target = t.target ∧ (t.setPhase p).tuning = t.tuning ∧
    (t.setPhase p).admission = t.admission ∧ (t.setPhase p).delta = t.delta ∧
    (t.setPhase p).shares = t.shares ∧ (t.setPhase p).parts = t.parts ∧
    (t.setPhase p).signature = t.signature ∧ (t.setPhase p).owing = t.owing ∧
    (t.setPhase p).tally = t.tally ∧ (t.setPhase p).temp = t.temp ∧
    (t.setPhase p).epoch = t.epoch ∧ (t.setPhase p).mismatches = t.mismatches ∧
    (t.setPhase p).released = t.released ∧ (t.setPhase p).aborted = t.aborted ∧
    (t.setPhase p).cursor = t.cursor ∧ (t.setPhase p).disk = t.disk ∧
    (t.setPhase p).links = t.links ∧ (t.setPhase p).sent = t.sent ∧
    (t.setPhase p).metrics = t.metrics ∧ (t.setPhase p).outbox.jobs = t.outbox.jobs := by
  unfold setPhase
  split <;> simp [notify]

theorem tellAll_eq (t : Transfer) (c : Call) :
    t.tellAll c = { t with sent := t.sent ++ (t.shares.map fun s => (s.link, c)).toArray } := by
  have h : ∀ (l : List Share) (u : Transfer), l.foldl (fun t s => t.tell s.link c) u =
      { u with sent := u.sent ++ (l.map fun s => (s.link, c)).toArray } := by
    intro l
    induction l with
    | nil => intro u; simp
    | cons s l ih =>
      intro u
      rw [List.foldl_cons, ih]
      simp [tell]
  exact h t.shares t

/-! ## Requests -/

/-- What is said when all the peers at some positions decline: those that may be asked are, and refuse. -/
def refusals (t : Transfer) (r : ByteRange) (l : List Nat) : Array (Nat × Call) :=
  (((l.filterMap (t.shares[·]?)).filter (·.mayAsk r)).map fun s => (s.link, Call.range r false)).toArray

/-- What an offer came to: everybody declined, or somebody took the range and everybody before it declined. -/
def Told (t : Transfer) (r : ByteRange) (l : List Nat) : Transfer × Option Nat → Prop
  | (u, none) => ∃ links, links.size = t.links.size ∧ u = { t with links, sent := t.sent ++ t.refusals r l }
  | (u, some i) => ∃ before after links s, l = before ++ i :: after ∧ t.shares[i]? = some s ∧ s.mayAsk r ∧
      links.size = t.links.size ∧ u = { t with
        links
        sent := (t.sent ++ t.refusals r before).push (s.link, .range r true)
        shares := t.shares.set i (s.owe r) }

theorem Told.skip {t : Transfer} {r : ByteRange} {i : Nat} {links : Array Link} {more : Array (Nat × Call)}
    {l : List Nat} {result : Transfer × Option Nat}
    (hlinks : links.size = t.links.size) (hmore : ∀ k, t.refusals r (i :: k) = more ++ t.refusals r k)
    (h : Told { t with links, sent := t.sent ++ more } r l result) : t.Told r (i :: l) result := by
  rcases result with ⟨u, _ | j⟩
  · obtain ⟨links', hlinks', rfl⟩ := h
    refine ⟨links', hlinks'.trans hlinks, ?_⟩
    rw [hmore, ← Array.append_assoc]
    rfl
  · obtain ⟨before, after, links', s, rfl, hs, hask, hlinks', rfl⟩ := h
    refine ⟨i :: before, after, links', s, rfl, hs, hask, hlinks'.trans hlinks, ?_⟩
    rw [hmore, ← Array.append_assoc]
    rfl

theorem askRange_eq (t : Transfer) (link : Nat) (r : ByteRange) : ∃ links accepted, links.size = t.links.size ∧
    t.askRange link r = ({ t with links, sent := t.sent.push (link, .range r accepted) }, accepted) :=
  ⟨_, _, Array.size_setIfInBounds, rfl⟩

theorem offer_told (t : Transfer) (r : ByteRange) (l : List Nat) : t.Told r l (t.offer r l) := by
  induction l generalizing t with
  | nil => exact ⟨t.links, rfl, by simp [refusals]⟩
  | cons i l ih =>
    have hsilent : (∀ k, t.refusals r (i :: k) = t.refusals r k) → t.offer r (i :: l) = t.offer r l →
        t.Told r (i :: l) (t.offer r (i :: l)) := by
      intro hsame heq
      have hnothing : ∀ k, t.refusals r (i :: k) = #[] ++ t.refusals r k := fun k => by rw [hsame, Array.empty_append]
      have htold : Told { t with sent := t.sent ++ #[] } r l (t.offer r l) := by
        rw [Array.append_empty]
        exact ih t
      rw [heq]
      exact Told.skip rfl hnothing htold
    cases hi : t.shares[i]? with
    | none => exact hsilent (fun k => by rw [refusals, List.filterMap_cons_none hi, refusals]) (by rw [offer, hi])
    | some s =>
      have hcons : ∀ k, t.refusals r (i :: k) =
          (if s.mayAsk r then #[(s.link, .range r false)] else #[]) ++ t.refusals r k := by
        intro k
        rw [refusals, List.filterMap_cons_some hi, List.filter_cons, refusals]
        split <;> simp
      cases hask : s.mayAsk r with
      | false => exact hsilent (fun k => by rw [hcons, hask]; simp) (by rw [offer, hi]; simp [hask])
      | true =>
        obtain ⟨links, accepted, hlinks, heq⟩ := askRange_eq t s.link r
        cases accepted with
        | false =>
          have hoffer : t.offer r (i :: l) =
              offer { t with links, sent := t.sent.push (s.link, .range r false) } r l := by
            rw [offer, hi]
            simp only [hask, heq]
            rfl
          rw [hoffer]
          refine Told.skip hlinks (fun k => by rw [hcons, hask, if_pos rfl]) ?_
          rw [← Array.push_eq_append]
          exact ih _
        | true =>
          rw [offer, hi]
          simp only [hask, heq, if_true]
          refine ⟨[], l, links, s, rfl, hi, hask, hlinks, ?_⟩
          simp [refusals]

/-- What an offer to the peers at some positions can come to: none of them took the range, or one that
may be asked owes it now. -/
def Offered (t : Transfer) (r : ByteRange) (l : List Nat) : Transfer × Option Nat → Prop
  | (u, none) => ∃ links sent, u = { t with links, sent }
  | (u, some i) => i ∈ l ∧ ∃ links sent s, t.shares[i]? = some s ∧ s.mayAsk r ∧
      u = { t with links, sent, shares := t.shares.set i (s.owe r) }

theorem offer_cases (t : Transfer) (r : ByteRange) (l : List Nat) : t.Offered r l (t.offer r l) := by
  have h := offer_told t r l
  generalize t.offer r l = result at h ⊢
  rcases result with ⟨u, _ | i⟩
  · obtain ⟨links, -, hu⟩ := h
    exact ⟨links, _, hu⟩
  · obtain ⟨before, after, links, s, rfl, hs, hask, -, hu⟩ := h
    exact ⟨List.mem_append_right _ List.mem_cons_self, links, _, s, hs, hask, hu⟩

/-- One range asked for: the peer at position `i` owes the range `r`, the first needed bytes. -/
structure Assigns (t : Transfer) (m : PartMap) (r : ByteRange) (i : Nat) (s : Share) (u : Transfer) : Prop where
  parts : t.parts = some m
  first : ∃ whole, m.first? .needed = some whole ∧ r = whole.truncate t.tuning.maxChunk
  share : t.shares[i]? = some s
  mayAsk : s.mayAsk r
  result : ∃ links sent, u = { t with
    links, sent
    shares := t.shares.set i (s.owe r)
    parts := some (m.set r .pending)
    metrics := t.metrics.askPart
    cursor := i + 1 }

/-- What calls and assignments keep is kept by asking for what is needed. -/
theorem sendRequests_induction {P : Transfer → Prop}
    (hcalls : ∀ u links sent, P u → P { u with links, sent })
    (hassign : ∀ {u m r i s v}, Assigns u m r i s v → P u → P v) {t : Transfer} (ht : P t) :
    P t.sendRequests := by
  have hn : ∀ n t, P t → P (assign n t) := by
    intro n
    induction n with
    | zero => exact fun _ h => h
    | succ n ih =>
      intro t ht
      rw [assign]
      cases hr : t.nextRange? with
      | none => exact ht
      | some r =>
        have ho := offer_cases t r (t.tuning.selection.order t.loads t.cursor)
        dsimp only
        generalize t.offer r (t.tuning.selection.order t.loads t.cursor) = result at ho ⊢
        rcases result with ⟨u, _ | i⟩
        · obtain ⟨links, sent, rfl⟩ := ho
          exact hcalls t links sent ht
        · obtain ⟨-, links, sent, s, hs, hask, rfl⟩ := ho
          obtain ⟨whole, hwhole, rfl⟩ := Option.map_eq_some_iff.1 hr
          obtain ⟨m, hm, hfirst⟩ := Option.bind_eq_some_iff.1 hwhole
          exact ih _ (hassign ⟨hm, ⟨whole, hfirst, rfl⟩, hs, hask, links, sent, by rw [hm]; rfl⟩ ht)
  unfold sendRequests
  split
  · exact ht
  · exact hn _ _ ht

@[simp] theorem sendRequests_frame (t : Transfer) :
    t.sendRequests.target = t.target ∧ t.sendRequests.tuning = t.tuning ∧
    t.sendRequests.admission = t.admission ∧ t.sendRequests.delta = t.delta ∧
    t.sendRequests.phase = t.phase ∧ t.sendRequests.signature = t.signature ∧
    t.sendRequests.owing = t.owing ∧ t.sendRequests.tally = t.tally ∧
    t.sendRequests.temp = t.temp ∧ t.sendRequests.epoch = t.epoch ∧
    t.sendRequests.mismatches = t.mismatches ∧ t.sendRequests.released = t.released ∧
    t.sendRequests.aborted = t.aborted ∧ t.sendRequests.disk = t.disk ∧
    t.sendRequests.outbox = t.outbox := by
  refine sendRequests_induction (P := fun u => u.target = t.target ∧ u.tuning = t.tuning ∧
    u.admission = t.admission ∧ u.delta = t.delta ∧ u.phase = t.phase ∧ u.signature = t.signature ∧
    u.owing = t.owing ∧ u.tally = t.tally ∧ u.temp = t.temp ∧ u.epoch = t.epoch ∧
    u.mismatches = t.mismatches ∧ u.released = t.released ∧ u.aborted = t.aborted ∧ u.disk = t.disk ∧
    u.outbox = t.outbox) (fun _ _ _ h => h) ?_ (by simp)
  rintro u m r i s v ⟨-, -, -, -, links, sent, rfl⟩ h
  exact h

/-! ## Signatures -/

@[simp] theorem fetchAll_parts (t : Transfer) : t.fetchAll.parts = some (PartMap.blank t.target.size) := by
  simp [fetchAll]

@[simp] theorem fetchAll_phase (t : Transfer) : t.fetchAll.phase = .downloading := by simp [fetchAll]

@[simp] theorem fetchAll_frame (t : Transfer) :
    t.fetchAll.target = t.target ∧ t.fetchAll.tuning = t.tuning ∧ t.fetchAll.admission = t.admission ∧
    t.fetchAll.delta = t.delta ∧ t.fetchAll.shares = t.shares ∧ t.fetchAll.signature = t.signature ∧
    t.fetchAll.owing = t.owing ∧ t.fetchAll.temp = t.temp ∧ t.fetchAll.epoch = t.epoch ∧
    t.fetchAll.mismatches = t.mismatches ∧ t.fetchAll.released = t.released ∧
    t.fetchAll.aborted = t.aborted ∧ t.fetchAll.cursor = t.cursor ∧ t.fetchAll.disk = t.disk ∧
    t.fetchAll.links = t.links ∧ t.fetchAll.sent = t.sent ∧ t.fetchAll.metrics = t.metrics ∧
    t.fetchAll.outbox.jobs = t.outbox.jobs := by
  simp [fetchAll]

/-- Asking for a signature: a peer that can deliver one now owes it, or one is waited for, or the whole
file is needed. -/
theorem askSignature_cases (t : Transfer) :
    (∃ s ∈ t.shares, s.started ∧ s.broken = false ∧ s.caps.supportsDelta ∧
      t.askSignature = ({ t with
        sent := t.sent.push (s.link, .signature)
        metrics := t.metrics.askSignature
        owing := some s.id } : Transfer).setPhase .requestingSignature) ∨
    t.askSignature = t ∨
    ((∀ s ∈ t.shares, s.broken = false → s.caps.supportsDelta = false) ∧ t.askSignature = t.fetchAll) := by
  unfold askSignature
  split
  · next s hs =>
    have hp : s.started = true ∧ s.broken = false ∧ s.caps.supportsDelta = true := by
      simpa [and_assoc] using List.find?_some hs
    exact .inl ⟨s, List.mem_of_find?_eq_some hs, hp.1, hp.2.1, hp.2.2, rfl⟩
  · split
    · exact .inr (.inl rfl)
    · next hnone =>
      refine .inr (.inr ⟨fun s hs hb => ?_, rfl⟩)
      simp only [List.any_eq_true, Bool.and_eq_true, Bool.not_eq_true', not_exists, not_and,
        Bool.not_eq_true] at hnone
      exact hnone s hs hb

/-- No signature was asked for yet or the one who was is gone, and one is of use. -/
def Wanting (t : Transfer) : Prop :=
  t.delta ∧ t.parts = none ∧ t.signature = none ∧ t.phase.isFinal = false

theorem ensureSignature_cases (t : Transfer) :
    t.ensureSignature = t ∨
      (t.Wanting ∧ ∃ owing, t.ensureSignature = ({ t with owing } : Transfer).askSignature) := by
  unfold ensureSignature
  split
  · exact .inl rfl
  · next h =>
    simp only [Bool.or_eq_true, Bool.not_eq_true', not_or, Bool.not_eq_true, Bool.not_eq_false,
      Option.isSome_eq_false_iff, Option.isNone_iff_eq_none] at h
    have hw : t.Wanting := ⟨h.1.1.1, h.1.1.2, h.1.2, h.2⟩
    split
    · next ho => exact .inr ⟨hw, none, by rw [← ho]⟩
    · split
      · exact .inl rfl
      · exact .inr ⟨hw, none, rfl⟩

/-- It is known what is needed, or a signature is there. -/
theorem ensureSignature_settled {t : Transfer} (h : t.parts.isSome ∨ t.signature.isSome) : t.ensureSignature = t := by
  unfold ensureSignature
  rw [if_pos]
  rcases h with h | h <;> simp [h]

/-! ## Endings -/

@[simp] theorem release_frame (t : Transfer) :
    t.release.target = t.target ∧ t.release.tuning = t.tuning ∧ t.release.admission = t.admission ∧
    t.release.delta = t.delta ∧ t.release.phase = t.phase ∧ t.release.shares = t.shares ∧
    t.release.tally = t.tally ∧ t.release.epoch = t.epoch + 1 ∧ t.release.mismatches = t.mismatches ∧
    t.release.released = true ∧ t.release.aborted = t.aborted ∧ t.release.cursor = t.cursor ∧
    t.release.links = t.links ∧ t.release.sent = t.sent ∧ t.release.metrics = t.metrics ∧
    t.release.outbox = t.outbox := by
  unfold release
  dsimp only
  split <;> simp_all

theorem release_disk (t : Transfer) (n : Nat) :
    Disk.Alike n t.disk t.release.disk ∧ ∀ k, t.release.disk.bytesAt? k = t.disk.bytesAt? k := by
  unfold release
  dsimp only
  split
  · exact ⟨.refl n _, fun _ => rfl⟩
  · exact Disk.alike_setStamp n t.disk t.target.temp t.target.modified

end FileSwarm.Transfer
