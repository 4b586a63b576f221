import FileSwarm.Proofs.Delta.Reconstruction
import FileSwarm.Proofs.Transfer.Answers
import FileSwarm.Proofs.Transfer.Changes

/-!
# Stages of a transfer that cannot fail

A transfer whose peers take every request and have the file, and whose local copy stays as it is, goes
from stage to stage. In each stage somebody has something to do.

* `Scene` : what stays as it is meanwhile; `Grounded` : what of it a transfer that goes on has;
* `Stage w t l` : where the transfer is, with the jobs `l` under way; `Looking` : it looks at the local copy;
* `Going`, `Rested`, `Finished`, `Outcome` : on the way with its books in order, with nothing left to ask
  for, at the end, or one of these;
* `Going.resume`, `Grounded.credited` : what comes after every answer, and after the last byte;
* `Grounded.update`, `Fetching.update` : what these do not depend on;
* `Going.not_idle` : who goes on has something in a queue or a job under way.
-/

namespace FileSwarm

/-- What stays as it is while the file `original` is fetched: the target, and the disk but for the temp
file, which is the node `node`. The local copy can be read and is not the temp file. -/
structure Scene where
  original : ByteArray
  target : Target
  disk : Disk
  node : Nat
  size_eq : target.size = original.size
  size_le : original.size ≤ Disk.sizeLimit
  leads : disk.LeadsTo target.temp node
  candidate : ∀ c k b, target.candidate = some c → disk.HasFile c k b → k ≠ node ∧ b.size ≤ Disk.sizeLimit

/-- No part of the local copy passes for a block of the file by its hash alone. -/
def Scene.Safe (w : Scene) (blockLength : Nat) : Prop :=
  ∀ c k b, w.target.candidate = some c → w.disk.HasFile c k b → CollisionFree blockLength w.original b

namespace Transfer

/-- A transfer that goes on, with nothing gone wrong. -/
structure Grounded (w : Scene) (t : Transfer) : Prop where
  target : t.target = w.target
  chunk : 1 ≤ t.tuning.maxChunk
  admission : t.admission = .swarming
  isOpen : t.phase.isFinal = false
  temp : t.temp = some ⟨w.node, true⟩
  epoch : t.epoch = 0
  mismatches : t.mismatches = 0
  counted : t.metrics.mismatches = 0
  written : Written w.original w.node w.disk t.disk
  delta : t.delta → ∃ c, w.target.candidate = some c ∧ w.disk.isFile c

/-- It is not known yet what is needed, and nothing was asked for. -/
structure Unmapped (t : Transfer) : Prop where
  delta : t.delta
  parts : t.parts = none
  quiet : ∀ s ∈ t.shares, s.pending = []
  got_eq : t.got = 0

/-- A job that looks at the local copy `b` with a signature of blocks of length `k`, between two steps. -/
inductive Looks (w : Scene) (d : Disk) (k : Nat) (c : String) (b : ByteArray) : Task → Prop
  | search : Looks w d k c b (.search 0 (Signature.describe k w.original) c ⟨w.node, true⟩)
  | searched : Looks w d k c b (.searched 0 (Signature.describe k w.original) c ⟨w.node, true⟩
      (.ok (plainScan (Signature.describe k w.original) b)))
  | copy : Looks w d k c b (.copy 0 (Signature.describe k w.original) c ⟨w.node, true⟩
      (plainScan (Signature.describe k w.original) b))
  | copied {parts : PartMap} (h : Copied w.original w.node w.disk d parts) : Looks w d k c b (.copied 0 (.ok parts))

/-- The local copy `b` is looked at, with a signature of blocks of length `k`. -/
structure Looking (w : Scene) (t : Transfer) (k m : Nat) (c : String) (b : ByteArray) : Prop where
  unmapped : t.Unmapped
  signature : t.signature = some (Signature.describe k w.original)
  owing : t.owing = none
  pos : 0 < k
  le : k ≤ Signature.maxBlockLength
  safe : w.Safe k
  candidate : w.target.candidate = some c
  file : w.disk.HasFile c m b

/-- Where a transfer with peers is, and the jobs under way. -/
inductive Stage (w : Scene) (t : Transfer) : List Task → Prop
  | waiting (h : t.Unmapped) (signature : t.signature = none) (owing : t.owing = none) (peers : t.shares ≠ []) :
    Stage w t []
  | asking {s : Share} (h : t.Unmapped) (signature : t.signature = none) (mem : s ∈ t.shares) (started : s.started)
    (owing : t.owing = some s.id) : Stage w t []
  | looking {k m : Nat} {c : String} {b : ByteArray} {task : Task} (h : Looking w t k m c b)
    (looks : Looks w t.disk k c b task) : Stage w t [task]
  | fetching {m : PartMap} (h : t.Fetching w.original w.node m) (missing : t.got ≠ w.original.size)
    (signed : ∀ s, t.signature = some s → s.digest = Sha256.digest w.original) (owing : t.owing = none) : Stage w t []
  | verifying {m : PartMap} {task : Task} (h : t.Fetching w.original w.node m) (all : t.got = w.original.size)
    (owing : t.owing = none)
    (hashes : task = .hash 0 (Sha256.digest w.original) ∨ task = .hashed 0 (.ok true)) : Stage w t [task]

/-- A transfer on its way, its peers and their queues, and the jobs under way. -/
structure Going (w : Scene) (names : List String) (inbox : Nat → List Call) (d : Nat) (t : Transfer)
    (l : List Task) : Prop where
  grounded : Grounded w t
  pos : 0 < w.original.size
  peers : t.Peers d names inbox
  stage : Stage w t l

/-- If a signature is wanted somebody was asked for it, or nobody could be. -/
def Inquired (t : Transfer) : Prop :=
  t.parts = none → t.signature = none → t.owing = none → ∀ s ∈ t.shares, s.started = false

/-- There is nothing to ask for, or nobody to ask. -/
structure Rested (t : Transfer) : Prop where
  signature : t.Inquired
  parts : ∀ m, t.parts = some m → t.Conserving m

/-- The file is there, and every byte of it came once. -/
structure Finished (w : Scene) (t : Transfer) : Prop where
  phase : t.phase = .completed
  released : t.released
  read : t.disk.read w.target.temp = .ok w.original
  mismatches : t.mismatches = 0
  counted : t.metrics.mismatches = 0
  got_eq : t.got = w.original.size

/-- What an operation on a transfer on its way comes to, if the jobs `l` go on beside it. -/
def Outcome (w : Scene) (names : List String) (inbox : Nat → List Call) (d : Nat) (t : Transfer)
    (l : List Task) : Prop :=
  (Going w names inbox d t (l ++ t.outbox.jobs.map Task.ofJob) ∧ t.Rested) ∨
    (Finished w t ∧ l ++ t.outbox.jobs.map Task.ofJob = [])

section Stages

variable {w : Scene} {names : List String} {inbox : Nat → List Call} {d : Nat} {t : Transfer} {l : List Task}

theorem Going.outcome (h : Going w names inbox d t l) (hr : t.Rested) (hjobs : t.outbox.jobs = []) :
    Outcome w names inbox d t l := by
  refine .inl ⟨?_, hr⟩
  rw [hjobs, List.map_nil, List.append_nil]
  exact h

/-! ## What each fact depends on -/

/-- Peers, requests and the part map do not matter to what goes on underneath. -/
theorem Grounded.update (h : Grounded w t) {p : Phase} (hp : p.isFinal = false) {disk : Disk}
    (written : Written w.original w.node w.disk disk) {metrics : Metrics} (counted : metrics.mismatches = 0)
    {shares : List Share} {parts : Option PartMap} {signature : Option Signature} {owing : Option String}
    {tally : Tally} {links : Array Link} {sent : Array (Nat × Call)} {outbox : Outbox} :
    Grounded w { t with phase := p, shares, parts, signature, owing, tally, disk, links, sent, metrics, outbox } :=
  ⟨h.target, h.chunk, h.admission, hp, h.temp, h.epoch, h.mismatches, counted, written, h.delta⟩

theorem Unmapped.update (h : t.Unmapped) {phase : Phase} {signature : Option Signature} {owing : Option String}
    {disk : Disk} {links : Array Link} {sent : Array (Nat × Call)} {outbox : Outbox} :
    Unmapped { t with phase, signature, owing, disk, links, sent, outbox } :=
  ⟨h.delta, h.parts, h.quiet, h.got_eq⟩

theorem Fetching.update {D : ByteArray} {n : Nat} {m : PartMap} (h : t.Fetching D n m) {phase : Phase}
    {links : Array Link} {outbox : Outbox} : Fetching D n { t with phase, links, outbox } m :=
  ⟨h.parts, h.length_eq, h.byte_eq, h.owed, h.pos, h.got_eq⟩

theorem Looking.update {k m : Nat} {c : String} {b : ByteArray} (h : t.Looking w k m c b) {u : Transfer}
    (hu : u.Unmapped) (hsignature : u.signature = t.signature) (howing : u.owing = t.owing) : u.Looking w k m c b :=
  ⟨hu, hsignature.trans h.signature, howing.trans h.owing, h.pos, h.le, h.safe, h.candidate, h.file⟩

/-! ## Phases -/

theorem setPhase_eq (t : Transfer) (p : Phase) :
    ∃ o : Outbox, t.setPhase p = { t with phase := p, outbox := o } ∧ o.jobs = t.outbox.jobs := by
  unfold setPhase
  split
  · next h => exact ⟨t.outbox, by rw [← h], rfl⟩
  · exact ⟨_, rfl, rfl⟩

/-- Where a transfer is does not depend on what its phase is called. -/
theorem Going.enter (h : Going w names inbox d t l) {p : Phase} (hp : p.isFinal = false) (o : Outbox) :
    Going w names inbox d { t with phase := p, outbox := o } l := by
  have hg := h.grounded
  refine ⟨hg.update hp hg.written hg.counted, h.pos, h.peers.update, ?_⟩
  cases h.stage with
  | waiting hu hs ho hp => exact .waiting hu.update hs ho hp
  | asking hu hs hm hstart ho => exact .asking hu.update hs hm hstart ho
  | looking hl hlook => exact .looking (hl.update hl.unmapped.update rfl rfl) hlook
  | fetching hf hmiss hs ho => exact .fetching hf.update hmiss hs ho
  | verifying hf hall ho htask => exact .verifying hf.update hall ho htask

theorem Going.setPhase (h : Going w names inbox d t l) {p : Phase} (hp : p.isFinal = false) :
    Going w names inbox d (t.setPhase p) l := by
  obtain ⟨o, heq, -⟩ := setPhase_eq t p
  rw [heq]
  exact h.enter hp o

/-! ## After an answer -/

theorem Fetching.rested {D : ByteArray} {n : Nat} {m : PartMap} (h : t.Fetching D n m) (hall : t.got = D.size) :
    t.Rested := by
  refine ⟨fun hnone => (nomatch h.parts.symm.trans hnone), fun m' hm' => .inl fun o ho => ?_⟩
  obtain rfl := Option.some.inj (h.parts.symm.trans hm')
  have := PartMap.isComplete_iff.1 (h.isComplete_iff.2 hall) o (PartMap.lt_length ho)
  rw [ho] at this
  exact nomatch this

theorem Going.send (h : Going w names inbox d t l) (hr : t.Inquired) :
    Going w names inbox d t.sendRequests l ∧ t.sendRequests.Rested := by
  have hunmapped : t.parts = none → Going w names inbox d t.sendRequests l ∧ t.sendRequests.Rested := by
    intro hparts
    rw [sendRequests_of_none (nextRange_unmapped hparts)]
    exact ⟨h, hr, fun m hm => (nomatch hparts.symm.trans hm)⟩
  have hstage := h.stage
  cases hstage with
  | waiting hu _ _ _ => exact hunmapped hu.parts
  | asking hu _ _ _ _ => exact hunmapped hu.parts
  | looking hl _ => exact hunmapped hl.unmapped.parts
  | @verifying m _ hf hall _ _ =>
    have hcomplete : m.isComplete := hf.isComplete_iff.2 hall
    rw [sendRequests_of_none (nextRange_complete hf.parts hcomplete)]
    exact ⟨h, hf.rested hall⟩
  | fetching hf hmiss hsigned howing =>
    obtain ⟨hp, m', hf', hc'⟩ := sendRequests_conserving h.peers hf h.grounded.chunk h.grounded.isOpen
    obtain ⟨hreceived, hreused, hcounted⟩ := sendRequests_metrics t
    have hgot : t.sendRequests.got = t.got := by rw [got, got, hreceived, hreused]
    have hframe := sendRequests_frame t
    have hg := h.grounded
    refine ⟨⟨?_, h.pos, hp, .fetching hf' ?_ ?_ ?_⟩, ?_⟩
    · refine ⟨?_, ?_, ?_, ?_, ?_, ?_, ?_, hcounted.trans hg.counted, ?_, ?_⟩
      · simpa using hg.target
      · simpa using hg.chunk
      · simpa using hg.admission
      · simpa using hg.isOpen
      · simpa using hg.temp
      · simpa using hg.epoch
      · simpa using hg.mismatches
      · simpa using hg.written
      · simpa using hg.delta
    · rwa [hgot]
    · simpa using hsigned
    · simpa using howing
    · refine ⟨fun hnone => (nomatch hf'.parts.symm.trans hnone), fun m hm => ?_⟩
      obtain rfl := Option.some.inj (hf'.parts.symm.trans hm)
      exact hc'

theorem ensureSignature_owed {s : Share} (hmem : s ∈ t.shares) (howing : t.owing = some s.id)
    (hable : ∀ q ∈ t.shares, q.broken = false) : t.ensureSignature = t := by
  unfold ensureSignature
  split
  · rfl
  · rw [howing]
    dsimp only
    rw [if_pos]
    cases hfind : t.share? s.id with
    | none => exact absurd (beq_self_eq_true s.id) (List.find?_eq_none.1 hfind s hmem)
    | some q =>
      have hq : q ∈ t.shares := List.mem_of_find?_eq_some hfind
      simp [hable q hq]

theorem ensureSignature_unowed (hu : t.Unmapped) (hs : t.signature = none) (howing : t.owing = none)
    (hopen : t.phase.isFinal = false) : t.ensureSignature = t.askSignature := by
  unfold ensureSignature
  rw [if_neg (by simp [hu.delta, hu.parts, hs, hopen]), howing]

theorem Peers.asked (h : t.Peers d names inbox) (howing : t.owing = none) {s : Share} (hmem : s ∈ t.shares)
    (hstarted : s.started) (hquiet : s.pending = []) (m : Metrics) :
    Peers { t.tell s.link .signature with metrics := m, owing := some s.id } d names inbox := by
  have hunread : ∀ k, Transfer.unread { t.tell s.link .signature with metrics := m, owing := some s.id } d k =
      t.unread d k ++ if s.link = k then [.signature] else [] :=
    fun k => unread_push h.delivered s.link .signature _ rfl k
  obtain ⟨i, hi⟩ := List.mem_iff_getElem?.1 hmem
  obtain ⟨hlt, heq⟩ := List.getElem?_eq_some_iff.1 hi
  have hset : t.shares = t.shares.set i s := by rw [← heq, List.set_getElem_self]
  refine h.change (i := i) (v := s) hi hset rfl rfl ⟨rfl, rfl, rfl⟩ ?_ h.accepting rfl (fun k hk => ?_)
    (fun q hq hne => ?_) ?_
  · show d ≤ (t.sent.push _).size
    rw [Array.size_push]
    exact Nat.le_succ_of_le h.delivered
  · rw [hunread, if_neg (Ne.symm hk), List.append_nil]
  · show some s.id = some q.id ↔ t.owing = some q.id
    rw [howing]
    refine ⟨fun heq => ?_, nofun⟩
    have := List.inj_on_of_nodup_map h.ids hmem hq (Option.some.inj heq)
    exact absurd (congrArg Share.link this).symm hne
  · have hold := h.queue s hmem
    rw [hunread, if_pos rfl, ← List.append_assoc]
    unfold Awaits at hold ⊢
    rw [if_pos hstarted, howing, hquiet] at hold
    rw [if_pos hstarted, if_pos rfl, hquiet, hold]
    rfl

/-- A peer that has started is asked for the signature; without one it has to wait. -/
theorem Going.ask (h : Going w names inbox d t []) (hu : t.Unmapped) (hs : t.signature = none)
    (howing : t.owing = none) (hpeers : t.shares ≠ []) :
    Going w names inbox d t.askSignature [] ∧ t.askSignature.outbox.jobs = t.outbox.jobs ∧
      t.askSignature.Inquired := by
  have hcan : ∀ s ∈ t.shares, (s.started && !s.broken && s.caps.supportsDelta) = s.started := by
    intro s hs
    obtain ⟨hcaps, hbroken, -⟩ := h.peers.able s hs
    rw [hcaps, hbroken]
    cases s.started <;> rfl
  unfold askSignature
  cases hfind : t.shares.find? fun s => s.started && !s.broken && s.caps.supportsDelta with
  | none =>
    have hnobody : ∀ s ∈ t.shares, s.started = false := by
      intro s hs
      have := List.find?_eq_none.1 hfind s hs
      rw [hcan s hs] at this
      exact Bool.not_eq_true _ ▸ this
    have hsome : t.shares.any fun s => !s.broken && s.caps.supportsDelta := by
      obtain ⟨s, hs⟩ := List.exists_mem_of_ne_nil _ hpeers
      obtain ⟨hcaps, hbroken, -⟩ := h.peers.able s hs
      exact List.any_eq_true.2 ⟨s, hs, by rw [hcaps, hbroken]; rfl⟩
    dsimp only
    rw [if_pos hsome]
    exact ⟨h, rfl, fun _ _ _ => hnobody⟩
  | some s =>
    have hmem : s ∈ t.shares := List.mem_of_find?_eq_some hfind
    have hstarted : s.started := by
      have := List.find?_some hfind
      rwa [hcan s hmem] at this
    dsimp only
    obtain ⟨o, heq, hjobs⟩ := setPhase_eq { t.tell s.link .signature with
      metrics := (t.tell s.link .signature).metrics.askSignature, owing := some s.id } .requestingSignature
    rw [heq]
    have hg := h.grounded
    refine ⟨⟨?_, h.pos, ?_, ?_⟩, hjobs, fun _ _ hnone => nomatch hnone⟩
    · have hcounted : t.metrics.askSignature.mismatches = 0 := hg.counted
      exact hg.update (p := .requestingSignature) rfl hg.written hcounted
    · exact (h.peers.asked howing hmem hstarted (hu.quiet s hmem) _).update
    · exact .asking ⟨hu.delta, hu.parts, hu.quiet, hu.got_eq⟩ hs hmem hstarted rfl

theorem Going.ensure (h : Going w names inbox d t l) :
    Going w names inbox d t.ensureSignature l ∧ t.ensureSignature.outbox.jobs = t.outbox.jobs ∧
      t.ensureSignature.Inquired := by
  have hdone : t.parts.isSome ∨ t.signature.isSome →
      Going w names inbox d t.ensureSignature l ∧ t.ensureSignature.outbox.jobs = t.outbox.jobs ∧
      t.ensureSignature.Inquired := by
    intro hsome
    rw [ensureSignature_settled hsome]
    refine ⟨h, rfl, fun hparts hsig => ?_⟩
    rw [hparts, hsig] at hsome
    simp at hsome
  have hstage := h.stage
  cases hstage with
  | fetching hf _ _ _ => exact hdone (.inl (by rw [hf.parts]; rfl))
  | verifying hf _ _ _ => exact hdone (.inl (by rw [hf.parts]; rfl))
  | looking hl _ => exact hdone (.inr (by rw [hl.signature]; rfl))
  | asking hu hs hmem hstarted howing =>
    rw [ensureSignature_owed hmem howing fun q hq => (h.peers.able q hq).2.1]
    exact ⟨h, rfl, fun _ _ hnone => nomatch howing.symm.trans hnone⟩
  | waiting hu hs howing hpeers =>
    rw [ensureSignature_unowed hu hs howing h.grounded.isOpen]
    exact h.ask hu hs howing hpeers

/-- After an answer, what is wanted is asked for. -/
theorem Going.resume (h : Going w names inbox d t l) (hjobs : t.outbox.jobs = []) :
    Outcome w names inbox d t.ensureSignature.sendRequests l := by
  obtain ⟨hgoing, hsame, hwanted⟩ := h.ensure
  obtain ⟨hgoing', hrested⟩ := hgoing.send hwanted
  refine hgoing'.outcome hrested ?_
  rw [show t.ensureSignature.sendRequests.outbox = t.ensureSignature.outbox by simp, hsame, hjobs]

/-! ## The last byte -/

theorem Fetching.content_eq (hf : ∃ m, t.Fetching w.original w.node m) (hg : Grounded w t)
    (hall : t.got = w.original.size) : t.disk.content w.node = w.original := by
  obtain ⟨m, hf⟩ := hf
  refine hg.written.content_eq fun o ho => hf.byte_eq o ?_
  exact PartMap.isComplete_iff.1 (hf.isComplete_iff.2 hall) o (hf.length_eq.symm ▸ ho)

theorem Grounded.finish (h : Grounded w t) (hcontent : t.disk.content w.node = w.original)
    (hgot : t.got = w.original.size) : Finished w t.complete ∧ t.complete.outbox.jobs = t.outbox.jobs := by
  obtain ⟨hends, hphase⟩ := complete_ends h.isOpen
  have hleads : t.complete.disk.LeadsTo w.target.temp w.node :=
    (w.leads.alike h.written.alike).alike (hends.alike w.node)
  have hmetrics : t.complete.metrics = t.metrics.complete := by
    unfold complete
    rw [if_neg (by simp [h.isOpen])]
    simp [notify]
  have hmismatches : t.complete.mismatches = t.mismatches := by
    unfold complete
    rw [if_neg (by simp [h.isOpen])]
    simp [notify]
  have hreleased : t.complete.released := by
    unfold complete
    rw [if_neg (by simp [h.isOpen])]
    simp [notify]
  refine ⟨⟨hphase, hreleased, ?_, hmismatches.trans h.mismatches, ?_, ?_⟩, hends.jobs⟩
  · rw [hleads.read, hends.content, hcontent]
  · rw [hmetrics]
    exact h.counted
  · rw [got, hmetrics]
    exact hgot

theorem Grounded.finish_unsigned (h : Grounded w t) (hcontent : t.disk.content w.node = w.original)
    (hgot : t.got = w.original.size) (hs : t.signature = none) (hjobs : t.outbox.jobs = []) :
    Finished w t.checkComplete ∧ t.checkComplete.outbox.jobs = [] := by
  obtain ⟨o, heq, ho⟩ := setPhase_eq t .verifying
  have hg : Grounded w { t with phase := .verifying, outbox := o } := h.update rfl h.written h.counted
  obtain ⟨hfinished, hsame⟩ := hg.finish hcontent hgot
  rw [checkComplete_unsigned hs, heq]
  exact ⟨hfinished, hsame.trans (ho.trans hjobs)⟩

/-- All bytes are there: the file is hashed, or it is the file. -/
theorem Grounded.credited (h : Grounded w t) (hpos : 0 < w.original.size) (hp : t.Peers d names inbox)
    {m : PartMap} (hf : t.Fetching w.original w.node m) (hall : t.got = w.original.size)
    (hsigned : ∀ s, t.signature = some s → s.digest = Sha256.digest w.original) (howing : t.owing = none)
    (hjobs : t.outbox.jobs = []) : Outcome w names inbox d t.checkComplete [] := by
  cases hs : t.signature with
  | none =>
    obtain ⟨hfinished, hnone⟩ := h.finish_unsigned (Fetching.content_eq ⟨m, hf⟩ h hall) hall hs hjobs
    exact .inr ⟨hfinished, by rw [hnone]; rfl⟩
  | some s =>
    obtain ⟨o, heq, ho⟩ := setPhase_eq t .verifying
    have hjob : (o.jobs ++ [Job.verify t.epoch s.digest]).map Task.ofJob =
        [.hash 0 (Sha256.digest w.original)] := by
      rw [ho, hjobs, h.epoch, hsigned s hs]
      rfl
    rw [checkComplete_signed hs, heq]
    refine .inl ⟨⟨h.update rfl h.written h.counted, hpos, hp.update, ?_⟩, hf.update.rested hall⟩
    show Stage w _ ([] ++ (o.jobs ++ [Job.verify t.epoch s.digest]).map Task.ofJob)
    rw [hjob]
    exact .verifying hf.update hall howing (.inl rfl)

/-! ## Idleness -/

theorem Going.owing_started (h : Going w names inbox d t l) {s : Share} (hs : s ∈ t.shares)
    (howing : t.owing = some s.id) : s.started := by
  cases h.stage with
  | waiting _ _ ho _ => exact nomatch ho.symm.trans howing
  | looking hl _ => exact nomatch hl.owing.symm.trans howing
  | fetching _ _ _ ho => exact nomatch ho.symm.trans howing
  | verifying _ _ ho _ => exact nomatch ho.symm.trans howing
  | @asking q _ _ hmem hstarted ho =>
    have heq : s.id = q.id := Option.some.inj (howing.symm.trans ho)
    obtain rfl := List.inj_on_of_nodup_map h.peers.ids hs hmem heq
    exact hstarted

/-- With peers, and no job under way, some queue is not empty. -/
theorem Going.not_idle (h : Going w names inbox t.sent.size t []) (hr : t.Rested) (hpeers : t.shares ≠ [])
    (hempty : ∀ i, inbox i = []) : False := by
  have hall : ∀ s ∈ t.shares, s.started ∧ t.owing ≠ some s.id ∧ s.pending = [] := by
    intro s hs
    have hqueue := h.peers.queue s hs
    rw [hempty, unread_size] at hqueue
    exact hqueue.nil
  cases h.stage with
  | waiting hu hs ho _ =>
    obtain ⟨s, hmem⟩ := List.exists_mem_of_ne_nil _ hpeers
    have := hr.signature hu.parts hs ho s hmem
    rw [(hall s hmem).1] at this
    exact nomatch this
  | asking hu hs hmem _ ho => exact (hall _ hmem).2.1 ho
  | @fetching m hf hmiss _ _ =>
    refine hmiss (hf.isComplete_iff.1 (hf.complete_of_quiet (hr.parts m hf.parts) (fun s hs => ?_) h.peers.able hpeers))
    exact ⟨(hall s hs).1, (hall s hs).2.2⟩

end Stages

end Transfer

end FileSwarm
