import FileSwarm.Proofs.Transfer.Changes

/-!
# Transfers that go on, and transfers that end

An operation on an open transfer leaves it open or ends it. What holds in either case is said once, for all of
them.

* `Onward t u` : the transfer goes on, and what it was made with stays; `Tacit t u` : nobody was asked for a range
  meanwhile; one rule for each small change (`Tacit.books`, `Tacit.setPhase`, `Tacit.tell`, ...);
* `Closes t u` : the transfer is over, everything it held is given back, and its end is announced once;
  `closes_complete`, `closes_breakDown`, `closes_abort`;
* `seat`, `enter`, `addPeer_eq`, `addPeer_refused` : a peer is let in, or is not;
* `Untouched`, `create_untouched` : what a transfer is made with.
-/

namespace FileSwarm

/-- The end that listeners are told of. -/
def Notice.announces : Notice → Option Phase
  | completed => some .completed
  | broken _ => some .broken
  | _ => none

/-- Whether a peer is asked for a range. -/
def Call.isRange : Call → Bool
  | range .. => true
  | _ => false

namespace Transfer

/-! ## Transfers that go on -/

/-- The transfer goes on. What it was made with stays, no end is announced or counted, no job is told. -/
structure Onward (t u : Transfer) : Prop where
  isOpen : u.phase.isFinal = false
  target : u.target = t.target
  tuning : u.tuning = t.tuning
  admission : u.admission = t.admission
  delta : u.delta = t.delta
  temp : u.temp = t.temp
  epoch : u.epoch = t.epoch
  released : u.released = t.released
  aborted : u.aborted = t.aborted
  completed : u.metrics.completed = t.metrics.completed
  broken : u.metrics.broken = t.metrics.broken
  jobs : u.outbox.jobs = t.outbox.jobs
  notices : ∃ more, u.outbox.notices = t.outbox.notices ++ more ∧ ∀ n ∈ more, n.announces = none

/-- The transfer goes on, and nobody was asked for a range. -/
structure Tacit (t u : Transfer) : Prop extends Onward t u where
  calls : ∃ more, u.sent = t.sent ++ more ∧ ∀ call ∈ more, call.2.isRange = false

section Onward

variable {t u v : Transfer}

theorem Onward.trans (h : Onward t u) (k : Onward u v) : Onward t v := by
  obtain ⟨l, hl, hl'⟩ := h.notices
  obtain ⟨l₂, hl₂, hl₂'⟩ := k.notices
  refine ⟨k.isOpen, k.target.trans h.target, k.tuning.trans h.tuning, k.admission.trans h.admission,
    k.delta.trans h.delta, k.temp.trans h.temp, k.epoch.trans h.epoch, k.released.trans h.released,
    k.aborted.trans h.aborted, k.completed.trans h.completed, k.broken.trans h.broken, k.jobs.trans h.jobs,
    l ++ l₂, ?_, ?_⟩
  · rw [hl₂, hl, List.append_assoc]
  · intro n hn
    exact (List.mem_append.1 hn).elim (hl' n) (hl₂' n)

theorem Tacit.trans (h : Tacit t u) (k : Tacit u v) : Tacit t v := by
  obtain ⟨l, hl, hl'⟩ := h.calls
  obtain ⟨l₂, hl₂, hl₂'⟩ := k.calls
  refine ⟨h.toOnward.trans k.toOnward, l ++ l₂, ?_, ?_⟩
  · rw [hl₂, hl, Array.append_assoc]
  · intro call hcall
    exact (Array.mem_append.1 hcall).elim (hl' call) (hl₂' call)

theorem tacit_books (hopen : t.phase.isFinal = false) {shares : List Share} {parts : Option PartMap}
    {signature : Option Signature} {owing : Option String} {tally : Tally} {mismatches cursor : Nat} {disk : Disk}
    {links : Array Link} {metrics : Metrics} (hcompleted : metrics.completed = t.metrics.completed)
    (hbroken : metrics.broken = t.metrics.broken) :
    Tacit t { t with shares, parts, signature, owing, tally, mismatches, cursor, disk, links, metrics } :=
  ⟨⟨hopen, rfl, rfl, rfl, rfl, rfl, rfl, rfl, rfl, hcompleted, hbroken, rfl, [], by simp, nofun⟩, #[], by simp, nofun⟩

theorem Tacit.refl (hopen : t.phase.isFinal = false) : Tacit t t := tacit_books hopen rfl rfl

theorem Tacit.books (h : Tacit t u) {shares : List Share} {parts : Option PartMap}
    {signature : Option Signature} {owing : Option String} {tally : Tally} {mismatches cursor : Nat} {disk : Disk}
    {links : Array Link} {metrics : Metrics} (hcompleted : metrics.completed = u.metrics.completed)
    (hbroken : metrics.broken = u.metrics.broken) :
    Tacit t { u with shares, parts, signature, owing, tally, mismatches, cursor, disk, links, metrics } :=
  h.trans (tacit_books h.isOpen hcompleted hbroken)

theorem Tacit.setPhase (h : Tacit t u) {p : Phase} (hp : p.isFinal = false) : Tacit t (u.setPhase p) := by
  refine h.trans ?_
  unfold Transfer.setPhase
  split
  · exact .refl h.isOpen
  · exact ⟨⟨hp, rfl, rfl, rfl, rfl, rfl, rfl, rfl, rfl, rfl, rfl, rfl, [.phaseChanged u.phase p], rfl,
      by simp [Notice.announces]⟩, #[], by simp [notify], nofun⟩

theorem Tacit.tell (h : Tacit t u) {link : Nat} {c : Call} (hc : c.isRange = false) : Tacit t (u.tell link c) :=
  h.trans ⟨⟨h.isOpen, rfl, rfl, rfl, rfl, rfl, rfl, rfl, rfl, rfl, rfl, rfl, [], by simp [Transfer.tell], nofun⟩,
    #[(link, c)], by simp [Transfer.tell], by simp [hc]⟩

theorem Tacit.fetchAll (h : Tacit t u) : Tacit t u.fetchAll := Tacit.setPhase (h.books rfl rfl) rfl

theorem Tacit.ensureSignature (h : Tacit t u) : Tacit t u.ensureSignature := by
  rcases ensureSignature_cases u with e | ⟨-, owing, e⟩
  · rw [e]
    exact h
  · have howing : Tacit t { u with owing } := h.books rfl rfl
    rw [e]
    rcases askSignature_cases { u with owing } with ⟨s, -, -, -, -, e⟩ | e | ⟨-, e⟩
    · rw [e]
      have htold : Tacit t (Transfer.tell { u with owing } s.link .signature) := howing.tell rfl
      have hasked : Tacit t { Transfer.tell { u with owing } s.link .signature with
          metrics := u.metrics.askSignature
          owing := some s.id } := htold.books rfl rfl
      exact hasked.setPhase rfl
    · rw [e]
      exact howing
    · rw [e]
      exact howing.fetchAll

/-- What a transfer is made with, and does not change while it goes on. -/
structure Made (t u : Transfer) : Prop where
  target : u.target = t.target
  tuning : u.tuning = t.tuning
  admission : u.admission = t.admission
  delta : u.delta = t.delta
  temp : u.temp = t.temp

theorem Made.trans (h : Made t u) (k : Made u v) : Made t v :=
  ⟨k.target.trans h.target, k.tuning.trans h.tuning, k.admission.trans h.admission, k.delta.trans h.delta,
    k.temp.trans h.temp⟩

theorem Onward.made (h : Onward t u) : Made t u := ⟨h.target, h.tuning, h.admission, h.delta, h.temp⟩

theorem onward_sendRequests (hopen : t.phase.isFinal = false) : Onward t t.sendRequests := by
  refine sendRequests_induction (P := Onward t) ?_ ?_ (Tacit.refl hopen).toOnward
  · intro u links sent h
    exact h.trans ⟨h.isOpen, rfl, rfl, rfl, rfl, rfl, rfl, rfl, rfl, rfl, rfl, rfl, [], by simp, nofun⟩
  · rintro u m r i s v ⟨-, -, -, -, links, sent, rfl⟩ h
    exact h.trans ⟨h.isOpen, rfl, rfl, rfl, rfl, rfl, rfl, rfl, rfl, rfl, rfl, rfl, [], by simp, nofun⟩

end Onward

/-! ## Transfers that end -/

/-- An open transfer is over now. It lets go of all it held, jobs under way lose their meaning, and its end is
announced and counted once, if it is one that is announced. -/
structure Closes (t u : Transfer) : Prop where
  final : u.phase.isFinal
  released : u.released
  parts : u.parts = none
  signature : u.signature = none
  owing : u.owing = none
  temp : u.temp = none
  target : u.target = t.target
  epoch : u.epoch = t.epoch + 1
  jobs : u.outbox.jobs = t.outbox.jobs
  notices : ∃ more, u.outbox.notices = t.outbox.notices ++ more ∧
    ∀ p, p ≠ .aborted → more.countP (·.announces = some p) = if u.phase = p then 1 else 0
  completed : u.metrics.completed = t.metrics.completed + if u.phase = .completed then 1 else 0
  broken : u.metrics.broken = t.metrics.broken + if u.phase = .broken then 1 else 0
  calls : ∃ more, u.sent = t.sent ++ more ∧ ∀ call ∈ more, call.2.isRange = false

section Closes

variable {t u v : Transfer}

theorem Closes.not_open (h : Closes t u) : ¬ u.phase.isFinal = false := by simp [h.final]

theorem Tacit.closes (h : Tacit t u) (k : Closes u v) : Closes t v := by
  obtain ⟨l, hl, hl'⟩ := h.notices
  obtain ⟨l₂, hl₂, hl₂'⟩ := k.notices
  obtain ⟨a, ha, ha'⟩ := h.calls
  obtain ⟨a₂, ha₂, ha₂'⟩ := k.calls
  refine ⟨k.final, k.released, k.parts, k.signature, k.owing, k.temp, k.target.trans h.target,
    k.epoch.trans (congrArg (· + 1) h.epoch), k.jobs.trans h.jobs, ⟨l ++ l₂, ?_, ?_⟩, ?_, ?_, a ++ a₂, ?_, ?_⟩
  · rw [hl₂, hl, List.append_assoc]
  · intro p hp
    have hnone : l.countP (·.announces = some p) = 0 := by
      rw [List.countP_eq_zero]
      intro n hn
      simp [hl' n hn]
    rw [List.countP_append, hnone, hl₂' p hp, Nat.zero_add]
  · rw [k.completed, h.completed]
  · rw [k.broken, h.broken]
  · rw [ha₂, ha, Array.append_assoc]
  · intro call hcall
    exact (Array.mem_append.1 hcall).elim (ha' call) (ha₂' call)

theorem release_eq (h : t.released = false) : ∃ disk, t.release = { t with
    epoch := t.epoch + 1, released := true, parts := none, signature := none, owing := none, temp := none, disk } := by
  unfold release
  dsimp only
  rw [if_neg (by simp [h])]
  exact ⟨_, rfl⟩

theorem setPhase_ne {p : Phase} (h : t.phase ≠ p) :
    t.setPhase p = { t with phase := p }.notify (.phaseChanged t.phase p) := by
  rw [setPhase, if_neg h]

theorem closes_complete (hopen : t.phase.isFinal = false) (hreleased : t.released = false) : Closes t t.complete := by
  have hne : t.phase ≠ .completed := by
    intro hp
    rw [hp] at hopen
    exact nomatch hopen
  unfold complete
  rw [if_neg (by simp [hopen]), setPhase_ne hne]
  dsimp only
  obtain ⟨disk, hrel⟩ := release_eq (t := {
    { t with phase := .completed }.notify (.phaseChanged t.phase .completed) with
    metrics := ({ t with phase := .completed }.notify (.phaseChanged t.phase .completed)).metrics.complete }) hreleased
  rw [hrel]
  refine ⟨rfl, rfl, rfl, rfl, rfl, rfl, rfl, rfl, rfl,
    ⟨[.phaseChanged t.phase .completed, .completed], by simp [notify], fun p _ => ?_⟩, rfl,
    by simp [notify, Metrics.complete], #[], by simp [notify], nofun⟩
  cases p <;> rfl

theorem closes_breakDown (hopen : t.phase.isFinal = false) (hreleased : t.released = false) (why : Breakage) :
    Closes t (t.breakDown why) := by
  have hne : t.phase ≠ .broken := by
    intro hp
    rw [hp] at hopen
    exact nomatch hopen
  unfold breakDown
  rw [if_neg (by simp [hopen]), setPhase_ne hne]
  dsimp only
  rw [tellAll_eq]
  dsimp only [notify]
  obtain ⟨disk, hrel⟩ := release_eq (t := { t with
    phase := .broken
    outbox := { t.outbox with notices := t.outbox.notices ++ [.phaseChanged t.phase .broken] }
    metrics := t.metrics.breakDown
    shares := t.shares.map Share.markBroken
    sent := t.sent ++ ((t.shares.map Share.markBroken).map fun s => (s.link, Call.abort)).toArray }) hreleased
  rw [hrel]
  refine ⟨rfl, rfl, rfl, rfl, rfl, rfl, rfl, rfl, rfl,
    ⟨[.phaseChanged t.phase .broken, .broken why], by simp, fun p _ => ?_⟩, by simp [Metrics.breakDown], rfl,
    _, rfl, ?_⟩
  · cases p <;> rfl
  · intro call hcall
    simp only [List.mem_toArray, List.mem_map] at hcall
    obtain ⟨s, -, rfl⟩ := hcall
    rfl

theorem closes_abort (hopen : t.phase.isFinal = false) (hreleased : t.released = false) (haborted : t.aborted = false) :
    Closes t t.abort := by
  have hne : t.phase ≠ .aborted := by
    intro hp
    rw [hp] at hopen
    exact nomatch hopen
  unfold abort
  rw [if_neg (by simp [haborted])]
  dsimp only
  rw [tellAll_eq]
  dsimp only
  rw [if_neg (by simp [hopen]), setPhase, if_neg hne]
  dsimp only [notify]
  obtain ⟨disk, hrel⟩ := release_eq (t := { t with
    phase := .aborted
    aborted := true
    outbox := { t.outbox with notices := t.outbox.notices ++ [.phaseChanged t.phase .aborted] }
    sent := t.sent ++ (t.shares.map fun s => (s.link, Call.abort)).toArray }) hreleased
  rw [hrel]
  refine ⟨rfl, rfl, rfl, rfl, rfl, rfl, rfl, rfl, rfl,
    ⟨[.phaseChanged t.phase .aborted], rfl, fun p hp => ?_⟩, by simp, by simp, _, rfl, ?_⟩
  · cases p <;> first | rfl | exact absurd rfl hp
  · intro call hcall
    simp only [List.mem_toArray, List.mem_map] at hcall
    obtain ⟨s, -, rfl⟩ := hcall
    rfl

theorem Closes.redisk (h : Closes t u) (disk : Disk) : Closes t { u with disk } :=
  ⟨h.final, h.released, h.parts, h.signature, h.owing, h.temp, h.target, h.epoch, h.jobs, h.notices, h.completed,
    h.broken, h.calls⟩

end Closes

/-! ## Peers that are let in -/

/-- Where a peer that joins is told to start: at the first needed byte. -/
def offset (t : Transfer) : Nat := ((t.parts.bind (·.first? .needed)).map (·.start)).getD 0

/-- A peer is let in over a link of its own, and told where to start. -/
def seat (t : Transfer) (s : Share) (answers : Nat → Bool) : Transfer :=
  { t with
    links := t.links.push ⟨s.id, answers, 0⟩
    sent := t.sent.push (t.links.size, .file t.offset)
    shares := t.shares ++ [{ s with link := t.links.size }.withBudget t.tuning.maxRequests] }

/-- The download begins with the first peer, if it is known what is needed. -/
def enter (t : Transfer) : Transfer :=
  if t.phase = .initial && t.parts.isSome then t.setPhase .downloading else t

section Joining

variable {t u : Transfer} {s : Share} {answers : Nat → Bool}

theorem Tacit.seat (h : Tacit t u) (s : Share) (answers : Nat → Bool) : Tacit t (u.seat s answers) := by
  have htold : Tacit t (u.tell u.links.size (.file u.offset)) := h.tell rfl
  exact htold.books rfl rfl

theorem Tacit.enter (h : Tacit t u) : Tacit t u.enter := by
  unfold Transfer.enter
  split
  · exact h.setPhase rfl
  · exact h

theorem addPeer_eq (hopen : t.phase.isFinal = false) (hnew : t.isAttached s.id = false)
    (haccept : t.admission.refusal? t.shares.length t.byParts s.caps = none) :
    ((t.connect ⟨s.id, answers, 0⟩).1.addPeer { s with link := t.links.size }).1 =
      if t.target.size = 0 then (t.seat s answers).complete
      else (t.seat s answers).enter.ensureSignature.sendRequests := by
  have hnew' : (t.connect ⟨s.id, answers, 0⟩).1.isAttached { s with link := t.links.size }.id = false := hnew
  have haccept' : (t.connect ⟨s.id, answers, 0⟩).1.admission.refusal? (t.connect ⟨s.id, answers, 0⟩).1.shares.length
      (t.connect ⟨s.id, answers, 0⟩).1.byParts { s with link := t.links.size }.caps = none := haccept
  unfold addPeer
  rw [if_neg (by simp [connect, hopen]), if_neg (by simp [hnew']), haccept']
  dsimp only [tell, connect]
  split <;> rfl

/-- A peer that is turned down leaves nothing but a connection. -/
theorem addPeer_refused (hopen : t.phase.isFinal = false)
    (h : t.isAttached s.id ∨ ∃ why, t.admission.refusal? t.shares.length t.byParts s.caps = some why) :
    ((t.connect ⟨s.id, answers, 0⟩).1.addPeer { s with link := t.links.size }).1 =
      (t.connect ⟨s.id, answers, 0⟩).1 := by
  unfold addPeer
  rw [if_neg (by simp [connect, hopen])]
  split
  · rfl
  · next hnew =>
    rcases h with h | ⟨why, h⟩
    · exact absurd h hnew
    · have hrefused : (t.connect ⟨s.id, answers, 0⟩).1.admission.refusal?
          (t.connect ⟨s.id, answers, 0⟩).1.shares.length (t.connect ⟨s.id, answers, 0⟩).1.byParts
          { s with link := t.links.size }.caps = some why := h
      rw [hrefused]

end Joining

/-! ## Transfers to which nothing happened -/

/-- What a transfer is made with. -/
structure Untouched (file : Target) (limits : Tuning) (rule : Admission) (t : Transfer) : Prop where
  target : t.target = file
  tuning : t.tuning = limits
  admission : t.admission = rule
  phase : t.phase = .initial
  shares : t.shares = []
  parts : t.parts = if t.delta then none else some (PartMap.blank file.size)
  signature : t.signature = none
  temp : t.temp.isSome
  released : t.released = false
  aborted : t.aborted = false
  links : t.links = #[]
  sent : t.sent = #[]
  metrics : t.metrics = .zero
  outbox : t.outbox = .empty
  owing : t.owing = none
  tally : t.tally = .start 0 file.size
  mismatches : t.mismatches = 0
  planned : t.delta → t.target.candidate.isSome

theorem create_untouched {target : Target} {tuning : Tuning} {admission : Admission} {disk made : Disk} {t : Transfer}
    (h : create target tuning admission disk = (.ok t, made)) : Untouched target tuning admission t := by
  unfold create at h
  split at h
  · exact nomatch (Prod.mk.inj h).1
  · obtain ⟨ht, -⟩ := Prod.mk.inj h
    cases ht
    refine ⟨rfl, rfl, rfl, rfl, rfl, rfl, rfl, rfl, rfl, rfl, rfl, rfl, rfl, rfl, rfl, rfl, rfl, fun hdelta => ?_⟩
    simp only [Bool.and_eq_true] at hdelta
    exact Option.isSome_of_any hdelta.2

theorem Untouched.parts_eq {file : Target} {limits : Tuning} {rule : Admission} {t : Transfer}
    (h : t.Untouched file limits rule) {m : PartMap} (hm : t.parts = some m) : m = .blank file.size := by
  rw [h.parts] at hm
  split at hm
  · exact nomatch hm
  · exact (Option.some.inj hm).symm

end Transfer

end FileSwarm
