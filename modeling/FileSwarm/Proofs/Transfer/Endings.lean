import FileSwarm.Proofs.Transfer.Outcomes

/-!
# A transfer ends once, and for good

Jobs go on when a transfer is over, peers talk on, and callers may abort what has ended. None of it has any effect,
except that an abort is passed on to the peers.

* `Rests t u` : a transfer that is over stays as it ended; `operate_final` : whatever happens;
* `Orderly c` : what every course keeps; over means let go of everything, jobs that count are of the present epoch, and
  ends are counted; `orderly_start`, `Orderly.step`, `orderly_run`;
* `Orderly.open_prefix`, `Orderly.uncleaned` : a transfer that is open was open all along, and nobody took its temp file
  away;
* `Orderly.open_history`, `Orderly.open_run` : what every outcome keeps while a transfer goes on holds all along its
  course; `made_run` : so does what it was made with;
* `delivered`, `notices` : what an event leaves for listeners and workers, and all that is heard in a course;
  `announced_run` : each end is announced once;
* `ended_for_good` : all of it, of every course.
-/

namespace FileSwarm

namespace Transfer

/-- A transfer that is over stays as it ended. It may pass on an abort, and may take another epoch. -/
structure Rests (t u : Transfer) : Prop where
  phase : u.phase = t.phase
  parts : u.parts = t.parts
  signature : u.signature = t.signature
  owing : u.owing = t.owing
  temp : u.temp = t.temp
  tally : u.tally = t.tally
  mismatches : u.mismatches = t.mismatches
  released : u.released = t.released
  metrics : u.metrics = t.metrics
  outbox : u.outbox = t.outbox
  epoch : t.epoch ≤ u.epoch
  calls : ∃ more, u.sent = t.sent ++ more ∧ ∀ call ∈ more, call.2 = .abort

section Rests

variable {t u v : Transfer}

theorem rests_books {shares : List Share} {disk : Disk} {links : Array Link} :
    Rests t { t with shares, disk, links } :=
  ⟨rfl, rfl, rfl, rfl, rfl, rfl, rfl, rfl, rfl, rfl, Nat.le_refl _, #[], by simp, nofun⟩

theorem Rests.refl (t : Transfer) : Rests t t := rests_books

theorem Rests.trans (h : Rests t u) (k : Rests u v) : Rests t v := by
  obtain ⟨a, ha, ha'⟩ := h.calls
  obtain ⟨b, hb, hb'⟩ := k.calls
  refine ⟨k.phase.trans h.phase, k.parts.trans h.parts, k.signature.trans h.signature, k.owing.trans h.owing,
    k.temp.trans h.temp, k.tally.trans h.tally, k.mismatches.trans h.mismatches, k.released.trans h.released,
    k.metrics.trans h.metrics, k.outbox.trans h.outbox, Nat.le_trans h.epoch k.epoch, a ++ b, ?_, ?_⟩
  · rw [hb, ha, Array.append_assoc]
  · intro call hcall
    exact (Array.mem_append.1 hcall).elim (ha' call) (hb' call)

/-- An abort is passed on, the first time. -/
theorem rests_abort (hfinal : t.phase.isFinal) (hreleased : t.released) : Rests t t.abort := by
  unfold abort
  split
  · exact .refl t
  · dsimp only
    rw [tellAll_eq]
    dsimp only
    rw [if_pos hfinal]
    unfold release
    dsimp only
    rw [if_pos hreleased]
    refine ⟨rfl, rfl, rfl, rfl, rfl, rfl, rfl, rfl, rfl, rfl, Nat.le_succ _, _, rfl, fun call hcall => ?_⟩
    simp only [List.mem_toArray, List.mem_map] at hcall
    obtain ⟨s, -, rfl⟩ := hcall
    rfl

end Rests

end Transfer

namespace Course

variable {c d : Course}

theorem hands_final {t : Transfer} (hfinal : t.phase.isFinal) {task : Task} (h : task.isWork = false) :
    task.step t = (t, none) := by
  have hstale : ∀ epoch, t.isCurrent epoch = false := fun epoch => by
    rw [Transfer.isCurrent, hfinal]
    simp
  cases task with
  | searched epoch s candidate temp found =>
    cases found <;> simp [Task.step, Transfer.acceptMatches, accept_final hfinal, hstale]
  | copied epoch r => simp only [Task.step, Transfer.acceptCopy, accept_final hfinal]
  | hashed epoch r => simp only [Task.step, Transfer.acceptVerdict, accept_final hfinal]
  | _ => cases h

theorem rests_work {t : Transfer} (hfinal : t.phase.isFinal) (task : Task) :
    t.Rests (task.step t).1 ∧ ∀ next, (task.step t).2 = some next → next.epoch = task.epoch := by
  cases h : task.isWork with
  | false =>
    rw [hands_final hfinal h]
    exact ⟨.refl t, nofun⟩
  | true =>
    obtain ⟨disk, next, hstep, hfollows⟩ := work_follows t h
    rw [hstep]
    exact ⟨Transfer.rests_books, fun _ hnext => Option.some.inj hnext ▸ hfollows.epoch⟩

/-- Whatever happens to a transfer that is over, it rests, and no job is told. -/
theorem operate_final (hfinal : c.transfer.phase.isFinal) (hreleased : c.transfer.released) (e : Event) :
    c.transfer.Rests (c.operate e).1 ∧ ∀ task ∈ (c.operate e).2, ∃ old ∈ c.tasks, task.epoch = old.epoch := by
  have hkept : ∀ task ∈ c.tasks, ∃ old ∈ c.tasks, task.epoch = old.epoch := fun task ht => ⟨task, ht, rfl⟩
  cases e with
  | join share answers =>
    rw [operate, Transfer.addPeer, if_pos (show (c.transfer.connect _).1.phase.isFinal from hfinal)]
    exact ⟨Transfer.rests_books, hkept⟩
  | ready id =>
    rw [operate, Transfer.peerReady, if_pos hfinal]
    refine ⟨?_, hkept⟩
    split <;> exact .refl _
  | leave id =>
    rw [operate, Transfer.removePeer]
    refine ⟨?_, hkept⟩
    cases c.transfer.share? id with
    | none => exact .refl _
    | some s =>
      dsimp only
      rw [if_pos hfinal]
      exact Transfer.rests_books
  | chunk id offset bytes =>
    rw [operate, Transfer.receiveChunk, hfinal, Bool.true_or, Bool.true_or, if_pos rfl]
    exact ⟨.refl _, hkept⟩
  | signature s =>
    rw [operate, Transfer.receiveSignature, hfinal, Bool.true_or, if_pos rfl]
    exact ⟨.refl _, hkept⟩
  | send =>
    rw [operate, Transfer.sendRequests, hfinal, Bool.true_or, if_pos rfl]
    exact ⟨.refl _, hkept⟩
  | breakByCaller =>
    rw [operate, Transfer.breakByCaller, breakDown_final hfinal]
    exact ⟨.refl _, hkept⟩
  | abort => exact ⟨Transfer.rests_abort hfinal hreleased, hkept⟩
  | cleanUp => exact ⟨(Transfer.rests_abort hfinal hreleased).trans Transfer.rests_books, hkept⟩
  | work i =>
    rw [operate]
    cases here : c.tasks[i]? with
    | none => exact ⟨.refl _, hkept⟩
    | some task =>
      obtain ⟨hrests, hnext⟩ := rests_work hfinal task
      refine ⟨hrests, fun a ha => ?_⟩
      rcases mem_replaced ha with ha | ha
      · exact hkept a ha
      · exact ⟨task, List.mem_of_getElem? here, hnext a ha⟩
  | crash i message =>
    rw [operate]
    cases here : c.tasks[i]? with
    | none => exact ⟨.refl _, hkept⟩
    | some task =>
      dsimp only
      rw [Transfer.acceptCrash, accept_final hfinal]
      exact ⟨.refl _, fun task ht => hkept task (mem_of_mem_erased task ht)⟩
  | edit disk =>
    rw [operate]
    split
    · exact ⟨Transfer.rests_books, hkept⟩
    · exact ⟨.refl _, hkept⟩

/-! ## What every course keeps -/

/-- A transfer is over when it has let go of everything, and then only. Jobs under way were told at the present epoch,
or before it if the transfer is over; none of those that count was asked to stop. Ends are counted. -/
structure Orderly (c : Course) : Prop where
  emptied : c.transfer.outbox = .empty
  released : c.transfer.released = c.transfer.phase.isFinal
  aborted : c.transfer.phase.isFinal = false → c.transfer.aborted = false
  gone : c.transfer.phase.isFinal → c.transfer.parts = none ∧ c.transfer.signature = none ∧
    c.transfer.owing = none ∧ c.transfer.temp = none
  current : c.transfer.phase.isFinal = false → ∀ task ∈ c.tasks, task.epoch = c.transfer.epoch
  stale : c.transfer.phase.isFinal → ∀ task ∈ c.tasks, task.epoch < c.transfer.epoch
  heeded : c.transfer.phase.isFinal = false → ∀ task ∈ c.tasks, task.failure? ≠ some .cancelled
  completed : c.transfer.metrics.completed = if c.transfer.phase = .completed then 1 else 0
  broken : c.transfer.metrics.broken = if c.transfer.phase = .broken then 1 else 0

theorem start_tasks {file : Target} {limits : Tuning} {rule : Admission} {t : Transfer}
    (h : t.Untouched file limits rule) : (start t).tasks = [] := by
  show [] ++ t.outbox.jobs.map Task.ofJob = []
  rw [h.outbox]
  rfl

theorem orderly_start {file : Target} {limits : Tuning} {rule : Admission} {t : Transfer}
    (h : t.Untouched file limits rule) : Orderly (start t) := by
  have htasks : (start t).tasks = [] := start_tasks h
  have hopen : t.phase.isFinal = false := by rw [h.phase]; rfl
  refine ⟨rfl, ?_, fun _ => h.aborted, fun hf => ?_, fun _ => ?_, fun hf => ?_, fun _ => ?_, ?_, ?_⟩
  · exact h.released.trans hopen.symm
  · exact absurd hf (by show ¬ t.phase.isFinal = true; simp [hopen])
  · rw [htasks]
    exact nofun
  · exact absurd hf (by show ¬ t.phase.isFinal = true; simp [hopen])
  · rw [htasks]
    exact nofun
  · show t.metrics.completed = if t.phase = .completed then 1 else 0
    rw [h.metrics, h.phase]
    rfl
  · show t.metrics.broken = if t.phase = .broken then 1 else 0
    rw [h.metrics, h.phase]
    rfl

theorem not_completed {t : Transfer} (h : t.phase.isFinal = false) : t.phase ≠ .completed ∧ t.phase ≠ .broken := by
  constructor <;>
  · intro hp
    rw [hp] at h
    exact nomatch h

namespace Orderly

theorem idle (h : Orderly c) : c.transfer.outbox.jobs = [] := by
  rw [h.emptied]
  rfl

theorem rests (h : Orderly c) {u : Transfer} {l : List Task} (hfinal : c.transfer.phase.isFinal)
    (hrests : c.transfer.Rests u) (hl : ∀ task ∈ l, ∃ old ∈ c.tasks, task.epoch = old.epoch) :
    Orderly (settle u l) := by
  have hfinal' : u.phase.isFinal := by rwa [hrests.phase]
  have hnever : ∀ {P : Prop}, u.phase.isFinal = false → P := fun ho => by simp [hfinal'] at ho
  rw [settle_idle ((congrArg Outbox.jobs hrests.outbox).trans h.idle)]
  refine ⟨rfl, ?_, hnever, fun _ => ?_, hnever, fun _ task ht => ?_, hnever, ?_, ?_⟩
  · show u.released = u.phase.isFinal
    rw [hrests.released, hrests.phase, h.released]
  · show u.parts = none ∧ u.signature = none ∧ u.owing = none ∧ u.temp = none
    rw [hrests.parts, hrests.signature, hrests.owing, hrests.temp]
    exact h.gone hfinal
  · obtain ⟨old, hold, heq⟩ := hl task ht
    rw [heq]
    exact Nat.lt_of_lt_of_le (h.stale hfinal old hold) hrests.epoch
  · show u.metrics.completed = if u.phase = .completed then 1 else 0
    rw [hrests.metrics, hrests.phase, h.completed]
  · show u.metrics.broken = if u.phase = .broken then 1 else 0
    rw [hrests.metrics, hrests.phase, h.broken]

theorem closes (h : Orderly c) {u : Transfer} {l : List Task} (hopen : c.transfer.phase.isFinal = false)
    (hcloses : c.transfer.Closes u) (hl : ∀ task ∈ l, task ∈ c.tasks) : Orderly (settle u l) := by
  obtain ⟨hcompleted, hbroken⟩ := not_completed hopen
  have hfinal := hcloses.final
  have hnever : ∀ {P : Prop}, u.phase.isFinal = false → P := fun ho => by simp [hfinal] at ho
  rw [settle_idle (hcloses.jobs.trans h.idle)]
  refine ⟨rfl, ?_, hnever, fun _ => ⟨hcloses.parts, hcloses.signature, hcloses.owing, hcloses.temp⟩, hnever,
    fun _ task ht => ?_, hnever, ?_, ?_⟩
  · exact hcloses.released.trans hfinal.symm
  · show task.epoch < u.epoch
    rw [hcloses.epoch, h.current hopen task (hl task ht)]
    exact Nat.lt_succ_self _
  · show u.metrics.completed = if u.phase = .completed then 1 else 0
    rw [hcloses.completed, h.completed, if_neg hcompleted, UInt64.zero_add]
  · show u.metrics.broken = if u.phase = .broken then 1 else 0
    rw [hcloses.broken, h.broken, if_neg hbroken, UInt64.zero_add]

theorem onward (h : Orderly c) {v : Transfer} {l : List Task} (hopen : c.transfer.phase.isFinal = false)
    (honward : c.transfer.Onward v) (hl : ∀ task ∈ l, task.epoch = c.transfer.epoch ∧ task.failure? ≠ some .cancelled) :
    Orderly ⟨{ v with outbox := .empty }, l⟩ := by
  obtain ⟨hcompleted, hbroken⟩ := not_completed hopen
  obtain ⟨hcompleted', hbroken'⟩ := not_completed honward.isOpen
  have hnever : ∀ {P : Prop}, v.phase.isFinal → P := fun hf => by simp [honward.isOpen] at hf
  refine ⟨rfl, ?_, fun _ => ?_, hnever, fun _ task ht => ?_, hnever, fun _ task ht => (hl task ht).2, ?_, ?_⟩
  · show v.released = v.phase.isFinal
    rw [honward.released, h.released, hopen, honward.isOpen]
  · exact honward.aborted.trans (h.aborted hopen)
  · exact (hl task ht).1.trans honward.epoch.symm
  · show v.metrics.completed = if v.phase = .completed then 1 else 0
    rw [honward.completed, h.completed, if_neg hcompleted, if_neg hcompleted']
  · show v.metrics.broken = if v.phase = .broken then 1 else 0
    rw [honward.broken, h.broken, if_neg hbroken, if_neg hbroken']

theorem step (h : Orderly c) (e : Event) : Orderly (c.step e) := by
  rw [step_eq h.emptied]
  cases hf : c.transfer.phase.isFinal with
  | true =>
    obtain ⟨hrests, hl⟩ := operate_final hf (h.released.trans hf) e
    exact h.rests hf hrests hl
  | false =>
    rcases (outcome_operate hf (h.released.trans hf) (h.aborted hf) e).cases hf with
      ⟨hcloses, hl⟩ | ⟨v, honward, hu, hl⟩
    · exact h.closes hf hcloses hl
    · have hold : ∀ task ∈ (c.operate e).2, task.epoch = c.transfer.epoch ∧ task.failure? ≠ some .cancelled := by
        intro task ht
        rcases hl task ht with ht | ⟨old, hold, heq, hheeded⟩
        · exact ⟨h.current hf task ht, h.heeded hf task ht⟩
        · have hcurrent := h.current hf old hold
          exact ⟨heq.trans hcurrent, hheeded hcurrent.symm⟩
      have hnone : v.outbox.jobs = [] := honward.jobs.trans h.idle
      rcases hu with hu | ⟨j, hj, hu⟩
      · rw [hu, settle_idle hnone]
        exact h.onward hf honward hold
      · have hjob : (v.queueJob j).outbox.jobs = [j] := by simp [Transfer.queueJob, hnone]
        rw [hu, settle_job hjob]
        show Orderly ⟨{ v with outbox := .empty }, _⟩
        refine h.onward hf honward fun task ht => ?_
        rcases List.mem_append.1 ht with ht | ht
        · exact hold task ht
        · rw [List.mem_singleton.1 ht]
          cases j <;> exact ⟨hj, by simp [Task.ofJob, Task.failure?]⟩

theorem run (h : Orderly c) (events : List Event) : Orderly (c.run events) := by
  induction events using List.reverseRecOn with
  | nil => exact h
  | append_singleton events e ih =>
    rw [run_snoc]
    exact ih.step e

end Orderly

/-! ## What is heard -/

/-- What an event leaves for listeners and workers. -/
def delivered (c : Course) (e : Event) : Outbox := (c.operate e).1.outbox

/-- All that listeners hear while events happen. -/
def notices : Course → List Event → List Notice
  | _, [] => []
  | c, e :: events => (c.delivered e).notices ++ (c.step e).notices events

theorem settle_transfer {u : Transfer} {l : List Task} (h : u.outbox = .empty) : (settle u l).transfer = u := by
  rw [settle, Transfer.takeOutbox, ← h]

theorem Orderly.delivered_final (h : Orderly c) (hfinal : c.transfer.phase.isFinal) (e : Event) :
    c.delivered e = .empty := by
  rw [delivered, (operate_final hfinal (h.released.trans hfinal) e).1.outbox, h.emptied]

theorem Orderly.rests_step (h : Orderly c) (hfinal : c.transfer.phase.isFinal) (e : Event) :
    c.transfer.Rests (c.step e).transfer := by
  rw [step_eq h.emptied, settle_transfer (h.delivered_final hfinal e)]
  exact (operate_final hfinal (h.released.trans hfinal) e).1

theorem Orderly.rests_run (h : Orderly c) (hfinal : c.transfer.phase.isFinal) (events : List Event) :
    c.transfer.Rests (c.run events).transfer := by
  induction events using List.reverseRecOn with
  | nil => exact .refl _
  | append_singleton events e ih =>
    rw [run_snoc]
    have hfinal' : (c.run events).transfer.phase.isFinal := by rwa [ih.phase]
    exact ih.trans ((h.run events).rests_step hfinal' e)

/-! ## What an open transfer keeps -/

theorem Orderly.open_before (h : Orderly c) {e : Event} (hnext : (c.step e).transfer.phase.isFinal = false) :
    c.transfer.phase.isFinal = false := by
  by_contra hf
  rw [Bool.not_eq_false] at hf
  rw [(h.rests_step hf e).phase, hf] at hnext
  exact nomatch hnext

theorem Orderly.final_cleanUp (h : Orderly c) : (c.step .cleanUp).transfer.phase.isFinal := by
  rw [step_eq h.emptied]
  show c.transfer.abort.phase.isFinal
  cases hf : c.transfer.phase.isFinal with
  | true =>
    rw [(Transfer.rests_abort hf (h.released.trans hf)).phase]
    exact hf
  | false => exact (Transfer.closes_abort hf (h.released.trans hf) (h.aborted hf)).final

theorem Orderly.open_prefix (h : Orderly c) {done events : List Event} (hdone : done <+: events)
    (hopen : (c.run events).transfer.phase.isFinal = false) : (c.run done).transfer.phase.isFinal = false := by
  obtain ⟨rest, rfl⟩ := hdone
  by_contra hf
  rw [Bool.not_eq_false] at hf
  rw [run_append, ((h.run done).rests_run hf rest).phase, hf] at hopen
  exact nomatch hopen

/-- Nobody took the temp file away while the transfer goes on. -/
theorem Orderly.uncleaned (h : Orderly c) {events : List Event}
    (hopen : (c.run events).transfer.phase.isFinal = false) : .cleanUp ∉ events := by
  intro hm
  obtain ⟨before, after, rfl⟩ := List.append_of_mem hm
  have hdone : before ++ [.cleanUp] <+: before ++ .cleanUp :: after := ⟨after, by simp⟩
  have hnow := h.open_prefix hdone hopen
  rw [run_snoc, (h.run before).final_cleanUp] at hnow
  exact nomatch hnow

/-- What every outcome keeps while a transfer goes on holds of whatever happened to it. -/
theorem Orderly.open_history {P : List Event → Prop} (h : Orderly c) {events : List Event}
    (hP : c.transfer.phase.isFinal = false → P [])
    (hstep : ∀ {before : List Event} {e : Event}, before ++ [e] <+: events → Orderly (c.run before) →
      (c.run before).transfer.phase.isFinal = false → P before → ∀ {u : Transfer} {l : List Task},
        Outcome (c.run before) e u l → u.phase.isFinal = false → (c.run before).step e = settle u l → P (before ++ [e]))
    (hopen : (c.run events).transfer.phase.isFinal = false) : P events := by
  induction events using List.reverseRecOn with
  | nil => exact hP hopen
  | append_singleton events e ih =>
    have hnow := h.run events
    rw [run_snoc] at hopen
    have hbefore := hnow.open_before hopen
    have hrest := ih (fun hp => hstep (hp.trans (List.prefix_append _ _))) hbefore
    have ho := outcome_operate hbefore (hnow.released.trans hbefore) (hnow.aborted hbefore) e
    have hsettle := step_eq hnow.emptied e
    rw [hsettle] at hopen
    exact hstep (List.prefix_refl _) hnow hbefore hrest ho hopen hsettle

/-- What every outcome keeps while a transfer goes on holds all along its course. -/
theorem Orderly.open_run {P : Course → Prop} (h : Orderly c) {events : List Event}
    (hP : c.transfer.phase.isFinal = false → P c)
    (hstep : ∀ {before : List Event} {e : Event}, before ++ [e] <+: events → Orderly (c.run before) →
      (c.run before).transfer.phase.isFinal = false → P (c.run before) → ∀ {u : Transfer} {l : List Task},
        Outcome (c.run before) e u l → u.phase.isFinal = false → P (settle u l))
    (hopen : (c.run events).transfer.phase.isFinal = false) : P (c.run events) := by
  refine h.open_history (P := fun done => P (c.run done)) hP ?_ hopen
  intro before e hdone hnow hbefore hrest u l ho hnext hsettle
  rw [run_snoc, hsettle]
  exact hstep hdone hnow hbefore hrest ho hnext

theorem Outcome.made {e : Event} {u : Transfer} {l : List Task} (ho : Outcome c e u l)
    (hopen : c.transfer.phase.isFinal = false) (hnext : u.phase.isFinal = false) :
    c.transfer.Made (settle u l).transfer := by
  refine Transfer.Made.trans (u := u) ?_ ⟨rfl, rfl, rfl, rfl, rfl⟩
  rcases ho.cases hopen with ⟨hcloses, -⟩ | ⟨v, honward, hu, -⟩
  · exact absurd hnext hcloses.not_open
  · rcases hu with rfl | ⟨j, -, rfl⟩
    · exact honward.made
    · exact honward.made.trans ⟨rfl, rfl, rfl, rfl, rfl⟩

theorem Orderly.made_run (h : Orderly c) (events : List Event)
    (hopen : (c.run events).transfer.phase.isFinal = false) : c.transfer.Made (c.run events).transfer :=
  h.open_run (P := fun d => c.transfer.Made d.transfer) (fun _ => ⟨rfl, rfl, rfl, rfl, rfl⟩)
    (fun _ _ hbefore hmade _ _ ho hnext => hmade.trans (ho.made hbefore hnext)) hopen

/-! ## What is announced -/

/-- An end is announced when the transfer comes to it. -/
theorem Orderly.announced_step (h : Orderly c) (e : Event) {p : Phase} (hp : p = .completed ∨ p = .broken) :
    (c.delivered e).notices.countP (·.announces = some p) + (if c.transfer.phase = p then 1 else 0) =
      if (c.step e).transfer.phase = p then 1 else 0 := by
  have hpfinal : p.isFinal := by rcases hp with rfl | rfl <;> rfl
  have hother : ∀ {q : Phase}, q.isFinal = false → q ≠ p := by
    rintro q hq rfl
    rw [hpfinal] at hq
    exact nomatch hq
  cases hf : c.transfer.phase.isFinal with
  | true =>
    rw [h.delivered_final hf, (h.rests_step hf e).phase]
    simp [Outbox.empty]
  | false =>
    have hnone : c.transfer.outbox.notices = [] := by rw [h.emptied]; rfl
    rw [if_neg (hother hf), Nat.add_zero, step_eq h.emptied, delivered]
    show _ = if (c.operate e).1.phase = p then 1 else 0
    rcases (outcome_operate hf (h.released.trans hf) (h.aborted hf) e).cases hf with
      ⟨hcloses, -⟩ | ⟨v, honward, hu, -⟩
    · obtain ⟨more, hmore, hcount⟩ := hcloses.notices
      rw [hmore, hnone, List.nil_append]
      exact hcount p (by rcases hp with rfl | rfl <;> decide)
    · obtain ⟨more, hmore, hquiet⟩ := honward.notices
      have hphase : (c.operate e).1.phase = v.phase := by
        rcases hu with hu | ⟨j, -, hu⟩
        · rw [hu]
        · rw [hu]
          rfl
      rw [hnone, List.nil_append] at hmore
      have hheard : (c.operate e).1.outbox.notices = more := by
        rcases hu with hu | ⟨j, -, hu⟩ <;> (rw [hu]; exact hmore)
      rw [hphase, hheard, if_neg (hother honward.isOpen), List.countP_eq_zero]
      intro n hn
      simp [hquiet n hn]

theorem Orderly.announced_run (h : Orderly c) (events : List Event) {p : Phase} (hp : p = .completed ∨ p = .broken) :
    (c.notices events).countP (·.announces = some p) + (if c.transfer.phase = p then 1 else 0) =
      if (c.run events).transfer.phase = p then 1 else 0 := by
  induction events generalizing c with
  | nil => exact Nat.zero_add _
  | cons e events ih =>
    have hstep := h.announced_step e hp
    have hrest := ih (h.step e)
    rw [notices, List.countP_append]
    show _ = if ((c.step e).run events).transfer.phase = p then 1 else 0
    omega

theorem countP_announces (l : List Notice) : l.countP (·.announces.isSome) =
    l.countP (·.announces = some .completed) + l.countP (·.announces = some .broken) := by
  induction l with
  | nil => rfl
  | cons n l ih =>
    have hn : (if n.announces.isSome then 1 else 0) = (if n.announces = some .completed then 1 else 0) +
        if n.announces = some .broken then 1 else 0 := by cases n <;> rfl
    simp only [List.countP_cons, decide_eq_true_eq, ih]
    omega

/-! ## The end -/

/-- Once a transfer is over nothing that happens later changes what it came to, nothing is delivered to listeners or
workers any more, peers are told nothing but to abort, and no result that is handed in counts, whichever job it is of.
An end is announced and counted once, if the transfer came to it. Jobs under way are told to stop if the transfer is
over, and not before; so a job that was cancelled has no effect. -/
theorem ended_for_good {target : Target} {tuning : Tuning} {admission : Admission} {disk made : Disk} {t : Transfer}
    (h : Transfer.create target tuning admission disk = (.ok t, made)) (events more : List Event) :
    let c := (start t).run events
    let d := c.run more
    (c.transfer.phase.isFinal →
      (d.transfer.phase = c.transfer.phase ∧ d.transfer.parts = c.transfer.parts ∧
        d.transfer.signature = c.transfer.signature ∧ d.transfer.tally = c.transfer.tally ∧
        d.transfer.mismatches = c.transfer.mismatches ∧ d.transfer.metrics = c.transfer.metrics) ∧
      (∀ e, d.delivered e = .empty) ∧
      (∃ later, d.transfer.sent = c.transfer.sent ++ later ∧ ∀ call ∈ later, call.2 = .abort) ∧
      ∀ epoch, (∀ found, d.transfer.acceptMatches epoch found = d.transfer) ∧
        (∀ result, d.transfer.acceptCopy epoch result = d.transfer) ∧
        (∀ result, d.transfer.acceptVerdict epoch result = d.transfer) ∧
        ∀ message, d.transfer.acceptCrash epoch message = d.transfer) ∧
    ((start t).notices events).countP (·.announces.isSome) ≤ 1 ∧
    (∀ p, p = .completed ∨ p = .broken →
      ((start t).notices events).countP (·.announces = some p) = if c.transfer.phase = p then 1 else 0) ∧
    c.transfer.metrics.completed = (if c.transfer.phase = .completed then 1 else 0) ∧
    c.transfer.metrics.broken = (if c.transfer.phase = .broken then 1 else 0) ∧
    (∀ task ∈ c.tasks, ∀ percent,
      ((Transfer.bench task.epoch).listen percent c.transfer).1 = !c.transfer.phase.isFinal) ∧
    ∀ i task, c.tasks[i]? = some task → task.failure? = some .cancelled →
      c.transfer.phase.isFinal ∧ (c.step (.work i)).transfer = c.transfer := by
  have huntouched := Transfer.create_untouched h
  have hstart : Orderly (start t) := orderly_start huntouched
  have hphase : (start t).transfer.phase = .initial := huntouched.phase
  intro c d
  have hc : Orderly c := hstart.run events
  have hd : Orderly d := hc.run more
  have hannounced : ∀ p, p = .completed ∨ p = .broken →
      ((start t).notices events).countP (·.announces = some p) = if c.transfer.phase = p then 1 else 0 := by
    intro p hp
    have hcount := hstart.announced_run events hp
    rwa [hphase, if_neg (by rcases hp with rfl | rfl <;> decide), Nat.add_zero] at hcount
  refine ⟨fun hfinal => ?_, ?_, hannounced, hc.completed, hc.broken, fun task ht percent => ?_, fun i task hi hf => ?_⟩
  · have hrests : c.transfer.Rests d.transfer := hc.rests_run hfinal more
    have hfinal' : d.transfer.phase.isFinal := by rwa [hrests.phase]
    refine ⟨⟨hrests.phase, hrests.parts, hrests.signature, hrests.tally, hrests.mismatches, hrests.metrics⟩,
      fun e => hd.delivered_final hfinal' e, hrests.calls, fun epoch => ⟨fun found => ?_, fun result => ?_,
        fun result => ?_, fun message => ?_⟩⟩
    · cases found <;> rw [Transfer.acceptMatches, accept_final hfinal']
    · exact accept_final hfinal' epoch _
    · exact accept_final hfinal' epoch _
    · exact accept_final hfinal' epoch _
  · rw [countP_announces, hannounced _ (.inl rfl), hannounced _ (.inr rfl)]
    split_ifs with h₁ h₂
    · cases h₁.symm.trans h₂
    all_goals omega
  · show (c.transfer.epoch == task.epoch) = !c.transfer.phase.isFinal
    cases hf : c.transfer.phase.isFinal with
    | false => simp [hc.current hf task ht]
    | true =>
      have := hc.stale hf task ht
      simp
      omega
  · have hmem := List.mem_of_getElem? hi
    have hfinal : c.transfer.phase.isFinal := by
      by_contra hopen
      exact hc.heeded (by simpa using hopen) task hmem hf
    have hhands : task.isWork = false := by cases task <;> first | rfl | cases hf
    refine ⟨hfinal, ?_⟩
    rw [step_work hi, hands_final hfinal hhands]
    exact settle_transfer hc.emptied

/-- A byte that came, was hashed and found right; then the caller aborts what is over. -/
theorem one_ended_for_good :
    let c := (start (plainTransfer 1 .standard .swarming)).run (oneEvents ++ [.work 0])
    let d := c.run [.abort, .leave "a", .chunk "a" 0 ⟨#[2]⟩]
    c.transfer.phase = .completed ∧ d.transfer.phase = .completed ∧ d.transfer.tally = c.transfer.tally ∧
      (∀ e, d.delivered e = .empty) ∧
      ((start (plainTransfer 1 .standard .swarming)).notices (oneEvents ++ [.work 0])).countP
        (·.announces = some .completed) = 1 := by
  intro c d
  have hc : c.transfer.phase = .completed := by
    show ((start (plainTransfer 1 .standard .swarming)).run (oneEvents ++ [.work 0])).transfer.phase = _
    rw [run_snoc, run_oneEvents]
    rfl
  obtain ⟨hover, -, hannounced, -⟩ := ended_for_good (create_plain 1 .standard .swarming) (oneEvents ++ [.work 0])
    [.abort, .leave "a", .chunk "a" 0 ⟨#[2]⟩]
  obtain ⟨⟨hphase, -, -, htally, -⟩, hsilent, -⟩ := hover (by rw [hc]; rfl)
  refine ⟨hc, hphase.trans hc, htally, hsilent, ?_⟩
  rw [hannounced _ (.inl rfl), if_pos hc]

end Course

end FileSwarm
