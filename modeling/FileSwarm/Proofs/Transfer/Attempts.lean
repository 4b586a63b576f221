import FileSwarm.Proofs.Transfer.Ledger

/-!
# Attempts: one verdict for each assembled copy

An assembled file is hashed, and a wrong hash means to assemble it again. As long as no bytes come while it is
hashed there is one verdict for each copy, and a transfer that breaks for wrong hashes has assembled as many
copies as it is allowed to, all of them wrong.

* `Assembled t s` : the file is there and waits for the verdict; `Move.assembled`, `Move.unverified` : talk does
  not change that;
* `Single n c` : the invariant; `Happens.single` : it is kept where no bytes come while the file is hashed;
* `JudgedOnce c events` : what there is to say of verdicts; `judged_once` : it holds of such runs;
* `not_judged_once` : it does not hold of others.
-/

namespace FileSwarm

namespace Transfer

variable {t u : Transfer} {s : Signature}

/-- The file is there, and its hash is to be compared with that of `s`. -/
structure Assembled (t : Transfer) (s : Signature) : Prop where
  phase : t.phase = .verifying
  signed : t.signature = some s
  complete : ∃ m, t.parts = some m ∧ m.isComplete

theorem Assembled.not_assigns {m : PartMap} {r : ByteRange} {i : Nat} {q : Share} (h : t.Assembled s) :
    ¬ Assigns t m r i q u := by
  intro ha
  obtain ⟨m', hm', hcomplete⟩ := h.complete
  obtain rfl : m' = m := Option.some.inj (hm'.symm.trans ha.parts)
  obtain ⟨hpos, hneeded⟩ := ha.needed
  have hfirst := hneeded r.start ⟨Nat.le_refl _, Nat.lt_add_of_pos_right hpos⟩
  rw [PartMap.isComplete_iff.1 hcomplete _ (PartMap.lt_length hfirst)] at hfirst
  exact nomatch hfirst

theorem isComplete_revertAll {m : PartMap} (h : m.isComplete) (l : List ByteRange) : (l.foldl revert m).isComplete := by
  rw [PartMap.isComplete_iff] at h ⊢
  intro o ho
  rw [(sheds_revertAll l m).length] at ho
  rw [state?_revertAll, h o ho, if_neg fun hc => nomatch hc.1]

/-- No move takes an assembled file apart, or tells another job. -/
theorem Move.assembled (hm : Move t u) (h : t.Assembled s) : u.Assembled s ∧ u.outbox.jobs = t.outbox.jobs := by
  obtain ⟨m, hparts, hcomplete⟩ := h.complete
  have hmapped : t.parts ≠ none := by simp [hparts]
  cases hm with
  | say => exact ⟨⟨h.phase, h.signed, h.complete⟩, rfl⟩
  | assign ha => exact absurd ha h.not_assigns
  | join => exact ⟨⟨h.phase, h.signed, h.complete⟩, rfl⟩
  | start => exact ⟨⟨h.phase, h.signed, h.complete⟩, rfl⟩
  | @leave id q hq =>
    refine ⟨⟨h.phase, h.signed, q.pending.foldl revert m, ?_, isComplete_revertAll hcomplete _⟩, rfl⟩
    rw [detach, hparts]
    rfl
  | enter _ early =>
    rcases early with hi | hn
    · exact absurd (hi.symm.trans h.phase) (by decide)
    · exact absurd hn hmapped
  | fetchAll _ unmapped => exact absurd unmapped hmapped
  | learn unsigned => exact absurd (unsigned.symm.trans h.signed) (by simp)
  | search unmapped => exact absurd unmapped hmapped

theorem Talk.assembled (ht : Talk t u) (h : t.Assembled s) : u.Assembled s ∧ u.outbox.jobs = t.outbox.jobs :=
  ht.keeps (P := fun u => u.Assembled s ∧ u.outbox.jobs = t.outbox.jobs) ⟨h, rfl⟩ fun hm ⟨hv, hjobs⟩ =>
    ⟨(hm.assembled hv).1, (hm.assembled hv).2.trans hjobs⟩

/-- Only jobs that look at the local copy are there to be told. -/
def Searching (t : Transfer) : Prop := ∀ j ∈ t.outbox.jobs, (Task.ofJob j).isDelta

theorem Move.unverified (hm : Move t u) (h : t.phase ≠ .verifying ∧ t.Searching) :
    u.phase ≠ .verifying ∧ u.Searching := by
  obtain ⟨hphase, hjobs⟩ := h
  cases hm with
  | assign ha =>
    obtain ⟨-, -, -, -, links, sent, rfl⟩ := ha
    exact ⟨hphase, hjobs⟩
  | enter _ _ _ unverified => exact ⟨by simpa using unverified, by simpa [Searching] using hjobs⟩
  | fetchAll => exact ⟨by simp, by simpa [Searching] using hjobs⟩
  | search =>
    refine ⟨hphase, fun j hj => ?_⟩
    rcases List.mem_append.1 hj with hj | hj
    · exact hjobs j hj
    · rw [List.mem_singleton.1 hj]
      rfl
  | _ => exact ⟨hphase, hjobs⟩

theorem Talk.unverified (ht : Talk t u) (hphase : t.phase ≠ .verifying) (hjobs : t.outbox.jobs = []) :
    u.phase ≠ .verifying ∧ u.Searching := by
  refine ht.keeps ⟨hphase, ?_⟩ Move.unverified
  rw [Searching, hjobs]
  exact nofun

/-- There is a part map, in which nothing is available. -/
def Bare (t : Transfer) : Prop := ∃ m, t.parts = some m ∧ ∀ o, m.state? o ≠ some .available

theorem Move.bare (hm : Move t u) (h : t.Bare) : u.Bare := by
  obtain ⟨m, hparts, hnone⟩ := h
  have hmapped : t.parts ≠ none := by rw [hparts]; exact nofun
  cases hm with
  | assign ha =>
    obtain ⟨hm', -, -, -, links, sent, rfl⟩ := ha
    obtain rfl := Option.some.inj (hparts.symm.trans hm')
    exact ⟨_, rfl, fun o ho => hnone o ((m.sheds_set _ (by decide)).available o ho)⟩
  | @leave id q hq =>
    refine ⟨q.pending.foldl revert m, ?_, fun o ho => hnone o ((sheds_revertAll q.pending m).available o ho)⟩
    rw [detach, hparts]
    rfl
  | enter => exact ⟨m, by simpa using hparts, hnone⟩
  | fetchAll _ unmapped => exact absurd unmapped hmapped
  | _ => exact ⟨m, hparts, hnone⟩

theorem bare_afresh (t : Transfer) (p : Phase) : (t.afresh.setPhase p).Bare :=
  ⟨PartMap.blank t.target.size, by simp [afresh], fun _ ho => nomatch PartMap.eq_needed_of_blank ho⟩

end Transfer

namespace Course

variable {n : Nat} {c d : Course} {e : Event}

/-- A job that hashes the temp file compares it with the digest `d`, and its verdict is about what is in it. -/
def Judges (d : Digest) (content : ByteArray) : Task → Prop
  | .hash _ e => e = d
  | .hashed _ (.ok b) => b = (Sha256.digest content == d)
  | .hashed _ (.error _) => True
  | _ => False

/-- The file is hashed by one job at most, and by none unless it is assembled. -/
structure Single (n : Nat) (c : Course) : Prop where
  idle : c.transfer.phase ≠ .verifying → ∀ task ∈ c.tasks, task.isDelta
  busy : c.transfer.phase = .verifying → c.tasks.length ≤ 1 ∧ ∃ s, c.transfer.Assembled s ∧
    ∀ task ∈ c.tasks, Judges s.digest (c.content n) task

theorem not_judges_of_isDelta {d : Digest} {content : ByteArray} {task : Task} (h : task.isDelta) :
    ¬ Judges d content task := by
  cases task with
  | hash | hashed => exact absurd h Bool.false_ne_true
  | _ => exact id

/-- While a job hashes the file, or waits to hand in a verdict, the file is assembled. -/
theorem Single.verifying (h : Single n c) {task : Task} (hm : task ∈ c.tasks) (hd : task.isDelta = false) :
    c.transfer.phase = .verifying := by
  by_contra hp
  exact nomatch hd.symm.trans (h.idle hp task hm)

/-- While a job looks at the local copy the file is not assembled. -/
theorem Single.unverified (h : Single n c) (hbusy : ∃ task ∈ c.tasks, task.isDelta) :
    c.transfer.phase ≠ .verifying := by
  intro hp
  obtain ⟨-, s, -, hj⟩ := h.busy hp
  obtain ⟨task, hm, hd⟩ := hbusy
  exact not_judges_of_isDelta hd (hj task hm)

theorem delta_goes {l k : List Task} (hl : ∀ task ∈ l, task.isDelta) (h : Goes l k) : ∀ task ∈ k, task.isDelta :=
  fun task hk => (h.2 task hk).elim (hl task) And.left

theorem Single.settle_idle {u v : Transfer} {l : List Task} (hv : v.phase ≠ .verifying) (hjobs : v.outbox.jobs = [])
    (hl : ∀ task ∈ l, task.isDelta) (ht : v.Talk u) : Single n (settle u l) := by
  obtain ⟨hphase, hsearch⟩ := ht.unverified hv hjobs
  refine ⟨fun _ task hm => ?_, fun hp => absurd hp hphase⟩
  rcases List.mem_append.1 hm with hm | hm
  · exact hl task hm
  · obtain ⟨j, hj, rfl⟩ := List.mem_map.1 hm
    exact hsearch j hj

theorem Single.settle_busy {s : Signature} {u : Transfer} {l : List Task} (ha : c.transfer.Assembled s)
    (hjobs : c.transfer.outbox.jobs = []) (hlen : l.length ≤ 1) (hj : ∀ task ∈ l, Judges s.digest (c.content n) task)
    (ht : c.transfer.Talk u) : Single n (settle u l) := by
  obtain ⟨hassembled, hsame⟩ := ht.assembled ha
  have htasks : (settle u l).tasks = l := by simp [settle, hsame, hjobs]
  have hcontent : (settle u l).content n = c.content n := congrArg (Disk.content · n) ht.frame.2.2.2
  refine ⟨fun hp => absurd hassembled.phase hp, fun _ => ⟨?_, s, ?_, ?_⟩⟩
  · rwa [htasks]
  · exact ⟨hassembled.phase, hassembled.signed, hassembled.complete⟩
  · rw [htasks, hcontent]
    exact hj

/-- The file is assembled, and the job that is told to hash it is the only one. -/
theorem Single.settle_assembled {s : Signature} {v : Transfer} {m : PartMap} (hparts : v.parts = some m)
    (hcomplete : m.isComplete) (hsigned : v.signature = some s) (hjobs : v.outbox.jobs = []) :
    Single n (settle ((v.setPhase .verifying).queueJob (.verify v.epoch s.digest)) []) := by
  have htasks : (settle ((v.setPhase .verifying).queueJob (.verify v.epoch s.digest)) []).tasks =
      [.hash v.epoch s.digest] := by
    simp [settle, Transfer.queueJob, hjobs, Task.ofJob]
  refine ⟨fun hne => absurd (by simp [settle, Transfer.takeOutbox, Transfer.queueJob]) hne, fun _ => ⟨?_, s, ?_, ?_⟩⟩
  · rw [htasks]
    exact Nat.le_refl 1
  · refine ⟨?_, ?_, m, ?_, hcomplete⟩
    · simp [settle, Transfer.takeOutbox, Transfer.queueJob]
    · simpa [settle, Transfer.takeOutbox, Transfer.queueJob] using hsigned
    · simpa [settle, Transfer.takeOutbox, Transfer.queueJob] using hparts
  · rw [htasks]
    intro task hm
    rw [List.mem_singleton.1 hm]
    rfl

/-- The books once bytes are there belong to a course in which no file is hashed. -/
theorem Books.unverified {v : Transfer} {l : List Task} (h : Books c e v l) (hc : Single n c)
    (hquiet : c.transfer.phase = .verifying → e.isChunk = false) : c.transfer.phase ≠ .verifying ∧
      v.phase = c.transfer.phase ∧ v.outbox = c.transfer.outbox ∧ (∀ task ∈ l, task ∈ c.tasks) := by
  cases h with
  | chunk _ => exact ⟨fun hp => (nomatch hquiet hp), rfl, rfl, fun _ => id⟩
  | copied _ _ hbusy => exact ⟨hc.unverified hbusy, rfl, rfl, nofun⟩

theorem Books.idle {v : Transfer} {l : List Task} (h : Books c e v l) (hs : Ongoing n c)
    (hdelta : ∀ task ∈ c.tasks, task.isDelta) : l = [] := by
  cases h with
  | chunk hparts =>
    apply List.eq_nil_iff_forall_not_mem.2
    intro task hm
    exact nomatch (hs.sound.mapped hs.isOpen (by rw [hparts]; rfl) task hm).symm.trans (hdelta task hm)
  | copied => rfl

theorem Ongoing.jobs (h : Ongoing n c) : c.transfer.outbox.jobs = [] := h.sound.settled

/-- A file is hashed by one job at most, as long as no bytes come meanwhile. -/
theorem Happens.single (h : Happens n c e d) (hs : Ongoing n c) (hnext : d.transfer.phase.isFinal = false)
    (hquiet : c.transfer.phase = .verifying → e.isChunk = false) (hc : Single n c) : Single n d := by
  cases h with
  | same => exact hc
  | ended hover => exact absurd (hover.final.symm.trans hnext) (by decide)
  | @talk _ u l htalk hgoes =>
    by_cases hp : c.transfer.phase = .verifying
    · obtain ⟨hlen, s, ha, hj⟩ := hc.busy hp
      refine .settle_busy ha hs.jobs (Nat.le_trans hgoes.1 hlen) (fun task hm => ?_) htalk
      rcases hgoes.2 task hm with hm | ⟨-, old, hold, hdelta, -⟩
      · exact hj task hm
      · exact absurd (hj old hold) (not_judges_of_isDelta hdelta)
    · exact .settle_idle hp hs.jobs (delta_goes (hc.idle hp) hgoes) htalk
  | @copying i disk l hbusy hgoes =>
    have hp := hc.unverified hbusy
    exact .settle_idle (v := { c.transfer with disk }) hp hs.jobs (delta_goes (hc.idle hp) hgoes) (.refl _)
  | @edited disk hcontent =>
    refine ⟨hc.idle, fun hp => ?_⟩
    obtain ⟨hlen, s, ha, hj⟩ := hc.busy hp
    refine ⟨hlen, s, ⟨ha.phase, ha.signed, ha.complete⟩, ?_⟩
    show ∀ task ∈ c.tasks, Judges s.digest (disk.content n) task
    rwa [hcontent]
  | @more _ u v l hbooks htalk =>
    obtain ⟨hp, hphase, hout, hsub⟩ := hbooks.unverified hc hquiet
    have hdelta : ∀ task ∈ l, task.isDelta := fun task hm => hc.idle hp task (hsub task hm)
    have hjobs : v.outbox.jobs = [] := by rw [hout, hs.jobs]
    rcases htalk with htalk | htalk
    · exact .settle_idle (by rwa [hphase]) hjobs hdelta htalk
    · exact .settle_idle (by simp) (by simpa using hjobs) hdelta htalk
  | @assembled _ v l m s hbooks hparts hcomplete hsigned =>
    obtain ⟨hp, -, hout, -⟩ := hbooks.unverified hc hquiet
    obtain rfl := hbooks.idle hs (hc.idle hp)
    exact .settle_assembled hparts hcomplete hsigned (by rw [hout, hs.jobs])
  | @hashed i epoch digest r htask hresult =>
    have hmem := List.mem_of_getElem? htask
    obtain ⟨hlen, s, ha, hj⟩ := hc.busy (hc.verifying hmem rfl)
    have hdigest : digest = s.digest := hj _ hmem
    refine .settle_busy ha hs.jobs ?_ (fun task hm => ?_) (.refl _)
    · exact Nat.le_trans (length_replaced (List.getElem?_eq_some_iff.1 htask).1 (some _)) hlen
    · rcases mem_replaced (r := some _) hm with hm | hm
      · exact hj task hm
      · obtain rfl := Option.some.inj hm
        cases r with
        | error _ => trivial
        | ok b => exact hdigest ▸ hresult b rfl
  | @retried i epoch u htask htalk =>
    have hmem := List.mem_of_getElem? htask
    obtain ⟨hlen, -⟩ := hc.busy (hc.verifying hmem rfl)
    rw [replaced_alone htask hlen]
    exact .settle_idle (by simp) (by simpa [Transfer.afresh] using hs.jobs) (fun _ h => absurd h List.not_mem_nil) htalk
  | refused _ _ hbroken _ => exact absurd hnext (by rw [show (settle _ _).transfer.phase = _ from hbroken]; decide)

/-! ## Wrong copies -/

/-- The job at position `i` has found the assembled copy wrong, which it is, and hands that in next. Then the
transfer is over, or all of the file is to be fetched again. -/
structure Refutes (c : Course) (i : Nat) : Prop where
  verdict : ∃ epoch, c.tasks[i]? = some (.hashed epoch (.ok false))
  wrong : ∃ s content, c.transfer.Assembled s ∧ c.assembled = .ok content ∧ Sha256.digest content ≠ s.digest
  again : (c.step (.work i)).transfer.phase.isFinal ∨ (c.step (.work i)).transfer.Bare

theorem Happens.mismatches (h : Happens n c e d) : d.transfer.mismatches = c.transfer.mismatches ∨
    d.transfer.mismatches = 0 ∨ d.transfer.mismatches = c.transfer.mismatches + 1 ∧
      (d.transfer.phase.isFinal ∨ d.transfer.Bare) ∧
      ∃ i epoch, e = .work i ∧ c.tasks[i]? = some (.hashed epoch (.ok false)) := by
  cases h with
  | same => exact .inl rfl
  | ended hover => exact hover.mismatches.imp id .inl
  | talk htalk _ => exact .inl htalk.frame.2.2.1
  | copying _ _ => exact .inl rfl
  | edited _ => exact .inl rfl
  | more hbooks htalk =>
    rcases htalk with htalk | htalk
    · exact .inl (htalk.frame.2.2.1.trans hbooks.frame.2.2)
    · exact .inl (htalk.frame.2.2.1.trans ((by simp : _ = _).trans hbooks.frame.2.2))
  | assembled hbooks _ _ _ =>
    exact .inl ((by simp [settle, Transfer.takeOutbox, Transfer.queueJob] : _ = _).trans hbooks.frame.2.2)
  | hashed _ _ => exact .inl rfl
  | @retried i epoch u htask htalk =>
    have hbare : u.Bare := htalk.keeps (Transfer.bare_afresh c.transfer .downloading) Transfer.Move.bare
    refine .inr (.inr ⟨htalk.frame.2.2.1.trans (by simp [Transfer.afresh]), .inr hbare, i, epoch, rfl, htask⟩)
  | @refused i epoch u l htask _ hbroken hcount =>
    refine .inr (.inr ⟨hcount, .inl ?_, i, epoch, rfl, htask⟩)
    show u.phase.isFinal
    rw [hbroken]
    rfl

theorem Single.refutes (hc : Single n c) (hs : Ongoing n c) {i epoch : Nat}
    (htask : c.tasks[i]? = some (.hashed epoch (.ok false)))
    (hagain : (c.step (.work i)).transfer.phase.isFinal ∨ (c.step (.work i)).transfer.Bare) : c.Refutes i := by
  have hmem := List.mem_of_getElem? htask
  obtain ⟨-, s, ha, hj⟩ := hc.busy (hc.verifying hmem rfl)
  refine ⟨⟨epoch, htask⟩, ⟨s, c.content n, ha, hs.sound.assembled, fun heq => ?_⟩, hagain⟩
  have hfalse : false = (Sha256.digest (c.content n) == s.digest) := hj _ hmem
  rw [heq, beq_self_eq_true] at hfalse
  exact nomatch hfalse

/-- At position `p` of the events a copy is refuted. -/
def RefutedAt (c : Course) (events : List Event) (p : Nat) : Prop :=
  ∃ i, events[p]? = some (.work i) ∧ (c.run (events.take p)).Refutes i

theorem RefutedAt.snoc {events : List Event} {p : Nat} (h : c.RefutedAt events p) (e : Event) :
    c.RefutedAt (events ++ [e]) p := by
  obtain ⟨i, hp, hi⟩ := h
  have hlt := (List.getElem?_eq_some_iff.1 hp).1
  refine ⟨i, by rwa [List.getElem?_append_left hlt], ?_⟩
  rwa [List.take_append_of_le_length (Nat.le_of_lt hlt)]

theorem RefutedAt.lt {events : List Event} {p : Nat} (h : c.RefutedAt events p) : p < events.length :=
  let ⟨_, hp, _⟩ := h
  (List.getElem?_eq_some_iff.1 hp).1

/-- No bytes come while the file is hashed. -/
def Undisturbed (c : Course) (events : List Event) : Prop :=
  ∀ before e, before ++ [e] <+: events → (c.run before).transfer.phase = .verifying → e.isChunk = false

theorem single_run (hs : Ongoing n c) (hc : Single n c) {events : List Event} (hfresh : ∀ e ∈ events, e.Fresh)
    (hquiet : c.Undisturbed events) (hopen : (c.run events).transfer.phase.isFinal = false) :
    Ongoing n (c.run events) ∧ Single n (c.run events) := by
  refine open_induction (P := fun c => Ongoing n c ∧ Single n c) ⟨hs, hc⟩ ?_ hopen
  rintro before e hp ⟨hs, hc⟩ hnext
  have he : e.Fresh := hfresh e (hp.subset (by simp))
  exact ⟨hs.step he hnext, (hs.happens he).single hs hnext (hquiet before e hp) hc⟩

/-- As many copies were refuted as wrong hashes are counted. -/
theorem refuted_run (hs : Ongoing n c) (hc : Single n c) (hzero : c.transfer.mismatches = 0) {events : List Event}
    (hfresh : ∀ e ∈ events, e.Fresh) (hquiet : c.Undisturbed events) :
    ∃ l : List Nat, l.length = (c.run events).transfer.mismatches ∧ l.Pairwise (· < ·) ∧
      ∀ p ∈ l, c.RefutedAt events p := by
  induction events using List.reverseRecOn with
  | nil => exact ⟨[], hzero.symm, .nil, nofun⟩
  | append_singleton events e ih =>
    have hbefore : ∀ e ∈ events, e.Fresh := fun e he => hfresh e (List.mem_append_left _ he)
    have hquiet' : c.Undisturbed events := fun before e hp => hquiet before e (hp.trans (List.prefix_append _ _))
    obtain ⟨l, hlen, hsorted, hall⟩ := ih hbefore hquiet'
    rw [run_snoc]
    cases hf : (c.run events).transfer.phase.isFinal with
    | true => exact ⟨l, hlen.trans (step_final hf e).2.symm, hsorted, fun p hp => (hall p hp).snoc e⟩
    | false =>
      obtain ⟨hs', hc'⟩ := single_run hs hc hbefore hquiet' hf
      rcases (hs'.happens (hfresh e (by simp))).mismatches with hsame | hnone | ⟨hmore, hagain, i, epoch, rfl, htask⟩
      · exact ⟨l, hlen.trans hsame.symm, hsorted, fun p hp => (hall p hp).snoc e⟩
      · exact ⟨[], hnone.symm, .nil, nofun⟩
      · refine ⟨l ++ [events.length], ?_, ?_, fun p hp => ?_⟩
        · rw [List.length_append, hlen, hmore]
          rfl
        · refine List.pairwise_append.2 ⟨hsorted, List.pairwise_singleton _ _, fun p hp q hq => ?_⟩
          rw [List.mem_singleton.1 hq]
          exact (hall p hp).lt
        · rcases List.mem_append.1 hp with hp | hp
          · exact (hall p hp).snoc _
          · rw [List.mem_singleton.1 hp]
            exact ⟨i, by simp, by simpa using hc'.refutes hs' htask hagain⟩

theorem single_start {t : Transfer} (hjobs : t.outbox.jobs = []) (hp : t.phase ≠ .verifying) : Single n (start t) := by
  refine ⟨fun _ task hm => ?_, fun hv => absurd hv hp⟩
  rw [start, settle, hjobs] at hm
  exact absurd hm List.not_mem_nil

theorem undisturbed_nil (c : Course) : c.Undisturbed [] := by
  intro before e hp
  exact absurd (List.prefix_nil.1 hp) (by simp)

theorem undisturbed_snoc {events : List Event} (h : c.Undisturbed events)
    (he : (c.run events).transfer.phase = .verifying → e.isChunk = false) : c.Undisturbed (events ++ [e]) := by
  intro before x hp hv
  rcases List.prefix_concat_iff.1 hp with heq | hp
  · obtain ⟨rfl, hx⟩ := List.append_inj' heq rfl
    rw [List.singleton_inj.1 hx]
    exact he hv
  · exact h before x hp hv

/-- A wrong hash breaks the transfer once as many are counted as are allowed. -/
theorem limit_of_broken (hopen : c.transfer.phase.isFinal = false) {i epoch : Nat}
    (htask : c.tasks[i]? = some (.hashed epoch (.ok false)))
    (hbroken : (c.step (.work i)).transfer.phase = .broken) :
    c.transfer.tuning.maxMismatches ≤ (c.step (.work i)).transfer.mismatches := by
  rw [step_work htask] at hbroken ⊢
  change (c.transfer.acceptVerdict epoch (.ok false)).phase = .broken at hbroken
  show _ ≤ (c.transfer.acceptVerdict epoch (.ok false)).mismatches
  unfold Transfer.acceptVerdict Transfer.accept at hbroken ⊢
  split
  · next hcurrent =>
    rw [if_pos hcurrent] at hbroken
    dsimp only at hbroken ⊢
    rcases Transfer.finishVerify_wrong hopen with ⟨henough, -, hcount⟩ | ⟨-, heq⟩
    · rwa [hcount]
    · rw [heq] at hbroken
      simp at hbroken
  · next hcurrent =>
    rw [if_neg hcurrent] at hbroken
    rw [hbroken] at hopen
    exact nomatch hopen

/-- One verdict for each copy: as long as the transfer goes on one job at most hashes the file or waits to hand in
its verdict; a verdict that waits is about the assembled file as it is; and if a wrong hash breaks the transfer, as
many assembled copies were refuted, one after the other, as wrong hashes are allowed. -/
structure JudgedOnce (c : Course) (events : List Event) : Prop where
  single : (c.run events).transfer.phase.isFinal = false → (c.run events).tasks.countP (!·.isDelta) ≤ 1
  verdict : (c.run events).transfer.phase.isFinal = false → ∀ epoch b, .hashed epoch (.ok b) ∈ (c.run events).tasks →
    ∃ s content, (c.run events).transfer.Assembled s ∧ (c.run events).assembled = .ok content ∧
      b = (Sha256.digest content == s.digest)
  broken : (c.run events).transfer.phase.isFinal = false → ∀ i epoch,
    (c.run events).tasks[i]? = some (.hashed epoch (.ok false)) →
    ((c.run events).step (.work i)).transfer.phase = .broken →
    ∃ l : List Nat, (c.run events).transfer.tuning.maxMismatches ≤ l.length ∧ l.Pairwise (· < ·) ∧
      ∀ p ∈ l, c.RefutedAt (events ++ [.work i]) p

/-- As long as no bytes come while the file is hashed there is one verdict for each copy. -/
theorem judged_once {target : Target} {tuning : Tuning} {admission : Admission} {disk made : Disk} {t : Transfer}
    (hc : Transfer.create target tuning admission disk = (.ok t, made)) {events : List Event}
    (hfresh : ∀ e ∈ events, e.Fresh) (hquiet : (start t).Undisturbed events) : (start t).JudgedOnce events := by
  obtain ⟨n, hstart⟩ := ongoing_start hc
  have hblank := create_blank hc
  have hone : Single n (start t) := single_start hblank.jobs (by rw [hblank.phase]; decide)
  refine ⟨fun hopen => ?_, fun hopen epoch b hm => ?_, fun hopen i epoch htask hbroken => ?_⟩
  · obtain ⟨-, hsingle⟩ := single_run hstart hone hfresh hquiet hopen
    by_cases hp : ((start t).run events).transfer.phase = .verifying
    · exact Nat.le_trans List.countP_le_length (hsingle.busy hp).1
    · rw [List.countP_eq_zero.2 fun task hm => by simp [hsingle.idle hp task hm]]
      exact Nat.zero_le 1
  · obtain ⟨hongoing, hsingle⟩ := single_run hstart hone hfresh hquiet hopen
    obtain ⟨-, s, ha, hj⟩ := hsingle.busy (hsingle.verifying hm rfl)
    exact ⟨s, _, ha, hongoing.sound.assembled, hj _ hm⟩
  · obtain ⟨hongoing, -⟩ := single_run hstart hone hfresh hquiet hopen
    have hfresh' : ∀ e ∈ events ++ [.work i], e.Fresh := by
      intro e he
      rcases List.mem_append.1 he with he | he
      · exact hfresh e he
      · rw [List.mem_singleton.1 he]
        trivial
    obtain ⟨l, hlen, hsorted, hall⟩ :=
      refuted_run hstart hone hblank.mismatches hfresh' (undisturbed_snoc hquiet fun _ => rfl)
    refine ⟨l, ?_, hsorted, hall⟩
    rw [hlen, run_snoc]
    exact limit_of_broken hopen htask hbroken

theorem step_hash_wrong {c : Course} (hs : Sound 1 c) {i : Nat} (hi : c.tasks[i]? = some (.hash 0 oneSignature.digest))
    (hcontent : c.content 1 = ⟨#[2]⟩) (hepoch : c.transfer.epoch = 0) :
    c.step (.work i) = settle c.transfer (c.tasks.take i ++ [.hashed 0 (.ok false)] ++ c.tasks.drop (i + 1)) := by
  have hwrong : (Sha256.digest ⟨#[2]⟩ == oneSignature.digest) = false := beq_eq_false_iff_ne.2 digest_two_ne
  rw [step_hash_verdict hs hi hepoch, hcontent, hwrong]

/-- A transfer of one byte, which gives up after so many wrong hashes. -/
def tries (n : Nat) : Course := start (plainTransfer 1 { Tuning.standard with maxMismatches := n } .swarming)

/-- A peer that has joined sends a wrong byte. -/
def wrongEvents : List Event :=
  [.join (.fresh "a" .full 0) fun _ => true, .signature oneSignature, .chunk "a" 0 ⟨#[2]⟩]

theorem sound_tries (n : Nat) : Sound 1 (tries n) := sound_plain 1 _ _

/-- The only try fails, and the transfer breaks. -/
theorem wrong_judged_once : (tries 1).JudgedOnce (wrongEvents ++ [.work 0]) ∧
    Task.hashed 0 (.ok false) ∈ ((tries 1).run (wrongEvents ++ [.work 0])).tasks ∧
    (((tries 1).run (wrongEvents ++ [.work 0])).step (.work 0)).transfer.phase = .broken := by
  have hrun : (tries 1).run (wrongEvents ++ [.work 0]) =
      settle ((tries 1).run wrongEvents).transfer [.hashed 0 (.ok false)] := by
    rw [run_snoc]
    exact step_hash_wrong (sound_run (sound_tries 1) (by simp [wrongEvents])) rfl rfl rfl
  have hquiet : (tries 1).Undisturbed ([] ++ [.join (.fresh "a" .full 0) fun _ => true] ++ [.signature oneSignature] ++
      [.chunk "a" 0 ⟨#[2]⟩] ++ [.work 0]) :=
    undisturbed_snoc (undisturbed_snoc (undisturbed_snoc (undisturbed_snoc (undisturbed_nil _)
      fun _ => rfl) fun _ => rfl) nofun) fun _ => rfl
  refine ⟨judged_once (create_plain 1 _ _) (by simp [wrongEvents, Event.Fresh, Share.fresh]) hquiet, ?_, ?_⟩
  · rw [hrun]
    exact List.mem_cons_self
  · rw [hrun]
    rfl

/-! ## Bytes that come while the file is hashed -/

/-- It sends it again before the file is hashed, so the file is hashed twice. -/
def againEvents : List Event := wrongEvents ++ [.chunk "a" 0 ⟨#[2]⟩]

def againArrived : Course := (tries 2).run againEvents

theorem sound_again : Sound 1 againArrived :=
  sound_run (sound_tries 2) (by simp [againEvents, wrongEvents])

/-- Both jobs hash the file, and both find it wrong. -/
def hashedEvents : List Event := againEvents ++ [.work 0, .work 1]

theorem hash_again : againArrived.step (.work 0) =
    settle againArrived.transfer [.hashed 0 (.ok false), .hash 0 oneSignature.digest] :=
  step_hash_wrong sound_again rfl rfl rfl

theorem run_hashed : (tries 2).run hashedEvents =
    settle againArrived.transfer [.hashed 0 (.ok false), .hashed 0 (.ok false)] := by
  have hsound : Sound 1 (againArrived.step (.work 0)) := sound_step sound_again nofun
  rw [hash_again] at hsound
  rw [hashedEvents, run_append]
  show (againArrived.step (.work 0)).step (.work 1) = _
  rw [hash_again, step_hash_wrong hsound rfl rfl rfl]
  rfl

/-- The first verdict is handed in: the byte is asked for again, and the second verdict waits. -/
def retriedEvents : List Event := hashedEvents ++ [.work 0]

def verdictLeft : Course :=
  (settle againArrived.transfer [.hashed 0 (.ok false), .hashed 0 (.ok false)]).step (.work 0)

theorem run_retried : (tries 2).run retriedEvents = verdictLeft := by
  rw [retriedEvents, run_snoc, run_hashed]
  rfl

/-- The copy that the first verdict is about is the only one that is refuted. -/
theorem refuted_late {p : Nat} (h : (tries 2).RefutedAt (retriedEvents ++ [.work 0]) p) : p = 6 := by
  obtain ⟨i, hp, ⟨epoch, htask⟩, ⟨s, content, ha, -, -⟩, -⟩ := h
  have hlt : p < 8 := (List.getElem?_eq_some_iff.1 hp).1
  match p, hlt with
  | 0, _ | 1, _ | 2, _ | 3, _ => exact nomatch Option.some.inj hp
  | 4, _ =>
    obtain rfl : 0 = i := Event.work.inj (Option.some.inj hp)
    exact nomatch Option.some.inj htask
  | 5, _ =>
    obtain rfl : 1 = i := Event.work.inj (Option.some.inj hp)
    change ((againArrived.step (.work 0)).tasks[1]? = _) at htask
    rw [hash_again] at htask
    exact nomatch Option.some.inj htask
  | 6, _ => rfl
  | 7, _ =>
    have hphase := ha.phase
    change ((tries 2).run retriedEvents).transfer.phase = .verifying at hphase
    rw [run_retried] at hphase
    exact nomatch hphase

/-- Bytes that come while the file is hashed have it hashed twice. The second verdict counts although the file is not
assembled any more, and breaks the transfer although one copy only was refuted. -/
theorem not_judged_once :
    ¬ (tries 2).JudgedOnce againEvents ∧ ¬ (tries 2).JudgedOnce retriedEvents ∧
    ((tries 2).run (retriedEvents ++ [.work 0])).transfer.phase = .broken ∧
    ¬ ∃ l : List Nat, 2 ≤ l.length ∧ l.Pairwise (· < ·) ∧
      ∀ p ∈ l, (tries 2).RefutedAt (retriedEvents ++ [.work 0]) p := by
  refine ⟨fun h => ?_, fun h => ?_, ?_, ?_⟩
  · exact absurd (h.single rfl) (by decide)
  · have hverdict := h.verdict
    rw [run_retried] at hverdict
    obtain ⟨s, content, ha, -, -⟩ := hverdict rfl 0 false List.mem_cons_self
    exact nomatch ha.phase
  · rw [run_snoc, run_retried]
    rfl
  · rintro ⟨l, hlen, hsorted, hall⟩
    match l, hlen, hsorted with
    | p :: q :: _, _, hsorted =>
      have hlt : p < q := (List.pairwise_cons.1 hsorted).1 q List.mem_cons_self
      rw [refuted_late (hall p List.mem_cons_self), refuted_late (hall q (by simp))] at hlt
      exact Nat.lt_irrefl 6 hlt

end Course

end FileSwarm
