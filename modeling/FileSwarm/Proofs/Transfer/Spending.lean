import FileSwarm.Proofs.Delta.Planning
import FileSwarm.Proofs.Transfer.Endings
import FileSwarm.Proofs.Transfer.Scheduling

/-!
# What a transfer asks for, and what it need not

Every byte is needed, asked for or reused. As long as only bytes come that were asked for, and nobody leaves, each byte
is asked for once at most, and those of the local copy never are.

* `Call.asked`, `Transfer.requested` : the bytes that peers were asked for and agreed to send;
* `Spares t u` : no byte was asked for, and the same bytes are needed; `Spent k t` : the books with `k` bytes reused;
  `Spent.round` : asking keeps them; `Settled k size t` : what they come to;
* `Task.Reuses` : a job that comes to `k` reused bytes; `Task.Meets` : what it finds; `Reuses.next` : so does the job
  after a step of work;
* `Course.Smooth` : an event with which nothing goes wrong; `Course.Spends` : the books of a course;
* `Outcome.spends`, `Finish.settled` : whatever comes of such an event.
-/

namespace FileSwarm

/-- How many bytes a peer is asked for by a call and agrees to send. -/
def Call.asked : Call → Nat
  | .range r true => r.length
  | _ => 0

theorem Call.asked_eq_zero {call : Call} (h : call.isRange = false) : call.asked = 0 := by
  cases call with
  | range => exact nomatch h
  | _ => rfl

/-- How many bytes of a local copy with the content `b` can be reused for the file that `s` is of. -/
def Signature.reusable (s : Signature) (b : ByteArray) : Nat := (s.marked (plainScan s b)).countAll .available

theorem Signature.reusable_le (s : Signature) (b : ByteArray) : s.reusable b ≤ s.fileLength.toNat := by
  have hsum := (s.marked (plainScan s b)).countAll_sum
  rw [s.length_marked] at hsum
  unfold reusable
  omega

namespace Transfer

variable {t u v : Transfer} {k : Nat}

/-! ## What was asked for -/

/-- The bytes that peers were asked for and agreed to send. -/
def requested (t : Transfer) : Nat := sumOf (t.sent.toList.map (·.2.asked))

theorem requested_push {link : Nat} {call : Call} (h : u.sent = t.sent.push (link, call)) :
    u.requested = t.requested + call.asked := by
  rw [requested, h, Array.toList_push, List.map_append, sumOf_append]
  rfl

theorem requested_tacit (h : ∃ more, u.sent = t.sent ++ more ∧ ∀ call ∈ more, call.2.isRange = false) :
    u.requested = t.requested := by
  obtain ⟨more, hsent, hmore⟩ := h
  have hzero : sumOf (more.toList.map (·.2.asked)) = 0 := by
    refine sumOf_eq_zero.2 fun n hn => ?_
    obtain ⟨call, hcall, rfl⟩ := List.mem_map.1 hn
    exact Call.asked_eq_zero (hmore call (Array.mem_toList_iff.1 hcall))
  rw [requested, hsent, Array.toList_append, List.map_append, sumOf_append, hzero]
  rfl

theorem Rests.requested (h : Rests t u) : u.requested = t.requested := by
  obtain ⟨more, hsent, hmore⟩ := h.calls
  exact requested_tacit ⟨more, hsent, fun call hcall => by rw [hmore call hcall]; rfl⟩

/-! ## The books -/

/-- No byte was asked for or reused, and the same bytes are needed. -/
structure Spares (t u : Transfer) : Prop where
  parts : u.parts = t.parts
  reused : u.metrics.bytesReused = t.metrics.bytesReused
  target : u.target = t.target
  delta : u.delta = t.delta
  requested : u.requested = t.requested

theorem Spares.refl (t : Transfer) : Spares t t := ⟨rfl, rfl, rfl, rfl, rfl⟩

theorem Spares.trans (h : Spares t u) (g : Spares u v) : Spares t v :=
  ⟨g.parts.trans h.parts, g.reused.trans h.reused, g.target.trans h.target, g.delta.trans h.delta,
    g.requested.trans h.requested⟩

theorem Tacit.spares (h : Tacit t u) (parts : u.parts = t.parts)
    (reused : u.metrics.bytesReused = t.metrics.bytesReused) : Spares t u :=
  ⟨parts, reused, h.target, h.delta, requested_tacit h.calls⟩

theorem spares_setPhase (t : Transfer) (p : Phase) : Spares t (t.setPhase p) :=
  ⟨by simp, by simp, by simp, by simp, by simp [Transfer.requested]⟩

/-- Somebody can deliver a signature, so not all of the file is asked for. -/
theorem spares_ensureSignature (hopen : t.phase.isFinal = false) {s : Share} (hs : s ∈ t.shares)
    (hsound : s.broken = false) (hable : s.caps.supportsDelta) : Spares t t.ensureSignature := by
  have htacit : Tacit t t.ensureSignature := (Tacit.refl hopen).ensureSignature
  suffices h : t.ensureSignature.parts = t.parts ∧ t.ensureSignature.metrics.bytesReused = t.metrics.bytesReused from
    htacit.spares h.1 h.2
  rcases ensureSignature_cases t with e | ⟨-, owing, e⟩
  · rw [e]
    exact ⟨rfl, rfl⟩
  · rw [e]
    rcases askSignature_cases { t with owing } with ⟨s, -, -, -, -, e⟩ | e | ⟨hnobody, -⟩
    · rw [e]
      simp [Metrics.askSignature]
    · rw [e]
      exact ⟨rfl, rfl⟩
    · rw [hnobody s hs hsound] at hable
      exact nomatch hable

/-- Every byte is needed, was asked for once, or is one of `k` that were reused. Before it is known which are needed
none was asked for, and none reused. -/
structure Spent (k : Nat) (t : Transfer) : Prop where
  unmapped : t.parts = none → t.delta ∧ t.requested = 0 ∧ t.metrics.bytesReused = 0 ∧ k ≤ t.target.size
  mapped : ∀ m, t.parts = some m →
    t.requested + m.countAll .needed + k = t.target.size ∧ t.metrics.bytesReused.toNat = k

/-- All bytes of a file of `size` bytes were asked for, but for `k` that were reused. -/
structure Settled (k size : Nat) (t : Transfer) : Prop where
  reused : t.metrics.bytesReused.toNat = k
  requested : t.requested + k = size

theorem Spent.spares (h : t.Spent k) (g : Spares t u) : u.Spent k := by
  refine ⟨fun hnone => ?_, fun m hm => ?_⟩
  · rw [g.delta, g.requested, g.reused, g.target]
    exact h.unmapped (g.parts ▸ hnone)
  · rw [g.requested, g.reused, g.target]
    exact h.mapped m (g.parts ▸ hm)

theorem Spent.settled (h : t.Spent k) {m : PartMap} (hm : t.parts = some m) (hall : m.isComplete) :
    t.Settled k t.target.size := by
  obtain ⟨hsum, hreused⟩ := h.mapped m hm
  have hsize := m.countAll_sum
  rw [PartMap.countAll_of_isComplete hall] at hsize
  exact ⟨hreused, by omega⟩

theorem Settled.rests {size : Nat} (h : t.Settled k size) (g : Rests t u) : u.Settled k size := by
  refine ⟨?_, ?_⟩
  · rw [g.metrics]
    exact h.reused
  · rw [g.requested]
    exact h.requested

theorem Spent.settled_empty (h : t.Spent k) (hzero : t.target.size = 0) : t.Settled k t.target.size := by
  cases hparts : t.parts with
  | none =>
    obtain ⟨-, hnone, hreused, hle⟩ := h.unmapped hparts
    obtain rfl : k = 0 := by omega
    exact ⟨by rw [hreused]; rfl, by omega⟩
  | some m =>
    obtain ⟨hsum, hreused⟩ := h.mapped m hparts
    exact ⟨hreused, by omega⟩

theorem Spent.tells (h : t.Spent k) (g : Tells t u) : u.Spent k := by
  cases g with
  | @refused r s next share mayAsk answer =>
    refine h.spares ⟨rfl, rfl, rfl, rfl, ?_⟩
    have hpush : (t.askRange s.link r).1.requested =
        t.requested + (Call.range r (t.links.getD s.link default).answer).asked := requested_push rfl
    rw [hpush, show (t.links.getD s.link default).answer = false from answer]
    rfl
  | @taken r i s next share mayAsk answer =>
    obtain ⟨q, -, m, r', a, hsent, -, hm, -, -, hstop, hneeded, -⟩ := (Tells.taken next share mayAsk answer).sound
    have hcall : (s.link, Call.range r (t.links.getD s.link default).answer) = (q.link, Call.range r' a) :=
      Array.push_inj_right.1 hsent
    obtain ⟨-, hrange⟩ := Prod.mk.inj hcall
    obtain ⟨rfl, rfl⟩ := Call.range.inj hrange
    obtain ⟨hsum, hreused⟩ := h.mapped m hm
    refine ⟨fun hnone => ?_, fun n hn => ⟨?_, hreused⟩⟩
    · simp [note, askRange, tell, hm] at hnone
    · obtain rfl : m.set r .pending = n := by simpa [note, askRange, tell, hm] using hn
      have hadd := PartMap.countAll_set_add hstop .pending .needed
      rw [PartMap.count_of_forall hstop hneeded, if_neg (by decide)] at hadd
      have hrequested := requested_push hsent
      rw [show (t.links.getD s.link default).answer = true from answer] at hrequested
      rw [hrequested]
      show t.requested + r.length + _ + k = t.target.size
      omega

theorem Spent.round (h : t.Spent k) (g : Round t u) : u.Spent k := by
  induction g with
  | refl => exact h
  | tail _ g ih => exact ih.tells g

theorem Spent.sendRequests (h : t.Spent k) : t.sendRequests.Spent k := h.round (round_sendRequests t)

/-- Bytes that came are not asked for again, and none of them was needed. -/
theorem Spent.credited (h : t.Spent k) {m : PartMap} (hm : t.parts = some m) {r : ByteRange} (hr : r.stop ≤ m.length)
    (hasked : ∀ o ∈ r, m.state? o ≠ some .needed) (id : String) : (t.credited id r m).Spent k := by
  obtain ⟨hsum, hreused⟩ := h.mapped m hm
  refine ⟨nofun, fun n hn => ⟨?_, hreused⟩⟩
  obtain rfl : m.set r .available = n := Option.some.inj hn
  rw [PartMap.countAll_set hr hasked, if_neg (by decide)]
  exact hsum

theorem Spent.installed (h : t.Spent k) (hunmapped : t.parts = none) {m : PartMap} (hreused : m.countAll .available = k)
    (hsize : m.countAll .needed + k = t.target.size) (hmax : t.target.size ≤ maxOffset) : (t.installed m).Spent k := by
  obtain ⟨-, hnone, hzero, -⟩ := h.unmapped hunmapped
  refine ⟨nofun, fun n hn => ?_⟩
  obtain rfl : m = n := Option.some.inj hn
  have hcount : (t.installed m).metrics.bytesReused = (m.countAll .available).toUInt64 := by
    show t.metrics.bytesReused + (m.count m.range .available).toUInt64 = _
    rw [hzero, PartMap.count_range, UInt64.zero_add]
  refine ⟨?_, ?_⟩
  · show t.requested + m.countAll .needed + k = t.target.size
    omega
  · rw [hcount, hreused]
    exact UInt64.toNat_ofNat_of_lt (Nat.lt_succ_of_le (Nat.le_trans (by omega) hmax))

/-- A transfer of a file of which `k` bytes are to be reused, none if the local copy is not looked at. -/
theorem spent_create {target : Target} {tuning : Tuning} {admission : Admission} {disk made : Disk}
    (h : create target tuning admission disk = (.ok t, made)) (hle : k ≤ target.size) (hk : t.delta = false → k = 0) :
    t.Spent k := by
  have huntouched := create_untouched h
  have hparts := huntouched.parts
  have hrequested : t.requested = 0 := by
    rw [requested, huntouched.sent]
    rfl
  refine ⟨fun hnone => ?_, fun m hm => ?_⟩
  · rw [huntouched.metrics, huntouched.target]
    refine ⟨?_, hrequested, rfl, hle⟩
    by_contra hdelta
    rw [if_neg hdelta, hnone] at hparts
    exact nomatch hparts
  · rw [hm] at hparts
    split at hparts
    · exact nomatch hparts
    · next hdelta =>
      obtain rfl := Option.some.inj hparts
      rw [hk (by simpa using hdelta), hrequested, huntouched.metrics, huntouched.target, PartMap.countAll_eq,
        PartMap.states_blank, List.count_replicate_self]
      exact ⟨by omega, rfl⟩

theorem bytesReused_complete (t : Transfer) : t.complete.metrics.bytesReused = t.metrics.bytesReused := by
  unfold complete
  split
  · rfl
  · simp [notify, Metrics.complete]

end Transfer

/-! ## Jobs -/

namespace Task

/-- A job that looks for the blocks of `s` in a local copy with the content `b`, and comes to `k` bytes that are reused,
or one that finds the right hash. -/
def Reuses (s : Signature) (b : ByteArray) (k : Nat) : Task → Prop
  | search _ x _ _ => x = s ∧ s.reusable b = k
  | searched _ x _ _ found => x = s ∧ s.reusable b = k ∧ ∀ l, found = .ok l → l = plainScan s b
  | copy _ x _ _ found => x = s ∧ s.reusable b = k ∧ found = plainScan s b
  | copied _ result => ∀ m, result = .ok m →
    m.countAll .available = k ∧ m.countAll .needed + k = s.fileLength.toNat
  | hash .. => True
  | hashed _ result => result ≠ .ok false

/-- What a job finds in its next step: the local copy, with the content `b`, or the file, assembled as it should be. -/
def Meets (b : ByteArray) (t : Transfer) : Task → Prop
  | search _ _ candidate _ => ∃ n, t.disk.HasFile candidate n b
  | copied .. => t.parts = none
  | hash _ d => ∃ n, t.disk.LeadsTo t.target.temp n ∧ (t.disk.content n).size ≤ Disk.seekLimit ∧
    Sha256.digest (t.disk.content n) = d
  | hashed .. => ∃ m, t.parts = some m ∧ m.isComplete
  | _ => True

theorem Reuses.next {s : Signature} {b : ByteArray} {k : Nat} {t : Transfer} {task next : Task} (h : task.Reuses s b k)
    (hmeets : task.Meets b t) (hs : 0 < s.blockLength.toNat) (hb : b.size ≤ Disk.sizeLimit)
    (hhands : next.isWork = false) (hnext : (task.step t).2 = some next) : next.Reuses s b k := by
  cases task with
  | search epoch x candidate temp =>
    obtain ⟨rfl, hk⟩ := h
    obtain ⟨n, hfile⟩ := hmeets
    have hthere : ∀ u, u = t → ((Transfer.bench epoch).disk u).HasFile candidate n b := by
      rintro _ rfl
      exact hfile
    obtain ⟨found, hfound, hscan, -⟩ :=
      (Bench.findMatches_spec (Course.bench_still epoch).steady hthere hb (.inl hs)).run
    rw [Course.step_search, hfound] at hnext
    obtain rfl := Option.some.inj hnext
    exact ⟨rfl, hk, hscan⟩
  | copy epoch x candidate temp found =>
    obtain ⟨rfl, hk, rfl⟩ := h
    obtain rfl := Option.some.inj hnext
    intro m hm
    have hmarked := Bench.returns_marked (Transfer.bench epoch) candidate t.target.temp temp x (plainScan x b) t m hm
    have hfits : ∀ m ∈ plainScan x b, m.Fits x := fun m hm => BlockMatch.fits_of_mem_plainScan hm
    have hsum := Plan.countAll_marked hfits
    have hcount : (x.marked (plainScan x b)).countAll .available = k := hk
    rw [hmarked, ← hsum, hcount]
    exact ⟨rfl, rfl⟩
  | hash epoch d =>
    obtain ⟨n, hleads, hsize, hdigest⟩ := hmeets
    obtain ⟨r, hr, hverdict, -⟩ :=
      (Bench.verifyFile_spec (Course.bench_still epoch) (s := t) hleads hsize d).run
    have hstep : (Task.step t (.hash epoch d)).2 = some (.hashed epoch r) := by simp only [Task.step, hr]
    obtain rfl := Option.some.inj (hstep.symm.trans hnext)
    intro hwrong
    have := hverdict false hwrong
    rw [show (Transfer.bench epoch).disk t = t.disk from rfl, hdigest, beq_self_eq_true] at this
    cases this
  | searched epoch x candidate temp found =>
    -- the job goes on with another step of work
    cases found with
    | error f => cases hnext
    | ok l =>
      simp only [Task.step] at hnext
      split at hnext
      · rw [← Option.some.inj hnext] at hhands
        cases hhands
      · cases hnext
  | copied epoch result => cases hnext
  | hashed epoch result => cases hnext

end Task

namespace Course

variable {s : Signature} {b : ByteArray} {k : Nat} {c : Course} {e : Event}

/-! ## Courses -/

/-- Nothing goes wrong: who joins can deliver a signature, and it is `s`; only bytes come that were asked for, the jobs
find what they are to find, and nobody leaves or gives up. -/
def Smooth (s : Signature) (b : ByteArray) (c : Course) : Event → Prop
  | .join share _ => share.broken = false ∧ share.caps.supportsDelta
  | .chunk _ offset bytes => ∀ m, c.transfer.parts = some m →
    ∀ o ∈ (⟨offset, bytes.size⟩ : ByteRange), m.state? o ≠ some .needed
  | .signature x => x = s
  | .work i => ∀ task, c.tasks[i]? = some task → task.Meets b c.transfer
  | .ready _ | .send | .edit _ => True
  | _ => False

/-- The books of a transfer that goes on, with `k` bytes to be reused, and its jobs. -/
structure Spends (s : Signature) (b : ByteArray) (k : Nat) (c : Course) : Prop where
  spent : c.transfer.Spent k
  planned : c.transfer.delta → c.transfer.target.candidate.isSome ∧ s.reusable b = k
  size : s.fileLength.toNat = c.transfer.target.size
  tasks : ∀ task ∈ c.tasks, task.Reuses s b k

theorem Spends.max (h : Spends s b k c) : c.transfer.target.size ≤ maxOffset := by
  rw [← h.size]
  exact Nat.le_of_lt_succ s.fileLength.toNat_lt

theorem Fills.spent {v : Transfer} {m : PartMap} {l : List Task} (hf : Fills c e v m l) (h : Spends s b k c)
    (hsmooth : c.Smooth s b e) (hlength : ∀ m, c.transfer.parts = some m → m.length = c.transfer.target.size) :
    v.Spent k := by
  cases hf with
  | @chunk id offset bytes m temp disk attached pos inside parts =>
    have hdisk : ({ c.transfer with disk } : Transfer).Spent k := h.spent.spares ⟨rfl, rfl, rfl, rfl, rfl⟩
    exact hdisk.credited parts ((hlength m parts).symm ▸ inside) (hsmooth m parts) id
  | @copied i m here =>
    obtain ⟨hreused, hrest⟩ := h.tasks _ (List.mem_of_getElem? here) m rfl
    exact h.spent.installed (hsmooth _ here) hreused (hrest.trans h.size) h.max

theorem Opens.spent {v : Transfer} {l : List Task} (ho : Opens c e v l) (hopen : c.transfer.phase.isFinal = false)
    (h : Spends s b k c) (hsmooth : c.Smooth s b e)
    (hlength : ∀ m, c.transfer.parts = some m → m.length = c.transfer.target.size)
    (hable : ∀ q ∈ c.transfer.shares, q.broken = false ∧ q.caps.supportsDelta) : v.Spent k := by
  have hsame : c.transfer.Tacit c.transfer := .refl hopen
  cases ho with
  | @join share answers pos unknown accepted =>
    have hseat : c.transfer.Tacit (c.transfer.seat share answers) := hsame.seat share answers
    have henter : (c.transfer.seat share answers).Spares (c.transfer.seat share answers).enter := by
      unfold Transfer.enter
      split
      · exact Transfer.spares_setPhase _ _
      · exact .refl _
    have hmem : { share with link := c.transfer.links.size }.withBudget c.transfer.tuning.maxRequests ∈
        (c.transfer.seat share answers).enter.shares := by
      unfold Transfer.enter Transfer.seat
      split <;> simp
    exact h.spent.spares (((hseat.spares rfl rfl).trans henter).trans
      (Transfer.spares_ensureSignature hseat.enter.isOpen hmem hsmooth.1 hsmooth.2))
  | @ready id attached =>
    have hready : c.transfer.Tacit (c.transfer.updateShare id Share.start) := hsame.books rfl rfl
    obtain ⟨q, hq, -⟩ := List.any_eq_true.1 attached
    have hmem : (if q.id == id then q.start else q) ∈ (c.transfer.updateShare id Share.start).shares :=
      List.mem_map.2 ⟨q, hq, rfl⟩
    have hstill : (if q.id == id then q.start else q).broken = false ∧
        (if q.id == id then q.start else q).caps.supportsDelta := by
      split <;> exact hable q hq
    exact h.spent.spares ((hready.spares rfl rfl).trans
      (Transfer.spares_ensureSignature hready.isOpen hmem hstill.1 hstill.2))
  | leave => exact hsmooth.elim
  | chunk fills => exact fills.spent h hsmooth hlength
  | fetch fits unsigned unmapped candidate =>
    have hcandidate := (h.planned (h.spent.unmapped unmapped).1).1
    rw [candidate] at hcandidate
    exact nomatch hcandidate
  | send => exact h.spent
  | copied fills => exact (fills.spent h hsmooth hlength).spares (Transfer.spares_setPhase _ _)
  | failed here => exact absurd rfl (h.tasks _ (List.mem_of_getElem? here))

theorem Outcome.spent {u : Transfer} {l : List Task} (ho : Outcome c e u l) (hopen : c.transfer.phase.isFinal = false)
    (h : Spends s b k c) (hsmooth : c.Smooth s b e)
    (hlength : ∀ m, c.transfer.parts = some m → m.length = c.transfer.target.size)
    (hable : ∀ q ∈ c.transfer.shares, q.broken = false ∧ q.caps.supportsDelta) (hnext : u.phase.isFinal = false) :
    u.Spent k := by
  have hsame : c.transfer.Tacit c.transfer := .refl hopen
  cases ho with
  | round opens => exact (opens.spent hopen h hsmooth hlength hable).sendRequests
  | assembled fills =>
    exact ((fills.spent h hsmooth hlength).spares (Transfer.spares_setPhase _ _)).spares ⟨rfl, rfl, rfl, rfl, rfl⟩
  | closed closes => exact absurd hnext closes.not_open
  | @searching x candidate temp fits unsigned unmapped copy handle =>
    have hlearned : c.transfer.Spares { c.transfer with signature := some x, owing := none } :=
      ⟨rfl, rfl, rfl, rfl, rfl⟩
    exact (h.spent.spares (hlearned.trans (Transfer.spares_setPhase _ _))).spares ⟨rfl, rfl, rfl, rfl, rfl⟩
  | matched => exact h.spent.spares (Transfer.spares_setPhase _ _)
  | _ => exact h.spent.spares ⟨rfl, rfl, rfl, rfl, rfl⟩

theorem Outcome.reuses {u : Transfer} {l : List Task} (ho : Outcome c e u l) (hopen : c.transfer.phase.isFinal = false)
    (hidle : c.transfer.outbox.jobs = []) (h : Spends s b k c) (hsmooth : c.Smooth s b e)
    (hs : 0 < s.blockLength.toNat) (hb : b.size ≤ Disk.sizeLimit) (hnext : u.phase.isFinal = false) :
    ∀ task ∈ l ++ u.outbox.jobs.map Task.ofJob, task.Reuses s b k := by
  have hjobs : ∀ {v : Transfer} {l : List Task}, c.transfer.Onward v → (∀ task ∈ l, task.Reuses s b k) →
      ∀ task ∈ l ++ v.outbox.jobs.map Task.ofJob, task.Reuses s b k := fun {v l} honward hl task ht => by
    rw [honward.jobs, hidle, List.map_nil, List.append_nil] at ht
    exact hl task ht
  have hjob : ∀ {v : Transfer} {l : List Task} {j : Job}, c.transfer.Onward v → (∀ task ∈ l, task.Reuses s b k) →
      (Task.ofJob j).Reuses s b k → ∀ task ∈ l ++ (v.queueJob j).outbox.jobs.map Task.ofJob, task.Reuses s b k :=
    fun {v l j} honward hl hj task ht => by
      have hqueued : (v.queueJob j).outbox.jobs = [j] := by
        show v.outbox.jobs ++ [j] = [j]
        rw [honward.jobs, hidle]
        rfl
      rw [hqueued, List.map_singleton] at ht
      rcases List.mem_append.1 ht with ht | ht
      · exact hl task ht
      · rwa [List.mem_singleton.1 ht]
  have hkept : ∀ {l : List Task}, (∀ task ∈ l, task ∈ c.tasks) → ∀ task ∈ l, task.Reuses s b k :=
    fun hl task ht => h.tasks task (hl task ht)
  have hsame : c.transfer.Tacit c.transfer := .refl hopen
  cases ho with
  | same => exact hjobs hsame.toOnward h.tasks
  | @connected share answers =>
    have hconnected : c.transfer.Tacit (c.transfer.connect ⟨share.id, answers, 0⟩).1 := hsame.books rfl rfl
    exact hjobs hconnected.toOnward h.tasks
  | round opens =>
    have htacit := opens.tacit hopen
    exact hjobs (htacit.toOnward.trans (Transfer.onward_sendRequests htacit.isOpen)) (hkept opens.rest)
  | assembled fills =>
    exact hjob ((fills.tacit hopen).1.setPhase (p := .verifying) rfl).toOnward (hkept fills.rest) trivial
  | closed closes => exact absurd hnext closes.not_open
  | @learned x =>
    have hlearned : c.transfer.Tacit { c.transfer with signature := some x, owing := none } := hsame.books rfl rfl
    exact hjobs hlearned.toOnward h.tasks
  | @searching x candidate temp fits unsigned unmapped =>
    have hlearned : c.transfer.Tacit { c.transfer with signature := some x, owing := none } := hsame.books rfl rfl
    exact hjob (hlearned.setPhase (p := .matching) rfl).toOnward h.tasks
      ⟨hsmooth, (h.planned (h.spent.unmapped unmapped).1).2⟩
  | @worked i task next disk here step follows =>
    have hworked : c.transfer.Tacit { c.transfer with disk } := hsame.books rfl rfl
    refine hjobs hworked.toOnward fun a ha => ?_
    rcases mem_replaced (r := some next) ha with ha | ha
    · exact h.tasks a ha
    · obtain rfl := Option.some.inj ha
      have hnext : (task.step c.transfer).2 = some next := by rw [step]
      exact (h.tasks task (List.mem_of_getElem? here)).next (hsmooth task here) hs hb follows.hands hnext
  | @matched i x candidate temp found here =>
    refine hjobs (hsame.setPhase (p := .copying) rfl).toOnward fun a ha => ?_
    rcases mem_replaced (r := some _) ha with ha | ha
    · exact h.tasks a ha
    · obtain rfl := Option.some.inj ha
      obtain ⟨hx, hk, hfound⟩ := h.tasks _ (List.mem_of_getElem? here)
      exact ⟨hx, hk, hfound found rfl⟩
  | dropped => exact hjobs hsame.toOnward (hkept mem_of_mem_erased)
  | @edited disk =>
    have hedited : c.transfer.Tacit { c.transfer with disk } := hsame.books rfl rfl
    exact hjobs hedited.toOnward h.tasks

/-- Whatever comes of an event with which nothing goes wrong, the books are in order if the transfer goes on. -/
theorem Outcome.spends {u : Transfer} {l : List Task} (ho : Outcome c e u l) (hopen : c.transfer.phase.isFinal = false)
    (hidle : c.transfer.outbox.jobs = []) (h : Spends s b k c) (hsmooth : c.Smooth s b e)
    (hlength : ∀ m, c.transfer.parts = some m → m.length = c.transfer.target.size)
    (hable : ∀ q ∈ c.transfer.shares, q.broken = false ∧ q.caps.supportsDelta) (hs : 0 < s.blockLength.toNat)
    (hb : b.size ≤ Disk.sizeLimit) (hnext : u.phase.isFinal = false) : Spends s b k (settle u l) := by
  have hmade := ho.made hopen hnext
  refine ⟨?_, ?_, ?_, ho.reuses hopen hidle h hsmooth hs hb hnext⟩
  · exact (ho.spent hopen h hsmooth hlength hable hnext).spares ⟨rfl, rfl, rfl, rfl, rfl⟩
  · rw [hmade.delta, hmade.target]
    exact h.planned
  · rw [hmade.target]
    exact h.size

/-- A transfer that completes has asked for all bytes but for those that it reused. -/
theorem Finish.settled {u : Transfer} (hf : Finish c e u) (hcloses : c.transfer.Closes u)
    (hopen : c.transfer.phase.isFinal = false) (h : Spends s b k c) (hsmooth : c.Smooth s b e)
    (hlength : ∀ m, c.transfer.parts = some m → m.length = c.transfer.target.size) (hcompleted : u.phase = .completed) :
    u.Settled k c.transfer.target.size := by
  have hrequested : u.requested = c.transfer.requested := Transfer.requested_tacit hcloses.calls
  cases hf with
  | empty size =>
    have hsettled := h.spent.settled_empty size
    exact ⟨(congrArg UInt64.toNat (Transfer.bytesReused_complete _)).trans hsettled.reused,
      hrequested ▸ hsettled.requested⟩
  | @unsigned _ v m l fills complete unsigned =>
    obtain ⟨htacit, -, hparts, -⟩ := fills.tacit hopen
    have hsettled := (fills.spent h hsmooth hlength).settled hparts complete
    refine ⟨?_, ?_⟩
    · rw [Transfer.bytesReused_complete, (Transfer.spares_setPhase v .verifying).reused]
      exact hsettled.reused
    · rw [hrequested, ← Transfer.requested_tacit htacit.calls, hsettled.requested, htacit.target]
  | right here =>
    obtain ⟨m, hparts, hall⟩ := hsmooth _ here
    have hsettled := h.spent.settled hparts hall
    exact ⟨(congrArg UInt64.toNat (Transfer.bytesReused_complete _)).trans hsettled.reused,
      hrequested ▸ hsettled.requested⟩
  | broken why phase =>
    exact nomatch (Transfer.breakDown_ends (phase ▸ hopen) why).2.symm.trans hcompleted
  | aborted disk =>
    rcases Transfer.abort_cases c.transfer with hsame | ⟨-, haborted⟩
    · have hphase : c.transfer.abort.phase = .completed := hcompleted
      rw [hsame] at hphase
      exact absurd hphase (not_completed hopen).1
    · exact nomatch (haborted hopen).symm.trans hcompleted

end Course

end FileSwarm
