import Mathlib
import FileSwarm.Proofs.Delta.Copying
import FileSwarm.Proofs.Transfer.Changes

/-!
# Courses: a transfer and its jobs, event by event

A course is a transfer with the jobs its workers have under way. Everything that can happen to it is an
event: a peer joins, says something or leaves, a job takes its next step, the caller loses patience,
another program changes the disk. Events come in any order.

* `Event`, `Course.step`, `Course.run` : what happens, one by one, from `Course.start` on;
* `Course.assembled` : what is read from the temp file;
* `step_work_eq`, `step_crash_eq`, `step_chunk_eq`, `step_edit` : one equation for each event with a choice in it;
  `step_work`, `step_crash`, `step_chunk_ok`, ... : one for each way it can go;
* `step_search`, `step_copy`, `step_hash` : what jobs do to the disk, and what they return;
* `step_final` : a transfer that is over stays as it ended; `open_induction` : induction over a transfer
  that goes on.
-/

namespace FileSwarm

namespace Task

/-- The epoch at which the job was told. -/
def epoch : Task → Nat
  | search e .. | searched e .. | copy e .. | copied e _ | hash e _ | hashed e _ => e

/-- Whether the job looks at the local copy; other jobs hash the temp file. -/
def isDelta : Task → Bool
  | search .. | searched .. | copy .. | copied .. => true
  | hash .. | hashed .. => false

/-- A job that copies does so into node `n`, for a file of `size` bytes, and finds nothing pending. -/
def Fits (n size : Nat) : Task → Prop
  | search _ s _ temp | searched _ s _ temp _ | copy _ s _ temp _ =>
    temp.node = n ∧ s.fileLength.toNat = size
  | copied _ (.ok m) => ∀ o, m.state? o ≠ some .pending
  | _ => True

end Task

/-- A transfer and the jobs its workers have under way. -/
structure Course where
  transfer : Transfer
  tasks : List Task

/-- Something that happens. -/
inductive Event where
  /-- A peer joins, over a link of its own, that answers range request number `k` by `answers k`. -/
  | join (share : Share) (answers : Nat → Bool)
  | ready (id : String)
  | leave (id : String)
  | chunk (id : String) (offset : Nat) (bytes : ByteArray)
  | signature (s : Signature)
  | send
  | breakByCaller
  | abort
  /-- Abort, and take the temp file away. -/
  | cleanUp
  /-- The job at a position takes its next step. -/
  | work (i : Nat)
  /-- The job at a position ends in a fault. -/
  | crash (i : Nat) (message : String)
  /-- Another program changes the disk, but not the temp file. -/
  | edit (disk : Disk)

/-- Whether bytes come from a peer. -/
def Event.isChunk : Event → Bool
  | .chunk .. => true
  | _ => false

/-- Whether a path leads to the same node in both, with the same bytes. -/
def Disk.agree (d e : Disk) (path : String) : Bool :=
  match d.number path with
  | .ok n => e.number path = .ok n && e.bytesAt? n = d.bytesAt? n && e.directoryAt? n = d.directoryAt? n
  | .error _ => false

namespace Course

/-- The jobs that an operation left are under way now. -/
def settle (t : Transfer) (tasks : List Task) : Course :=
  ⟨t.takeOutbox.1, tasks ++ t.outbox.jobs.map Task.ofJob⟩

/-- A transfer to which nothing has happened. -/
def start (t : Transfer) : Course := settle t []

def step (c : Course) : Event → Course
  | .join share answers =>
    let (t, link) := c.transfer.connect ⟨share.id, answers, 0⟩
    settle (t.addPeer { share with link }).1 c.tasks
  | .ready id => settle (c.transfer.peerReady id).1 c.tasks
  | .leave id => settle (c.transfer.removePeer id).1 c.tasks
  | .chunk id offset bytes =>
    match c.transfer.receiveChunk id offset bytes with
    | .ok t => settle t c.tasks
    | .error _ => c
  | .signature s => settle (c.transfer.receiveSignature s) c.tasks
  | .send => settle c.transfer.sendRequests c.tasks
  | .breakByCaller => settle c.transfer.breakByCaller c.tasks
  | .abort => settle c.transfer.abort c.tasks
  | .cleanUp => settle c.transfer.abortAndCleanUp c.tasks
  | .work i =>
    match c.tasks[i]? with
    | none => c
    | some task =>
      let (t, rest) := Task.step c.transfer task
      settle t (c.tasks.take i ++ rest.toList ++ c.tasks.drop (i + 1))
  | .crash i message =>
    match c.tasks[i]? with
    | none => c
    | some task => settle (c.transfer.acceptCrash task.epoch message) (c.tasks.eraseIdx i)
  | .edit disk =>
    if c.transfer.disk.agree disk c.transfer.target.temp then
      { c with transfer := { c.transfer with disk } }
    else c

section Steps

variable {c : Course} {i : Nat}

theorem step_work_eq (c : Course) (i : Nat) : c.step (.work i) =
    match c.tasks[i]? with
    | none => c
    | some task => settle (task.step c.transfer).1
        (c.tasks.take i ++ (task.step c.transfer).2.toList ++ c.tasks.drop (i + 1)) := rfl

theorem step_work_none (h : c.tasks[i]? = none) : c.step (.work i) = c := by
  rw [step_work_eq, h]

theorem step_work {task : Task} (h : c.tasks[i]? = some task) :
    c.step (.work i) = settle (task.step c.transfer).1
      (c.tasks.take i ++ (task.step c.transfer).2.toList ++ c.tasks.drop (i + 1)) := by
  rw [step_work_eq, h]

theorem step_crash_eq (c : Course) (i : Nat) (message : String) : c.step (.crash i message) =
    match c.tasks[i]? with
    | none => c
    | some task => settle (c.transfer.acceptCrash task.epoch message) (c.tasks.eraseIdx i) := rfl

theorem step_crash_none {message : String} (h : c.tasks[i]? = none) : c.step (.crash i message) = c := by
  rw [step_crash_eq, h]

theorem step_crash {task : Task} {message : String} (h : c.tasks[i]? = some task) :
    c.step (.crash i message) = settle (c.transfer.acceptCrash task.epoch message) (c.tasks.eraseIdx i) := by
  rw [step_crash_eq, h]

theorem step_chunk_eq (c : Course) (id : String) (offset : Nat) (bytes : ByteArray) : c.step (.chunk id offset bytes) =
    match c.transfer.receiveChunk id offset bytes with
    | .ok t => settle t c.tasks
    | .error _ => c := rfl

theorem step_chunk_ok {id : String} {offset : Nat} {bytes : ByteArray} {u : Transfer}
    (h : c.transfer.receiveChunk id offset bytes = .ok u) : c.step (.chunk id offset bytes) = settle u c.tasks := by
  rw [step_chunk_eq, h]

theorem step_chunk_error {id : String} {offset : Nat} {bytes : ByteArray} {f : Fault}
    (h : c.transfer.receiveChunk id offset bytes = .error f) : c.step (.chunk id offset bytes) = c := by
  rw [step_chunk_eq, h]

theorem step_edit (d : Disk) : c.step (.edit d) =
    if c.transfer.disk.agree d c.transfer.target.temp then
      { c with transfer := { c.transfer with disk := d } }
    else c := rfl

end Steps

/-- What happens one after another. -/
def run (c : Course) (events : List Event) : Course := events.foldl step c

@[simp] theorem run_nil (c : Course) : c.run [] = c := rfl

theorem run_append (c : Course) (k l : List Event) : c.run (k ++ l) = (c.run k).run l :=
  List.foldl_append

theorem run_snoc (c : Course) (l : List Event) (e : Event) : c.run (l ++ [e]) = (c.run l).step e := by
  rw [run_append]
  rfl

/-- What is read from the temp file. -/
def assembled (c : Course) : Except Cause ByteArray := c.transfer.disk.read c.transfer.target.temp

/-- What is in the temp file, if its node has number `n`. -/
def content (n : Nat) (c : Course) : ByteArray := c.transfer.disk.content n

/-! ## What the steps of jobs do -/

theorem bench_still (epoch : Nat) : (Transfer.bench epoch).Still := fun _ _ => rfl

theorem bench_patient {t : Transfer} {epoch : Nat} (h : t.epoch = epoch) : (Transfer.bench epoch).Patient t :=
  fun _ => by simp [Transfer.bench, h]

theorem search_leaves (t : Transfer) (epoch : Nat) (candidate : String) (s : Signature) :
    (((Transfer.bench epoch).findMatches candidate s).run.run t).2 = t :=
  (Bench.carries_findMatches (P := (· = t)) (bench_still epoch).heedless candidate s t rfl).1

/-- Copying changes the temp file alone, which does not get too large. -/
theorem copy_leaves {t : Transfer} {n : Nat} {temp : Handle} {s : Signature}
    (hn : temp.node = n) (hlen : s.fileLength.toNat = t.target.size)
    (hsmall : (t.disk.content n).size ≤ t.target.size) (hlim : (t.disk.content n).size ≤ Disk.sizeLimit)
    (epoch : Nat) (candidate : String) (found : List BlockMatch) :
    ∃ d, (((Transfer.bench epoch).copyMatches candidate t.target.temp temp s found).run.run t).2 =
        { t with disk := d } ∧ Disk.Alike n t.disk d ∧ (d.content n).size ≤ t.target.size ∧
      (d.content n).size ≤ Disk.sizeLimit := by
  refine (Bench.carries_copyMatches (P := fun u => ∃ d, u = { t with disk := d } ∧ Disk.Alike n t.disk d ∧
    (d.content n).size ≤ t.target.size ∧ (d.content n).size ≤ Disk.sizeLimit) (bench_still epoch).heedless ?_ ?_
    found t ⟨t.disk, rfl, .refl n _, hsmall, hlim⟩).1
  · rintro _ e ⟨d, rfl, ha, -, -⟩ he
    change d.setLength temp s.fileLength.toNat = .ok e at he
    obtain ⟨old, -, hle, ha', hb⟩ := Disk.setLength_eq_ok he
    rw [hn] at ha' hb
    refine ⟨e, rfl, ha.trans ha', ?_⟩
    rw [Disk.content, hb, Option.getD_some, Disk.size_resize]
    exact ⟨Nat.le_of_eq hlen, hle⟩
  · rintro _ e offset bytes ⟨d, rfl, ha, hs, hl⟩ hin he
    change d.writeAt temp offset bytes = .ok e at he
    rcases hin with hz | hin
    · have : e = d := Disk.writeAt_empty hz he
      exact ⟨d, by rw [this]; rfl, ha, hs, hl⟩
    · rcases Nat.eq_zero_or_pos bytes.size with hz | hpos
      · have : e = d := Disk.writeAt_empty hz he
        exact ⟨d, by rw [this]; rfl, ha, hs, hl⟩
      · obtain ⟨old, hb, hle, ha', hb'⟩ := Disk.writeAt_eq_ok hpos he
        rw [hn] at hb ha' hb'
        have hold : d.content n = old := by rw [Disk.content, hb]; rfl
        rw [hold] at hs hl
        refine ⟨e, rfl, ha.trans ha', ?_⟩
        rw [Disk.content, hb', Option.getD_some, Disk.size_overlay hpos]
        omega

/-- Hashing changes nothing, and its result is about the content of the temp file. -/
theorem hash_leaves {t : Transfer} {n : Nat} (hp : t.disk.LeadsTo t.target.temp n)
    (hlim : (t.disk.content n).size ≤ Disk.sizeLimit) (epoch : Nat) (d : Digest) :
    ∃ r, ((Transfer.bench epoch).verifyFile t.target.temp d).run.run t = (r, t) ∧
      (∀ b, r = .ok b → b = (Sha256.digest (t.disk.content n) == d)) ∧
      (t.epoch = epoch → ∃ b, r = .ok b) := by
  have hseek : (t.disk.content n).size ≤ Disk.seekLimit := Nat.le_trans hlim (by decide)
  obtain ⟨r, hr, hok, hgo⟩ := (Bench.verifyFile_spec (bench_still epoch) hp hseek d).run
  exact ⟨r, hr, hok, fun he => hgo (bench_patient he)⟩

theorem step_search (t : Transfer) (epoch : Nat) (s : Signature) (candidate : String) (temp : Handle) :
    Task.step t (.search epoch s candidate temp) = (t, some (.searched epoch s candidate temp
      (((Transfer.bench epoch).findMatches candidate s).run.run t).1)) := by
  have h := search_leaves t epoch candidate s
  rcases hr : ((Transfer.bench epoch).findMatches candidate s).run.run t with ⟨r, u⟩
  rw [hr] at h
  simp only [Task.step, hr, show u = t from h]

theorem step_copy {t : Transfer} {n : Nat} {s : Signature} {temp : Handle}
    (hn : temp.node = n) (hlen : s.fileLength.toNat = t.target.size)
    (hsmall : (t.disk.content n).size ≤ t.target.size) (hlim : (t.disk.content n).size ≤ Disk.sizeLimit)
    (epoch : Nat) (candidate : String) (found : List BlockMatch) :
    ∃ d r, Task.step t (.copy epoch s candidate temp found) = ({ t with disk := d }, some (.copied epoch r)) ∧
      (∀ m, r = .ok m → ∀ o, m.state? o ≠ some .pending) ∧
      Disk.Alike n t.disk d ∧ (d.content n).size ≤ t.target.size ∧ (d.content n).size ≤ Disk.sizeLimit := by
  obtain ⟨d, hd, h⟩ := copy_leaves hn hlen hsmall hlim epoch candidate found
  have hclean := Bench.returns_copyMatches (Transfer.bench epoch) candidate t.target.temp temp s found t
  rcases hr : ((Transfer.bench epoch).copyMatches candidate t.target.temp temp s found).run.run t with ⟨r, u⟩
  rw [hr] at hd hclean
  exact ⟨d, r, by simp only [Task.step, hr, show u = _ from hd], fun m hm => (hclean m hm).2, h⟩

theorem step_hash {t : Transfer} {n : Nat} (hp : t.disk.LeadsTo t.target.temp n)
    (hlim : (t.disk.content n).size ≤ Disk.sizeLimit) (epoch : Nat) (d : Digest) :
    ∃ r, Task.step t (.hash epoch d) = (t, some (.hashed epoch r)) ∧
      (∀ b, r = .ok b → b = (Sha256.digest (t.disk.content n) == d)) ∧
      (t.epoch = epoch → ∃ b, r = .ok b) := by
  obtain ⟨r, hr, h⟩ := hash_leaves hp hlim epoch d
  exact ⟨r, by simp only [Task.step, hr], h⟩

/-! ## A transfer that is over stays over -/

theorem copy_disk (t : Transfer) (epoch : Nat) (s : Signature) (candidate : String) (temp : Handle)
    (found : List BlockMatch) :
    ∃ d, (Task.step t (.copy epoch s candidate temp found)).1 = { t with disk := d } := by
  refine (Bench.carries_copyMatches (P := fun u => ∃ d, u = { t with disk := d }) (bench_still epoch).heedless ?_ ?_
    found t ⟨t.disk, rfl⟩).1
  · rintro _ e ⟨d, rfl⟩ -
    exact ⟨e, rfl⟩
  · rintro _ e offset bytes ⟨d, rfl⟩ - -
    exact ⟨e, rfl⟩

theorem hash_same (t : Transfer) (epoch : Nat) (d : Digest) : (Task.step t (.hash epoch d)).1 = t :=
  (Bench.carries_verifyFile (P := (· = t)) (bench_still epoch).heedless t.target.temp d t rfl).1

theorem accept_final {t : Transfer} (h : t.phase.isFinal) (epoch : Nat) (f : Transfer → Transfer) :
    t.accept epoch f = t := by
  rw [Transfer.accept, Transfer.isCurrent, h, Bool.not_true, Bool.and_false, if_neg Bool.false_ne_true]

theorem breakDown_final {t : Transfer} (h : t.phase.isFinal) (why : Breakage) : t.breakDown why = t := by
  rw [Transfer.breakDown, if_pos h]

theorem abort_final {t : Transfer} (h : t.phase.isFinal) :
    t.abort.phase = t.phase ∧ t.abort.mismatches = t.mismatches := by
  unfold Transfer.abort
  split
  · exact ⟨rfl, rfl⟩
  · dsimp only
    rw [Transfer.tellAll_eq]
    dsimp only
    rw [if_pos h]
    simp

theorem work_final {t : Transfer} (h : t.phase.isFinal) (task : Task) :
    (task.step t).1.phase = t.phase ∧ (task.step t).1.mismatches = t.mismatches := by
  cases task with
  | search epoch s candidate temp =>
    rw [step_search]
    exact ⟨rfl, rfl⟩
  | searched epoch s candidate temp found =>
    show (t.acceptMatches epoch found).phase = _ ∧ (t.acceptMatches epoch found).mismatches = _
    cases found <;> (rw [Transfer.acceptMatches, accept_final h]; exact ⟨rfl, rfl⟩)
  | copy epoch s candidate temp found =>
    obtain ⟨d, hd⟩ := copy_disk t epoch s candidate temp found
    rw [hd]
    exact ⟨rfl, rfl⟩
  | copied epoch result =>
    show (t.acceptCopy epoch result).phase = _ ∧ (t.acceptCopy epoch result).mismatches = _
    rw [Transfer.acceptCopy, accept_final h]
    exact ⟨rfl, rfl⟩
  | hash epoch d =>
    rw [hash_same]
    exact ⟨rfl, rfl⟩
  | hashed epoch result =>
    show (t.acceptVerdict epoch result).phase = _ ∧ (t.acceptVerdict epoch result).mismatches = _
    rw [Transfer.acceptVerdict, accept_final h]
    exact ⟨rfl, rfl⟩

/-- A transfer that is over stays as it ended, whatever happens. -/
theorem step_final {c : Course} (h : c.transfer.phase.isFinal) (e : Event) :
    (c.step e).transfer.phase = c.transfer.phase ∧ (c.step e).transfer.mismatches = c.transfer.mismatches := by
  cases e with
  | join share answers =>
    show ((c.transfer.connect _).1.addPeer _).1.phase = _ ∧ ((c.transfer.connect _).1.addPeer _).1.mismatches = _
    rw [Transfer.addPeer, if_pos (show (c.transfer.connect _).1.phase.isFinal from h)]
    exact ⟨rfl, rfl⟩
  | ready id =>
    show (c.transfer.peerReady id).1.phase = _ ∧ (c.transfer.peerReady id).1.mismatches = _
    rw [Transfer.peerReady, if_pos h]
    split <;> exact ⟨rfl, rfl⟩
  | leave id =>
    show (c.transfer.removePeer id).1.phase = _ ∧ (c.transfer.removePeer id).1.mismatches = _
    rw [Transfer.removePeer]
    cases c.transfer.share? id with
    | none => exact ⟨rfl, rfl⟩
    | some s =>
      dsimp only
      rw [if_pos h]
      exact ⟨rfl, rfl⟩
  | chunk id offset bytes =>
    have hc : c.transfer.receiveChunk id offset bytes = .ok c.transfer := by
      rw [Transfer.receiveChunk, h, Bool.true_or, Bool.true_or, if_pos rfl]
    rw [step_chunk_ok hc]
    exact ⟨rfl, rfl⟩
  | signature s =>
    show (c.transfer.receiveSignature s).phase = _ ∧ (c.transfer.receiveSignature s).mismatches = _
    rw [Transfer.receiveSignature, h, Bool.true_or, if_pos rfl]
    exact ⟨rfl, rfl⟩
  | send =>
    show c.transfer.sendRequests.phase = _ ∧ c.transfer.sendRequests.mismatches = _
    simp
  | breakByCaller =>
    show (c.transfer.breakDown .byCaller).phase = _ ∧ (c.transfer.breakDown .byCaller).mismatches = _
    rw [breakDown_final h]
    exact ⟨rfl, rfl⟩
  | abort => exact abort_final h
  | cleanUp => exact abort_final h
  | work i =>
    cases hi : c.tasks[i]? with
    | none => rw [step_work_none hi]; exact ⟨rfl, rfl⟩
    | some task => rw [step_work hi]; exact work_final h task
  | crash i message =>
    cases hi : c.tasks[i]? with
    | none => rw [step_crash_none hi]; exact ⟨rfl, rfl⟩
    | some task =>
      rw [step_crash hi, Transfer.acceptCrash, accept_final h]
      exact ⟨rfl, rfl⟩
  | edit d =>
    rw [step_edit]
    split <;> exact ⟨rfl, rfl⟩

theorem open_of_step {c : Course} {e : Event} (h : (c.step e).transfer.phase.isFinal = false) :
    c.transfer.phase.isFinal = false := by
  cases hf : c.transfer.phase.isFinal with
  | false => rfl
  | true => rw [(step_final hf e).1, hf] at h; exact h

/-- What holds at first and is kept by every event as long as the transfer goes on holds while it goes on. -/
theorem open_induction {P : Course → Prop} {c : Course} (hc : P c) {events : List Event}
    (hstep : ∀ {before : List Event} {e : Event}, before ++ [e] <+: events → P (c.run before) →
      ((c.run before).step e).transfer.phase.isFinal = false → P ((c.run before).step e))
    (h : (c.run events).transfer.phase.isFinal = false) : P (c.run events) := by
  induction events using List.reverseRecOn with
  | nil => exact hc
  | append_singleton events e ih =>
    rw [run_snoc] at h ⊢
    exact hstep (List.prefix_refl _) (ih (fun hp => hstep (hp.trans (List.prefix_append _ _))) (open_of_step h)) h

end Course

end FileSwarm
