import FileSwarm.Proofs.Transfer.Moves
import FileSwarm.Proofs.Transfer.Onward
import FileSwarm.Proofs.Transfer.Sound

/-!
# What an event makes of a transfer that is open

Whatever happens to an open transfer, it comes to one of a few outcomes. They are told exactly, outbox included,
and without anything known of the transfer; what courses keep is derived from them.

* `Task.Follows`, `work_follows` : what a job comes to with a step of work;
* `Course.operate`, `step_eq` : an event before its outbox is handed out;
* `Fills` : bytes are there; `Opens` : whatever is needed is about to be asked for; `Finish` : the transfer ends;
  `Outcome` : all that can happen;
* `outcome_operate` : there is no other outcome; `Outcome.cases` : the transfer goes on, or it ends;
  `Outcome.finish` : in one of these ways.
-/

namespace FileSwarm

/-! ## Steps of work -/

namespace Task

/-- A job at a step of work; at the others it hands in what the work came to. -/
def isWork : Task → Bool
  | search .. | copy .. | hash .. => true
  | searched .. | copied .. | hashed .. => false

/-- What the job failed from, if it is about to hand in a failure. -/
def failure? : Task → Option Failure
  | searched _ _ _ _ (.error f) | copied _ (.error f) | hashed _ (.error f) => some f
  | _ => none

/-- The job is about a file of `size` bytes: its signature is, and the map it made, which leaves nothing pending. -/
def Sized (size : Nat) : Task → Prop
  | search _ s _ _ | searched _ s _ _ _ | copy _ s _ _ _ => s.fileLength.toNat = size
  | copied _ (.ok m) => m.length = size ∧ ∀ o, m.state? o ≠ some .pending
  | _ => True

/-- What a job comes to with a step of work beside the transfer `t`: the same job, told at the same epoch. It was
not cancelled if `t` is still at that epoch. -/
structure Follows (t : Transfer) (task next : Task) : Prop where
  epoch : next.epoch = task.epoch
  kind : next.isDelta = task.isDelta
  hands : next.isWork = false
  sized : ∀ size, task.Sized size → next.Sized size
  heeded : t.epoch = task.epoch → next.failure? ≠ some .cancelled

end Task

namespace Course

theorem bench_willing (epoch : Nat) : (Transfer.bench epoch).Willing fun t => t.epoch = epoch :=
  fun _ _ h => by simp [Transfer.bench, h]

theorem work_follows (t : Transfer) {task : Task} (h : task.isWork) :
    ∃ disk next, task.step t = ({ t with disk }, some next) ∧ task.Follows t next := by
  have hgrants : ∀ epoch, t.epoch = epoch → ∀ P : Transfer → Prop, (∀ u, P u → u.epoch = t.epoch) →
      (Transfer.bench epoch).Grants P (· ≠ .cancelled) := fun epoch he P hP =>
    (bench_still epoch).willing_grants fun p u hu => bench_willing epoch p u ((hP u hu).trans he)
  cases task with
  | search epoch s candidate temp =>
    have hfail := fun he : t.epoch = epoch =>
      (Bench.carries_findMatches (hgrants epoch he (· = t) fun u hu => by rw [hu]) candidate s t rfl).2
    rw [step_search]
    refine ⟨t.disk, _, rfl, rfl, rfl, rfl, fun _ hs => hs, fun he => ?_⟩
    cases hr : (((Transfer.bench epoch).findMatches candidate s).run.run t).1 with
    | ok l =>
      intro hf
      cases hf
    | error f => exact fun hf => hfail he f hr (Option.some.inj hf)
  | copy epoch s candidate temp found =>
    obtain ⟨disk, hdisk⟩ := copy_disk t epoch s candidate temp found
    have hret := Bench.returns_copyMatches (Transfer.bench epoch) candidate t.target.temp temp s found t
    have hcarries : t.epoch = epoch → Work.Carries (fun u => ∃ d, u = { t with disk := d }) (· ≠ .cancelled)
        ((Transfer.bench epoch).copyMatches candidate t.target.temp temp s found) := fun he =>
      Bench.carries_copyMatches (hgrants epoch he _ fun u ⟨d, hd⟩ => by rw [hd])
        (fun _ e ⟨d, hd⟩ _ => ⟨e, by rw [hd]; rfl⟩) (fun _ e _ _ ⟨d, hd⟩ _ _ => ⟨e, by rw [hd]; rfl⟩) found
    have hfail := fun he : t.epoch = epoch => (hcarries he t ⟨t.disk, rfl⟩).2
    rcases hr : ((Transfer.bench epoch).copyMatches candidate t.target.temp temp s found).run.run t with ⟨r, u⟩
    rw [hr] at hret hfail
    have hstep : Task.step t (.copy epoch s candidate temp found) = (u, some (.copied epoch r)) := by
      simp only [Task.step, hr]
    rw [hstep] at hdisk ⊢
    refine ⟨disk, .copied epoch r, by rw [show u = _ from hdisk], rfl, rfl, rfl, fun size hs => ?_, fun he => ?_⟩
    · cases r with
      | error f => trivial
      | ok m =>
        obtain ⟨hlen, hclean⟩ := hret m rfl
        exact ⟨hlen.trans hs, hclean⟩
    · cases r with
      | ok m =>
        intro hf
        cases hf
      | error f => exact fun hf => hfail he f rfl (Option.some.inj hf)
  | hash epoch d =>
    have hfail := fun he : t.epoch = epoch =>
      (Bench.carries_verifyFile (hgrants epoch he (· = t) fun u hu => by rw [hu]) t.target.temp d t rfl).2
    have hsame := hash_same t epoch d
    rcases hr : ((Transfer.bench epoch).verifyFile t.target.temp d).run.run t with ⟨r, u⟩
    rw [hr] at hfail
    have hstep : Task.step t (.hash epoch d) = (u, some (.hashed epoch r)) := by simp only [Task.step, hr]
    rw [hstep] at hsame ⊢
    refine ⟨t.disk, .hashed epoch r, by rw [show u = _ from hsame], rfl, rfl, rfl, fun _ _ => trivial, fun he => ?_⟩
    cases r with
    | ok b =>
      intro hf
      cases hf
    | error f => exact fun hf => hfail he f rfl (Option.some.inj hf)
  | _ => cases h

/-! ## Events before their outbox is handed out -/

/-- What an event makes of the transfer, whose outbox is still to be handed out, and the jobs that were told before
and are not done. -/
def operate (c : Course) : Event → Transfer × List Task
  | .join share answers =>
    (((c.transfer.connect ⟨share.id, answers, 0⟩).1.addPeer { share with link := c.transfer.links.size }).1, c.tasks)
  | .ready id => ((c.transfer.peerReady id).1, c.tasks)
  | .leave id => ((c.transfer.removePeer id).1, c.tasks)
  | .chunk id offset bytes => ((c.transfer.receiveChunk id offset bytes).toOption.getD c.transfer, c.tasks)
  | .signature s => (c.transfer.receiveSignature s, c.tasks)
  | .send => (c.transfer.sendRequests, c.tasks)
  | .breakByCaller => (c.transfer.breakByCaller, c.tasks)
  | .abort => (c.transfer.abort, c.tasks)
  | .cleanUp => (c.transfer.abortAndCleanUp, c.tasks)
  | .work i =>
    match c.tasks[i]? with
    | none => (c.transfer, c.tasks)
    | some task => ((task.step c.transfer).1, c.tasks.take i ++ (task.step c.transfer).2.toList ++ c.tasks.drop (i + 1))
  | .crash i message =>
    match c.tasks[i]? with
    | none => (c.transfer, c.tasks)
    | some task => (c.transfer.acceptCrash task.epoch message, c.tasks.eraseIdx i)
  | .edit disk =>
    if c.transfer.disk.agree disk c.transfer.target.temp then ({ c.transfer with disk }, c.tasks)
    else (c.transfer, c.tasks)

theorem settle_idle {u : Transfer} {l : List Task} (h : u.outbox.jobs = []) :
    settle u l = ⟨{ u with outbox := .empty }, l⟩ := by
  rw [settle, h, List.map_nil, List.append_nil]
  rfl

theorem settle_job {u : Transfer} {l : List Task} {j : Job} (h : u.outbox.jobs = [j]) :
    settle u l = ⟨{ u with outbox := .empty }, l ++ [Task.ofJob j]⟩ := by
  rw [settle, h, List.map_singleton]
  rfl

theorem settle_self {c : Course} (h : c.transfer.outbox = .empty) : settle c.transfer c.tasks = c := by
  have hsame : c.transfer.takeOutbox.1 = c.transfer := by rw [Transfer.takeOutbox, ← h]
  rw [settle, h, hsame]
  simp [Outbox.empty]

/-- An event is an operation, and handing out what it left. -/
theorem step_eq {c : Course} (h : c.transfer.outbox = .empty) (e : Event) :
    c.step e = settle (c.operate e).1 (c.operate e).2 := by
  cases e with
  | chunk id offset bytes =>
    cases hc : c.transfer.receiveChunk id offset bytes with
    | ok u => rw [step_chunk_ok hc, operate, hc]; rfl
    | error f => rw [step_chunk_error hc, operate, hc]; exact (settle_self h).symm
  | work i =>
    cases hi : c.tasks[i]? with
    | none => rw [step_work_none hi, operate, hi]; exact (settle_self h).symm
    | some task => rw [step_work hi, operate, hi]
  | crash i message =>
    cases hi : c.tasks[i]? with
    | none => rw [step_crash_none hi, operate, hi]; exact (settle_self h).symm
    | some task => rw [step_crash hi, operate, hi]
  | edit disk =>
    rw [step_edit, operate]
    split
    · exact (settle_self (c := { c with transfer := { c.transfer with disk } }) h).symm
    · exact (settle_self h).symm
  | _ => rfl

/-! ## What can happen to an open transfer -/

/-- Bytes are there, and `m` tells which: a chunk was put into the temp file, or the local copy was looked at. -/
inductive Fills (c : Course) : Event → Transfer → PartMap → List Task → Prop
  | chunk {id : String} {offset : Nat} {bytes : ByteArray} {m : PartMap} {temp : Handle} {disk : Disk}
    (attached : c.transfer.isAttached id) (pos : 0 < bytes.size) (inside : offset + bytes.size ≤ c.transfer.target.size)
    (parts : c.transfer.parts = some m) (handle : c.transfer.temp = some temp)
    (written : c.transfer.disk.writeAt temp offset bytes = .ok disk) :
    Fills c (.chunk id offset bytes) (Transfer.credited { c.transfer with disk } id ⟨offset, bytes.size⟩ m)
      (m.set ⟨offset, bytes.size⟩ .available) c.tasks
  | copied {i : Nat} {m : PartMap} (here : c.tasks[i]? = some (.copied c.transfer.epoch (.ok m))) :
    Fills c (.work i) (c.transfer.installed m) m (c.tasks.eraseIdx i)

/-- All that an event does before whatever is needed is asked for, where it comes to that. -/
inductive Opens (c : Course) : Event → Transfer → List Task → Prop
  | join {share : Share} {answers : Nat → Bool} (pos : c.transfer.target.size ≠ 0)
    (unknown : c.transfer.isAttached share.id = false)
    (accepted : c.transfer.admission.refusal? c.transfer.shares.length c.transfer.byParts share.caps = none) :
    Opens c (.join share answers) (c.transfer.seat share answers).enter.ensureSignature c.tasks
  | ready {id : String} (attached : c.transfer.isAttached id) :
    Opens c (.ready id) (c.transfer.updateShare id Share.start).ensureSignature c.tasks
  | leave {id : String} {s : Share} (share : c.transfer.share? id = some s) :
    Opens c (.leave id) (c.transfer.detach s).ensureSignature c.tasks
  | chunk {id : String} {offset : Nat} {bytes : ByteArray} {v : Transfer} {m : PartMap} {l : List Task}
    (fills : Fills c (.chunk id offset bytes) v m l) (incomplete : m.isComplete = false) :
    Opens c (.chunk id offset bytes) v l
  /-- A signature came which is of no use, as there is no local copy. -/
  | fetch {s : Signature} (fits : s.fileLength.toNat = c.transfer.target.size) (unsigned : c.transfer.signature = none)
    (unmapped : c.transfer.parts = none) (candidate : c.transfer.target.candidate = none) :
    Opens c (.signature s) (Transfer.fetchAll { c.transfer with signature := some s, owing := none }) c.tasks
  | send : Opens c .send c.transfer c.tasks
  | copied {i : Nat} {v : Transfer} {m : PartMap} {l : List Task} (fills : Fills c (.work i) v m l)
    (incomplete : m.isComplete = false) : Opens c (.work i) (v.setPhase .downloading) l
  /-- The hash was wrong. -/
  | failed {i : Nat} (here : c.tasks[i]? = some (.hashed c.transfer.epoch (.ok false)))
    (again : c.transfer.mismatches + 1 < c.transfer.tuning.maxMismatches) :
    Opens c (.work i) (c.transfer.afresh.setPhase .downloading) (c.tasks.eraseIdx i)

/-- How an event ends a transfer. -/
inductive Finish (c : Course) : Event → Transfer → Prop
  /-- A file without bytes is there as soon as somebody has it. -/
  | empty {share : Share} {answers : Nat → Bool} (size : c.transfer.target.size = 0) :
    Finish c (.join share answers) (c.transfer.seat share answers).complete
  /-- The last bytes are there, and there is nothing to compare them with. -/
  | unsigned {e : Event} {v : Transfer} {m : PartMap} {l : List Task} (fills : Fills c e v m l)
    (complete : m.isComplete) (unsigned : c.transfer.signature = none) : Finish c e (v.setPhase .verifying).complete
  /-- The hash was right. -/
  | right {i : Nat} (here : c.tasks[i]? = some (.hashed c.transfer.epoch (.ok true))) :
    Finish c (.work i) (Transfer.complete { c.transfer with mismatches := 0 })
  | broken {e : Event} {v : Transfer} (why : Breakage) (phase : v.phase = c.transfer.phase)
    (outbox : v.outbox = c.transfer.outbox) : Finish c e (v.breakDown why)
  | aborted {e : Event} (disk : Disk) : Finish c e { c.transfer.abort with disk }

/-- What an event can make of an open transfer, and the jobs that were told before and are not done. -/
inductive Outcome (c : Course) : Event → Transfer → List Task → Prop
  | same {e : Event} : Outcome c e c.transfer c.tasks
  /-- A peer was turned down. -/
  | connected {share : Share} {answers : Nat → Bool} :
    Outcome c (.join share answers) (c.transfer.connect ⟨share.id, answers, 0⟩).1 c.tasks
  | round {e : Event} {u : Transfer} {l : List Task} (opens : Opens c e u l) : Outcome c e u.sendRequests l
  /-- The last bytes are there, and the temp file is to be hashed. -/
  | assembled {e : Event} {v : Transfer} {m : PartMap} {l : List Task} {s : Signature} (fills : Fills c e v m l)
    (complete : m.isComplete) (signed : c.transfer.signature = some s) :
    Outcome c e ((v.setPhase .verifying).queueJob (.verify c.transfer.epoch s.digest)) l
  | closed {e : Event} {u : Transfer} {l : List Task} (closes : c.transfer.Closes u)
    (rest : ∀ task ∈ l, task ∈ c.tasks) (finish : Finish c e u) : Outcome c e u l
  /-- A signature came too late to be of use before the file is assembled. -/
  | learned {s : Signature} (fits : s.fileLength.toNat = c.transfer.target.size)
    (unsigned : c.transfer.signature = none) (late : c.transfer.parts.isSome ∨ c.transfer.temp = none) :
    Outcome c (.signature s) { c.transfer with signature := some s, owing := none } c.tasks
  /-- A signature came, and the local copy is to be looked at. -/
  | searching {s : Signature} {candidate : String} {temp : Handle} (fits : s.fileLength.toNat = c.transfer.target.size)
    (unsigned : c.transfer.signature = none) (unmapped : c.transfer.parts = none)
    (copy : c.transfer.target.candidate = some candidate) (handle : c.transfer.temp = some temp) :
    Outcome c (.signature s) ((({ c.transfer with signature := some s, owing := none } : Transfer).setPhase
      .matching).queueJob (.matchAndCopy c.transfer.epoch s candidate temp)) c.tasks
  | worked {i : Nat} {task next : Task} {disk : Disk} (here : c.tasks[i]? = some task)
    (step : task.step c.transfer = ({ c.transfer with disk }, some next)) (follows : task.Follows c.transfer next) :
    Outcome c (.work i) { c.transfer with disk } (c.tasks.take i ++ [next] ++ c.tasks.drop (i + 1))
  /-- The local copy was searched. -/
  | matched {i : Nat} {s : Signature} {candidate : String} {temp : Handle} {found : List BlockMatch}
    (here : c.tasks[i]? = some (.searched c.transfer.epoch s candidate temp (.ok found))) :
    Outcome c (.work i) (c.transfer.setPhase .copying)
      (c.tasks.take i ++ [.copy c.transfer.epoch s candidate temp found] ++ c.tasks.drop (i + 1))
  /-- A job is done that was told at another epoch. -/
  | dropped {e : Event} {i : Nat} {task : Task} (here : c.tasks[i]? = some task)
    (stale : task.epoch ≠ c.transfer.epoch) : Outcome c e c.transfer (c.tasks.eraseIdx i)
  | edited {disk : Disk} : Outcome c (.edit disk) { c.transfer with disk } c.tasks

section Inversion

variable {c : Course}

theorem Fills.tacit {e : Event} {v : Transfer} {m : PartMap} {l : List Task} (h : Fills c e v m l)
    (hopen : c.transfer.phase.isFinal = false) :
    c.transfer.Tacit v ∧ v.phase = c.transfer.phase ∧ v.parts = some m ∧ v.signature = c.transfer.signature := by
  have hsame : c.transfer.Tacit c.transfer := .refl hopen
  cases h with
  | chunk => exact ⟨hsame.books rfl rfl, rfl, rfl, rfl⟩
  | copied => exact ⟨hsame.books rfl rfl, rfl, rfl, rfl⟩

theorem Opens.tacit {e : Event} {u : Transfer} {l : List Task} (h : Opens c e u l)
    (hopen : c.transfer.phase.isFinal = false) : c.transfer.Tacit u := by
  have hsame : c.transfer.Tacit c.transfer := .refl hopen
  cases h with
  | join => exact ((hsame.seat _ _).enter).ensureSignature
  | ready => exact Transfer.Tacit.ensureSignature (hsame.books rfl rfl)
  | leave => exact Transfer.Tacit.ensureSignature (hsame.books rfl rfl)
  | chunk fills => exact (fills.tacit hopen).1
  | fetch => exact Transfer.Tacit.fetchAll (hsame.books rfl rfl)
  | send => exact hsame
  | copied fills => exact (fills.tacit hopen).1.setPhase rfl
  | failed =>
    have hafresh : c.transfer.Tacit c.transfer.afresh := hsame.books rfl rfl
    exact hafresh.setPhase rfl

/-- Bytes are there: more is asked for, or the file is assembled. -/
theorem Fills.outcome {e : Event} {v : Transfer} {m : PartMap} {l : List Task} (h : Fills c e v m l)
    (hopen : c.transfer.phase.isFinal = false) (hreleased : c.transfer.released = false)
    (hrest : ∀ task ∈ l, task ∈ c.tasks) (hcomplete : m.isComplete) : Outcome c e v.checkComplete l := by
  obtain ⟨htacit, -, -, hsig⟩ := h.tacit hopen
  cases hs : c.transfer.signature with
  | none =>
    rw [Transfer.checkComplete_unsigned (hsig.trans hs)]
    have hverifying := htacit.setPhase (p := .verifying) rfl
    refine .closed (hverifying.closes (Transfer.closes_complete hverifying.isOpen ?_)) hrest (.unsigned h hcomplete hs)
    rw [hverifying.released, hreleased]
  | some s =>
    rw [Transfer.checkComplete_signed (hsig.trans hs), htacit.epoch]
    exact .assembled h hcomplete hs

theorem outcome_join (hopen : c.transfer.phase.isFinal = false) (hreleased : c.transfer.released = false)
    (share : Share) (answers : Nat → Bool) :
    Outcome c (.join share answers) (c.operate (.join share answers)).1 c.tasks := by
  cases hnew : c.transfer.isAttached share.id with
  | true =>
    rw [operate, Transfer.addPeer_refused hopen (.inl hnew)]
    exact .connected
  | false =>
    cases haccept : c.transfer.admission.refusal? c.transfer.shares.length c.transfer.byParts share.caps with
    | some why =>
      rw [operate, Transfer.addPeer_refused hopen (.inr ⟨why, haccept⟩)]
      exact .connected
    | none =>
      rw [operate, Transfer.addPeer_eq hopen hnew haccept]
      split
      · next hzero =>
        have htacit := (Transfer.Tacit.refl hopen).seat share answers
        exact .closed (htacit.closes (Transfer.closes_complete htacit.isOpen (htacit.released.trans hreleased)))
          (fun _ => id) (.empty hzero)
      · next hpos => exact .round (.join hpos hnew haccept)

theorem outcome_leave (hopen : c.transfer.phase.isFinal = false) (id : String) :
    Outcome c (.leave id) (c.transfer.removePeer id).1 c.tasks := by
  cases h : c.transfer.share? id with
  | none =>
    rw [Transfer.removePeer, h]
    exact .same
  | some s =>
    rw [Transfer.removePeer_eq h hopen]
    exact .round (.leave h)

theorem outcome_breakDown (hopen : c.transfer.phase.isFinal = false) (hreleased : c.transfer.released = false)
    {e : Event} (why : Breakage) {l : List Task} (hrest : ∀ task ∈ l, task ∈ c.tasks) :
    Outcome c e (c.transfer.breakDown why) l :=
  .closed (Transfer.closes_breakDown hopen hreleased why) hrest (.broken why rfl rfl)

theorem outcome_chunk (hopen : c.transfer.phase.isFinal = false) (hreleased : c.transfer.released = false)
    (id : String) (offset : Nat) (bytes : ByteArray) :
    Outcome c (.chunk id offset bytes) (c.operate (.chunk id offset bytes)).1 c.tasks := by
  rw [operate]
  cases hc : c.transfer.receiveChunk id offset bytes with
  | error f => exact .same
  | ok u =>
    show Outcome c _ u c.tasks
    rcases Transfer.receiveChunk_eq hc with
      rfl | ⟨-, ⟨why, rfl⟩ | ⟨hattached, hpos, hin, m, temp, d, hm, htemp, hd, rfl⟩⟩
    · exact .same
    · exact outcome_breakDown hopen hreleased why fun _ h => h
    · have hfills : Fills c (.chunk id offset bytes)
          (Transfer.credited { c.transfer with disk := d } id ⟨offset, bytes.size⟩ m)
          (m.set ⟨offset, bytes.size⟩ .available) c.tasks := .chunk hattached hpos hin hm htemp hd
      unfold Transfer.creditChunk
      dsimp only
      split
      · next hcomplete => exact hfills.outcome hopen hreleased (fun _ h => h) hcomplete
      · next hcomplete => exact .round (.chunk hfills (by simpa using hcomplete))

theorem outcome_signature (hopen : c.transfer.phase.isFinal = false) (hreleased : c.transfer.released = false)
    (s : Signature) : Outcome c (.signature s) (c.transfer.receiveSignature s) c.tasks := by
  unfold Transfer.receiveSignature
  split
  · exact .same
  · next h =>
    have hunsigned : c.transfer.signature = none := by simpa [hopen] using h
    split
    · exact outcome_breakDown hopen hreleased _ fun _ h => h
    · next hfits =>
      rw [not_not] at hfits
      split
      · exact outcome_breakDown hopen hreleased _ fun _ h => h
      · dsimp only
        split
        · next hparts => exact .learned hfits hunsigned (.inl hparts)
        · next hparts =>
          have hunmapped : c.transfer.parts = none := by simpa using hparts
          split
          · next hcandidate => exact .round (.fetch hfits hunsigned hunmapped hcandidate)
          · next htemp => exact .learned hfits hunsigned (.inr htemp)
          · next hcandidate htemp => exact .searching hfits hunsigned hunmapped hcandidate htemp

theorem erased (l : List Task) (i : Nat) : l.take i ++ [] ++ l.drop (i + 1) = l.eraseIdx i := by
  rw [List.append_nil, List.eraseIdx_eq_take_drop_succ]

theorem mem_of_mem_erased {l : List Task} {i : Nat} : ∀ task ∈ l.eraseIdx i, task ∈ l :=
  fun _ h => List.mem_of_mem_eraseIdx h

theorem outcome_copied (hopen : c.transfer.phase.isFinal = false) (hreleased : c.transfer.released = false) {i : Nat}
    {r : Except Failure PartMap} (here : c.tasks[i]? = some (.copied c.transfer.epoch r)) :
    Outcome c (.work i) (c.transfer.finishDelta r) (c.tasks.eraseIdx i) := by
  cases r with
  | error f => exact outcome_breakDown hopen hreleased _ mem_of_mem_erased
  | ok m =>
    have hfills : Fills c (.work i) (c.transfer.installed m) m (c.tasks.eraseIdx i) := .copied here
    unfold Transfer.finishDelta
    dsimp only
    split
    · next hcomplete => exact hfills.outcome hopen hreleased mem_of_mem_erased hcomplete
    · next hcomplete => exact .round (.copied hfills (by simpa using hcomplete))

theorem outcome_hashed (hopen : c.transfer.phase.isFinal = false) (hreleased : c.transfer.released = false) {i : Nat}
    {r : Except Failure Bool} (here : c.tasks[i]? = some (.hashed c.transfer.epoch r)) :
    Outcome c (.work i) (c.transfer.finishVerify r) (c.tasks.eraseIdx i) := by
  have hsame : c.transfer.Tacit c.transfer := .refl hopen
  match r, here with
  | .error f, _ => exact outcome_breakDown hopen hreleased _ mem_of_mem_erased
  | .ok true, here =>
    have hreset : c.transfer.Tacit { c.transfer with mismatches := 0 } := hsame.books rfl rfl
    exact .closed (hreset.closes (Transfer.closes_complete hopen hreleased)) mem_of_mem_erased (.right here)
  | .ok false, here =>
    have hcounted : c.transfer.Tacit { c.transfer with
        mismatches := c.transfer.mismatches + 1, metrics := c.transfer.metrics.mismatch } := hsame.books rfl rfl
    unfold Transfer.finishVerify
    dsimp only
    split
    · have hcloses := Transfer.closes_breakDown (t := { c.transfer with
        mismatches := c.transfer.mismatches + 1, metrics := c.transfer.metrics.mismatch }) hopen hreleased
        (.mismatches (c.transfer.mismatches + 1))
      exact .closed (hcounted.closes hcloses) mem_of_mem_erased (.broken _ rfl rfl)
    · next hagain => exact .round (.failed here (Nat.lt_of_not_le hagain))

theorem outcome_work (hopen : c.transfer.phase.isFinal = false) (hreleased : c.transfer.released = false) (i : Nat) :
    Outcome c (.work i) (c.operate (.work i)).1 (c.operate (.work i)).2 := by
  rw [operate]
  cases here : c.tasks[i]? with
  | none => exact .same
  | some task =>
    dsimp only
    have hcurrent : ∀ epoch, c.transfer.isCurrent epoch = (c.transfer.epoch == epoch) := fun epoch => by
      rw [Transfer.isCurrent, hopen]
      simp
    have hwork : task.isWork → Outcome c (.work i) (task.step c.transfer).1
        (c.tasks.take i ++ (task.step c.transfer).2.toList ++ c.tasks.drop (i + 1)) := fun h => by
      obtain ⟨disk, next, hstep, hfollows⟩ := work_follows c.transfer h
      rw [hstep]
      exact .worked here hstep hfollows
    cases task with
    | search epoch s candidate temp => exact hwork rfl
    | copy epoch s candidate temp found => exact hwork rfl
    | hash epoch d => exact hwork rfl
    | searched epoch s candidate temp found =>
      by_cases hepoch : c.transfer.epoch = epoch
      · subst hepoch
        cases found with
        | error f =>
          simp only [Task.step, Transfer.acceptMatches, Transfer.accept, hcurrent, beq_self_eq_true, if_true,
            Option.toList_none, erased]
          exact outcome_breakDown hopen hreleased _ mem_of_mem_erased
        | ok l =>
          simp only [Task.step, Transfer.acceptMatches, Transfer.accept, hcurrent, beq_self_eq_true, if_true]
          exact .matched here
      · have hstale : (c.transfer.epoch == epoch) = false := by simpa using hepoch
        cases found <;>
        · simp only [Task.step, Transfer.acceptMatches, Transfer.accept, hcurrent, hstale, Bool.false_eq_true, if_false,
            Option.toList_none, erased]
          exact .dropped here (Ne.symm hepoch)
    | copied epoch r =>
      simp only [Task.step, Transfer.acceptCopy, Transfer.accept, hcurrent, Option.toList_none, erased]
      split
      · next hepoch =>
        obtain rfl := beq_iff_eq.1 hepoch
        exact outcome_copied hopen hreleased here
      · next hepoch => exact .dropped here fun h => hepoch (beq_iff_eq.2 h.symm)
    | hashed epoch r =>
      simp only [Task.step, Transfer.acceptVerdict, Transfer.accept, hcurrent, Option.toList_none, erased]
      split
      · next hepoch =>
        obtain rfl := beq_iff_eq.1 hepoch
        exact outcome_hashed hopen hreleased here
      · next hepoch => exact .dropped here fun h => hepoch (beq_iff_eq.2 h.symm)

theorem outcome_operate (hopen : c.transfer.phase.isFinal = false) (hreleased : c.transfer.released = false)
    (haborted : c.transfer.aborted = false) (e : Event) : Outcome c e (c.operate e).1 (c.operate e).2 := by
  cases e with
  | join share answers => exact outcome_join hopen hreleased share answers
  | ready id =>
    rw [operate]
    unfold Transfer.peerReady
    rw [if_neg (show ¬ c.transfer.phase.isFinal = true by simp [hopen])]
    split
    · exact .same
    · next hattached => exact .round (.ready (by simpa using hattached))
  | leave id => exact outcome_leave hopen id
  | chunk id offset bytes => exact outcome_chunk hopen hreleased id offset bytes
  | signature s => exact outcome_signature hopen hreleased s
  | send => exact .round .send
  | breakByCaller => exact outcome_breakDown hopen hreleased _ fun _ h => h
  | abort => exact .closed (Transfer.closes_abort hopen hreleased haborted) (fun _ h => h) (.aborted _)
  | cleanUp => exact .closed ((Transfer.closes_abort hopen hreleased haborted).redisk _) (fun _ h => h) (.aborted _)
  | work i => exact outcome_work hopen hreleased i
  | crash i message =>
    rw [operate]
    cases here : c.tasks[i]? with
    | none => exact .same
    | some task =>
      dsimp only
      rw [Transfer.acceptCrash, Transfer.accept, Transfer.isCurrent, hopen]
      split
      · exact outcome_breakDown hopen hreleased _ mem_of_mem_erased
      · next hstale => exact .dropped here fun h => hstale (by simp [h])
  | edit disk =>
    rw [operate]
    split
    · exact .edited
    · exact .same

theorem Fills.rest {e : Event} {v : Transfer} {m : PartMap} {l : List Task} (h : Fills c e v m l) :
    ∀ task ∈ l, task ∈ c.tasks := by
  cases h with
  | chunk => exact fun _ h => h
  | copied => exact mem_of_mem_erased

theorem Opens.rest {e : Event} {u : Transfer} {l : List Task} (h : Opens c e u l) : ∀ task ∈ l, task ∈ c.tasks := by
  cases h with
  | chunk fills => exact fills.rest
  | copied fills => exact fills.rest
  | failed => exact mem_of_mem_erased
  | _ => exact fun _ h => h

/-- The transfer goes on, with one job more at most, or it ends. Jobs that are not done are some of those that were
there, or have taken a step; none is cancelled that was told at the present epoch. -/
theorem Outcome.cases {e : Event} {u : Transfer} {l : List Task} (h : Outcome c e u l)
    (hopen : c.transfer.phase.isFinal = false) :
    c.transfer.Closes u ∧ (∀ task ∈ l, task ∈ c.tasks) ∨
      ∃ v, c.transfer.Onward v ∧ (u = v ∨ ∃ j : Job, j.epoch = c.transfer.epoch ∧ u = v.queueJob j) ∧
        ∀ task ∈ l, task ∈ c.tasks ∨ ∃ old ∈ c.tasks, task.epoch = old.epoch ∧
          (c.transfer.epoch = old.epoch → task.failure? ≠ some .cancelled) := by
  have hsame : c.transfer.Tacit c.transfer := .refl hopen
  have hkept : ∀ {l : List Task}, (∀ task ∈ l, task ∈ c.tasks) → ∀ task ∈ l, task ∈ c.tasks ∨ ∃ old ∈ c.tasks,
      task.epoch = old.epoch ∧ (c.transfer.epoch = old.epoch → task.failure? ≠ some .cancelled) :=
    fun hl task ht => .inl (hl task ht)
  have hredisk : ∀ disk, c.transfer.Tacit { c.transfer with disk } := fun disk => hsame.books rfl rfl
  have hlearned : ∀ s, c.transfer.Tacit { c.transfer with signature := some s, owing := none } := fun s =>
    hsame.books rfl rfl
  cases h with
  | same => exact .inr ⟨_, hsame.toOnward, .inl rfl, hkept fun _ h => h⟩
  | @connected share answers =>
    have hconnected : c.transfer.Tacit (c.transfer.connect ⟨share.id, answers, 0⟩).1 := hsame.books rfl rfl
    exact .inr ⟨_, hconnected.toOnward, .inl rfl, hkept fun _ h => h⟩
  | round opens =>
    have htacit := opens.tacit hopen
    exact .inr ⟨_, htacit.toOnward.trans (Transfer.onward_sendRequests htacit.isOpen), .inl rfl, hkept opens.rest⟩
  | assembled fills =>
    exact .inr ⟨_, ((fills.tacit hopen).1.setPhase (p := .verifying) rfl).toOnward, .inr ⟨_, rfl, rfl⟩,
      hkept fills.rest⟩
  | closed closes rest => exact .inl ⟨closes, rest⟩
  | @learned s => exact .inr ⟨_, (hlearned s).toOnward, .inl rfl, hkept fun _ h => h⟩
  | @searching s =>
    exact .inr ⟨_, ((hlearned s).setPhase (p := .matching) rfl).toOnward, .inr ⟨_, rfl, rfl⟩, hkept fun _ h => h⟩
  | @worked i task next disk here step follows =>
    refine .inr ⟨_, (hredisk disk).toOnward, .inl rfl, fun a ha => ?_⟩
    rcases mem_replaced (r := some next) ha with ha | ha
    · exact .inl ha
    · obtain rfl := Option.some.inj ha
      exact .inr ⟨task, List.mem_of_getElem? here, follows.epoch, follows.heeded⟩
  | matched here =>
    refine .inr ⟨_, (hsame.setPhase (p := .copying) rfl).toOnward, .inl rfl, fun a ha => ?_⟩
    rcases mem_replaced (r := some _) ha with ha | ha
    · exact .inl ha
    · obtain rfl := Option.some.inj ha
      exact .inr ⟨_, List.mem_of_getElem? here, rfl, fun _ => nofun⟩
  | dropped => exact .inr ⟨_, hsame.toOnward, .inl rfl, hkept mem_of_mem_erased⟩
  | @edited disk => exact .inr ⟨_, (hredisk disk).toOnward, .inl rfl, hkept fun _ h => h⟩

theorem Outcome.finish {e : Event} {u : Transfer} {l : List Task} (h : Outcome c e u l)
    (hopen : c.transfer.phase.isFinal = false) (hfinal : u.phase.isFinal) : c.transfer.Closes u ∧ Finish c e u := by
  have hnever : u.phase.isFinal = false → c.transfer.Closes u ∧ Finish c e u := fun ho =>
    nomatch ho.symm.trans hfinal
  cases h with
  | closed closes _ finish => exact ⟨closes, finish⟩
  | round opens => exact hnever (Transfer.onward_sendRequests (opens.tacit hopen).isOpen).isOpen
  | assembled | searching | matched => exact hnever (by simp [Transfer.queueJob, Phase.isFinal])
  | _ => exact hnever hopen

end Inversion

end Course

end FileSwarm
