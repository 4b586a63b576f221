import FileSwarm.Proofs.Transfer.Course
import FileSwarm.Proofs.Transfer.Onward

/-!
# What every course of a transfer keeps

* `Course.Sound n c` : the temp file, which has node number `n`, is where its path leads, and the jobs
  under way are those the state of the transfer calls for;
* `Course.Effect n c e d` : all that an event `e` can come to in a sound course, case by case
  (`step_effect`);
* `sound_start`, `sound_step`, `sound_run` : every course is sound as long as nobody takes the temp file
  away;
* `run_completed` : a transfer that is complete stays so, and its temp file stays as it is.
-/

namespace FileSwarm.Course

/-- The temp file is node `n` and no larger than the file, and the jobs under way are those that the
state of the transfer calls for: none without a signature, at most one that looks at the local copy, and
only as long as there is no part map. -/
structure Sound (n : Nat) (c : Course) : Prop where
  leads : c.transfer.disk.LeadsTo c.transfer.target.temp n
  small : (c.content n).size ≤ c.transfer.target.size
  limited : (c.content n).size ≤ Disk.sizeLimit
  settled : c.transfer.outbox.jobs = []
  temp : c.transfer.phase.isFinal = false → ∀ h, c.transfer.temp = some h → h.node = n
  fits : ∀ task ∈ c.tasks, task.Fits n c.transfer.target.size
  unsigned : c.transfer.phase.isFinal = false → c.transfer.signature = none → c.tasks = []
  unmapped : c.transfer.phase.isFinal = false → c.transfer.parts = none →
    c.tasks.length ≤ 1 ∧ ∀ task ∈ c.tasks, task.isDelta
  mapped : c.transfer.phase.isFinal = false → c.transfer.parts.isSome →
    ∀ task ∈ c.tasks, task.isDelta = false
  digest : c.transfer.phase.isFinal = false → ∀ s, c.transfer.signature = some s →
    ∀ epoch d, .hash epoch d ∈ c.tasks → d = s.digest
  done : c.transfer.phase = .completed → 0 < c.transfer.target.size → ∀ task ∈ c.tasks, task.isDelta = false

/-! ## What an event can come to -/

/-- Jobs after a step: some of those before it, or one that goes on looking at the local copy. -/
def Goes (l k : List Task) : Prop :=
  k.length ≤ l.length ∧ ∀ task ∈ k, task ∈ l ∨
    task.isDelta ∧ ∃ old ∈ l, old.isDelta ∧ ∀ n size, old.Fits n size → task.Fits n size

theorem Goes.refl (l : List Task) : Goes l l := ⟨Nat.le_refl _, fun _ h => .inl h⟩

theorem mem_replaced {l : List α} {i : Nat} {r : Option α} {a : α}
    (h : a ∈ l.take i ++ r.toList ++ l.drop (i + 1)) : a ∈ l ∨ r = some a := by
  simp only [List.mem_append, Option.mem_toList] at h
  rcases h with (h | h) | h
  · exact .inl (List.mem_of_mem_take h)
  · exact .inr h
  · exact .inl (List.mem_of_mem_drop h)

theorem length_replaced {l : List α} {i : Nat} (h : i < l.length) (r : Option α) :
    (l.take i ++ r.toList ++ l.drop (i + 1)).length ≤ l.length := by
  cases r <;> simp <;> omega

theorem replaced_alone {l : List Task} {i : Nat} {task : Task} (h : l[i]? = some task) (hle : l.length ≤ 1) :
    l.take i ++ [] ++ l.drop (i + 1) = [] := by
  have hlt := (List.getElem?_eq_some_iff.1 h).1
  apply List.length_eq_zero_iff.1
  simp
  omega

/-- A job is done, or goes on looking at the local copy. -/
theorem goes_replaced {l : List Task} {i : Nat} {task : Task} (hi : l[i]? = some task) {r : Option Task}
    (hr : ∀ next, r = some next → next.isDelta ∧ task.isDelta ∧ ∀ n size, task.Fits n size → next.Fits n size) :
    Goes l (l.take i ++ r.toList ++ l.drop (i + 1)) := by
  refine ⟨length_replaced (List.getElem?_eq_some_iff.1 hi).1 r, fun a ha => ?_⟩
  rcases mem_replaced ha with ha | rfl
  · exact .inl ha
  · obtain ⟨h₁, h₂, h₃⟩ := hr a rfl
    exact .inr ⟨h₁, task, List.mem_of_getElem? hi, h₂, h₃⟩

/-- What an event can come to in a course whose temp file is node `n`. -/
inductive Effect (n : Nat) (c : Course) : Event → Course → Prop
  | same {e : Event} : Effect n c e c
  | talk {e : Event} {u : Transfer} {l : List Task} (quiet : c.transfer.Quiet u) (goes : Goes c.tasks l) :
    Effect n c e (settle u l)
  | ended {e : Event} {u : Transfer} {l : List Task} (ends : c.transfer.Ends u)
    (phase : u.phase = .completed → c.transfer.phase = .completed) (goes : Goes c.tasks l) :
    Effect n c e (settle u l)
  /-- A file without bytes is there as soon as somebody has it. -/
  | empty {share : Share} {answers : Nat → Bool} {u : Transfer} (size : c.transfer.target.size = 0)
    (ends : c.transfer.Ends u) : Effect n c (.join share answers) (settle u c.tasks)
  | signed {s : Signature} {u : Transfer} (signs : c.transfer.Signs s u) :
    Effect n c (.signature s) (settle u c.tasks)
  | stored {id : String} {offset : Nat} {bytes : ByteArray} {u : Transfer}
    (stores : c.transfer.Stores offset bytes u) : Effect n c (.chunk id offset bytes) (settle u c.tasks)
  /-- Blocks were copied into the temp file, with success or without. -/
  | copying {i : Nat} {d : Disk} {l : List Task} (alike : Disk.Alike n c.transfer.disk d)
    (small : (d.content n).size ≤ c.transfer.target.size) (limited : (d.content n).size ≤ Disk.sizeLimit)
    (busy : ∃ task ∈ c.tasks, task.isDelta) (goes : Goes c.tasks l) :
    Effect n c (.work i) (settle { c.transfer with disk := d } l)
  /-- What was copied counts from now on. -/
  | copied {i : Nat} {m : PartMap} {u : Transfer} (isOpen : c.transfer.phase.isFinal = false)
    (unmapped : c.transfer.parts = none) (busy : ∃ task ∈ c.tasks, task.isDelta)
    (credits : Transfer.Credits { c.transfer with parts := some m } u) : Effect n c (.work i) (settle u [])
  /-- The temp file was hashed. -/
  | hashed {i epoch : Nat} {d : Digest} {r : Except Failure Bool} {l : List Task}
    (task : c.tasks[i]? = some (.hash epoch d))
    (result : ∀ b, r = .ok b → b = (Sha256.digest (c.content n) == d)) (length : l.length ≤ c.tasks.length)
    (goes : ∀ task ∈ l, task ∈ c.tasks ∨ task = .hashed epoch r) : Effect n c (.work i) (settle c.transfer l)
  /-- The hash was right. -/
  | passed {i epoch : Nat} {u : Transfer} {l : List Task} (isOpen : c.transfer.phase.isFinal = false)
    (task : c.tasks[i]? = some (.hashed epoch (.ok true))) (ends : c.transfer.Ends u) (goes : Goes c.tasks l) :
    Effect n c (.work i) (settle u l)
  /-- The hash was wrong, and everything is needed again. -/
  | failed {i epoch : Nat} {u : Transfer} {l : List Task} (isOpen : c.transfer.phase.isFinal = false)
    (task : c.tasks[i]? = some (.hashed epoch (.ok false)))
    (quiet : Transfer.Quiet { c.transfer with parts := some (PartMap.blank c.transfer.target.size) } u)
    (goes : Goes c.tasks l) : Effect n c (.work i) (settle u l)
  /-- Another program changed other files. -/
  | edited {d : Disk} (leads : d.LeadsTo c.transfer.target.temp n) (content : d.content n = c.content n) :
    Effect n c (.edit d) { c with transfer := { c.transfer with disk := d } }

theorem work_effect {n : Nat} {c : Course} (h : Sound n c) (i : Nat) :
    Effect n c (.work i) (c.step (.work i)) := by
  cases hi : c.tasks[i]? with
  | none => rw [step_work_none hi]; exact .same
  | some task =>
    rw [step_work hi]
    have hmem : task ∈ c.tasks := List.mem_of_getElem? hi
    have hgone : Goes c.tasks (c.tasks.take i ++ [] ++ c.tasks.drop (i + 1)) :=
      goes_replaced (r := none) hi (by simp)
    cases task with
    | search epoch s candidate temp =>
      rw [step_search]
      refine .talk (.refl _) (goes_replaced (r := some _) hi ?_)
      intro next hnext
      obtain rfl := Option.some.inj hnext
      exact ⟨rfl, rfl, fun _ _ => id⟩
    | searched epoch s candidate temp found =>
      have hrest : Goes c.tasks (c.tasks.take i ++
          (Task.step c.transfer (.searched epoch s candidate temp found)).2.toList ++ c.tasks.drop (i + 1)) := by
        apply goes_replaced hi
        intro next hnext
        cases found with
        | error _ => cases hnext
        | ok l =>
          simp only [Task.step] at hnext
          split at hnext
          · cases hnext
            exact ⟨rfl, rfl, fun _ _ => id⟩
          · cases hnext
      rcases Transfer.acceptMatches_cases c.transfer epoch found with hq | ⟨he, hp⟩
      · exact .talk hq hrest
      · exact .ended he (fun hc => absurd (hp.symm.trans hc) (by decide)) hrest
    | copy epoch s candidate temp found =>
      obtain ⟨hn, hlen⟩ : temp.node = n ∧ s.fileLength.toNat = c.transfer.target.size := h.fits _ hmem
      obtain ⟨d, r, hd, hclean, ha, hs, hl⟩ := step_copy hn hlen h.small h.limited epoch
        candidate found
      rw [hd]
      refine .copying ha hs hl ⟨_, hmem, rfl⟩ (goes_replaced (r := some _) hi ?_)
      intro next hnext
      obtain rfl := Option.some.inj hnext
      refine ⟨rfl, rfl, fun n size _ => ?_⟩
      cases r with
      | error _ => trivial
      | ok m => exact hclean m rfl
    | copied epoch result =>
      rcases Transfer.acceptCopy_cases c.transfer epoch result with hq | ⟨he, hp⟩ | ⟨hopen, m, -, hc⟩
      · exact .talk (show c.transfer.Quiet (c.transfer.acceptCopy epoch result) by rw [hq]; exact .refl _) hgone
      · exact .ended he (fun hc => absurd (hp.symm.trans hc) (by decide)) hgone
      · have hnone : c.transfer.parts = none := by
          by_contra hp
          exact absurd (h.mapped hopen (Option.isSome_iff_ne_none.2 hp) _ hmem) (by simp [Task.isDelta])
        show Effect n c _ (settle (c.transfer.acceptCopy epoch result)
          (c.tasks.take i ++ [] ++ c.tasks.drop (i + 1)))
        rw [replaced_alone hi (h.unmapped hopen hnone).1]
        exact .copied hopen hnone ⟨_, hmem, rfl⟩ hc
    | hash epoch d =>
      obtain ⟨r, hr, hok, -⟩ := step_hash h.leads h.limited epoch d
      rw [hr]
      refine .hashed hi hok (length_replaced (List.getElem?_eq_some_iff.1 hi).1 (some (.hashed epoch r)))
        fun task ht => ?_
      exact (mem_replaced ht).imp id fun h => (Option.some.inj h).symm
    | hashed epoch result =>
      rcases Transfer.acceptVerdict_cases c.transfer epoch result with
        hq | ⟨he, hp⟩ | ⟨hopen, rfl, he, -⟩ | ⟨hopen, rfl, hq⟩
      · exact .talk (show c.transfer.Quiet (c.transfer.acceptVerdict epoch result) by rw [hq]; exact .refl _) hgone
      · exact .ended he (fun hc => absurd (hp.symm.trans hc) (by decide)) hgone
      · exact .passed hopen hi he hgone
      · exact .failed hopen hi hq hgone

/-- All that an event can come to, short of taking the temp file away. -/
theorem step_effect {n : Nat} {c : Course} (h : Sound n c) {e : Event} (he : e ≠ .cleanUp) :
    Effect n c e (c.step e) := by
  have hall : Goes c.tasks c.tasks := .refl _
  cases e with
  | join share answers =>
    have hq : c.transfer.Quiet (c.transfer.connect ⟨share.id, answers, 0⟩).1 :=
      Transfer.quiet_of_eq rfl rfl rfl rfl rfl rfl rfl
    rcases Transfer.addPeer_cases (c.transfer.connect ⟨share.id, answers, 0⟩).1
      { share with link := c.transfer.links.size } with hq' | ⟨-, hsize, hends, -⟩
    · exact .talk (hq.trans hq') hall
    · exact .empty hsize (hq.ends hends)
  | ready id => exact .talk (Transfer.quiet_peerReady c.transfer id) hall
  | leave id => exact .talk (Transfer.quiet_removePeer c.transfer id) hall
  | chunk id offset bytes =>
    cases hc : c.transfer.receiveChunk id offset bytes with
    | error _ => rw [step_chunk_error hc]; exact .same
    | ok u =>
      rw [step_chunk_ok hc]
      rcases Transfer.receiveChunk_cases hc with rfl | ⟨hends, hp⟩ | hs
      · exact .talk (.refl _) hall
      · exact .ended hends (fun hc => nomatch hp.symm.trans hc) hall
      · exact .stored hs
  | signature s =>
    rcases Transfer.receiveSignature_cases c.transfer s with hq | ⟨hends, hp⟩ | hs
    · exact .talk (show c.transfer.Quiet (c.transfer.receiveSignature s) by rw [hq]; exact .refl _) hall
    · exact .ended hends (fun hc => nomatch hp.symm.trans hc) hall
    · exact .signed hs
  | send => exact .talk (Transfer.Quiet.refl c.transfer).sendRequests hall
  | breakByCaller =>
    rcases Transfer.breakDown_cases c.transfer .byCaller with hq | ⟨hends, hp⟩
    · exact .talk (show c.transfer.Quiet (c.transfer.breakDown .byCaller) by rw [hq]; exact .refl _) hall
    · exact .ended hends (fun hc => nomatch hp.symm.trans hc) hall
  | abort =>
    rcases Transfer.abort_cases c.transfer with hq | ⟨hends, hp⟩
    · exact .talk (show c.transfer.Quiet c.transfer.abort by rw [hq]; exact .refl _) hall
    · refine .ended hends (fun hc => ?_) hall
      cases hf : c.transfer.phase.isFinal with
      | true => exact (hends.phase hf).symm.trans hc
      | false => exact absurd hc (by rw [hp hf]; simp)
  | cleanUp => exact absurd rfl he
  | work i => exact work_effect h i
  | crash i message =>
    cases hi : c.tasks[i]? with
    | none => rw [step_crash_none hi]; exact .same
    | some task =>
      rw [step_crash hi]
      have hgone : Goes c.tasks (c.tasks.eraseIdx i) := by
        have := goes_replaced (r := none) hi nofun
        rwa [Option.toList_none, List.append_nil, ← List.eraseIdx_eq_take_drop_succ] at this
      rcases Transfer.acceptCrash_cases c.transfer task.epoch message with hq | ⟨hends, hp⟩
      · exact .talk (show c.transfer.Quiet (c.transfer.acceptCrash task.epoch message) by rw [hq]; exact .refl _)
          hgone
      · exact .ended hends (fun hc => nomatch hp.symm.trans hc) hgone
  | edit d =>
    rw [step_edit]
    split
    · next ha =>
      simp only [Disk.agree, h.leads.number, Bool.and_eq_true, decide_eq_true_eq] at ha
      obtain ⟨⟨hnum, hbytes⟩, hdir⟩ := ha
      exact .edited ⟨hnum, hdir.trans h.leads.plain⟩ (by rw [Disk.content, hbytes]; rfl)
    · exact .same

/-! ## Soundness is kept -/

namespace Sound

variable {n : Nat} {c : Course} {u : Transfer}

theorem retask {t : Transfer} {l k : List Task} (h : Sound n ⟨t, l⟩) (hlen : k.length ≤ l.length)
    (hfits : ∀ task ∈ k, task.Fits n t.target.size)
    (hkind : ∀ task ∈ k, ∃ old ∈ l, task.isDelta = old.isDelta)
    (hhash : ∀ epoch d, .hash epoch d ∈ k → .hash epoch d ∈ l) : Sound n ⟨t, k⟩ := by
  have hof : ∀ b, (∀ task ∈ l, task.isDelta = b) → ∀ task ∈ k, task.isDelta = b := by
    intro b hb task ht
    obtain ⟨old, ho, e⟩ := hkind task ht
    rw [e, hb old ho]
  refine ⟨h.leads, h.small, h.limited, h.settled, h.temp, hfits, fun ho hs => ?_, fun ho hp => ?_,
    fun ho hp => hof false (h.mapped ho hp), fun ho s hs e d hd => h.digest ho s hs e d (hhash e d hd),
    fun hc hpos => hof false (h.done hc hpos)⟩
  · have hl : l = [] := h.unsigned ho hs
    rw [hl] at hlen
    exact List.length_eq_zero_iff.1 (Nat.le_zero.1 hlen)
  · obtain ⟨h₁, h₂⟩ := h.unmapped ho hp
    exact ⟨Nat.le_trans hlen h₁, hof true h₂⟩

theorem quiet (h : Sound n c) (hq : c.transfer.Quiet u) : Sound n (settle u c.tasks) := by
  have hjobs : u.outbox.jobs = [] := hq.jobs.trans h.settled
  have htasks : (settle u c.tasks).tasks = c.tasks := by simp [settle, hjobs]
  have hcontent : (settle u c.tasks).content n = c.content n := congrArg (Disk.content · n) hq.disk
  have hopen : u.phase.isFinal = false → c.transfer.phase.isFinal = false := fun ho => hq.open_iff ▸ ho
  refine ⟨?_, ?_, ?_, rfl, ?_, ?_, ?_, ?_, ?_, ?_, ?_⟩
  · show u.disk.LeadsTo u.target.temp n
    rw [hq.disk, hq.target]
    exact h.leads
  · rw [hcontent]
    exact hq.target ▸ h.small
  · rw [hcontent]
    exact h.limited
  · intro ho k hk
    exact h.temp (hopen ho) k (hq.temp ▸ hk)
  · rw [htasks]
    exact hq.target ▸ h.fits
  · intro ho hs
    rw [htasks]
    exact h.unsigned (hopen ho) (hq.signature ▸ hs)
  · intro ho hp
    rw [htasks]
    refine h.unmapped (hopen ho) ?_
    by_contra hne
    have hs := hq.kept (Option.isSome_iff_ne_none.2 hne)
    exact absurd hp (Option.isSome_iff_ne_none.1 hs)
  · intro ho hp
    rw [htasks]
    obtain ⟨k, hk⟩ := Option.isSome_iff_exists.1 hp
    rcases hq.parts k hk with ⟨m, hm, -⟩ | ⟨-, hs, hopen, -⟩
    · exact h.mapped (hopen ho) (by rw [hm]; rfl)
    · rw [h.unsigned hopen hs]
      exact fun _ ht => absurd ht List.not_mem_nil
  · intro ho s hs
    rw [htasks]
    exact h.digest (hopen ho) s (hq.signature ▸ hs)
  · intro hc hpos
    rw [htasks]
    refine h.done ?_ (hq.target ▸ hpos)
    rcases hq.phase with e | ⟨-, e⟩
    · exact e ▸ hc
    · rw [show u.phase = .completed from hc] at e
      exact nomatch e

/-- A transfer that completes with bytes in it must not have jobs left that look at the local copy. -/
theorem ends (h : Sound n c) (he : c.transfer.Ends u)
    (hd : u.phase = .completed → 0 < c.transfer.target.size → ∀ task ∈ c.tasks, task.isDelta = false) :
    Sound n (settle u c.tasks) := by
  have htasks : (settle u c.tasks).tasks = c.tasks := by simp [settle, he.jobs, h.settled]
  have hcontent : (settle u c.tasks).content n = c.content n := by
    show u.disk.content n = c.transfer.disk.content n
    rw [Disk.content, he.bytes, Disk.content]
  have hfinal : u.phase.isFinal ≠ false := by simp [he.final]
  refine ⟨?_, ?_, ?_, rfl, fun ho => absurd ho hfinal, ?_, fun ho => absurd ho hfinal,
    fun ho => absurd ho hfinal, fun ho => absurd ho hfinal, fun ho => absurd ho hfinal, ?_⟩
  · show u.disk.LeadsTo u.target.temp n
    rw [he.target]
    exact h.leads.alike (he.alike n)
  · rw [hcontent]
    exact he.target ▸ h.small
  · rw [hcontent]
    exact h.limited
  · rw [htasks]
    exact he.target ▸ h.fits
  · intro hc hpos
    rw [htasks]
    exact hd hc (he.target ▸ hpos)

theorem redisk {t : Transfer} {l : List Task} {d : Disk} (h : Sound n ⟨t, l⟩) (ha : Disk.Alike n t.disk d)
    (hsmall : (d.content n).size ≤ t.target.size) (hlim : (d.content n).size ≤ Disk.sizeLimit) :
    Sound n ⟨{ t with disk := d }, l⟩ :=
  ⟨h.leads.alike ha, hsmall, hlim, h.settled, h.temp, h.fits, h.unsigned, h.unmapped, h.mapped, h.digest,
    h.done⟩

theorem remap {t : Transfer} {l : List Task} (h : Sound n ⟨t, l⟩) (hl : ∀ task ∈ l, task.isDelta = false)
    (m : PartMap) : Sound n ⟨{ t with parts := some m }, l⟩ :=
  ⟨h.leads, h.small, h.limited, h.settled, h.temp, h.fits, h.unsigned, fun _ hp => (nomatch hp), fun _ _ => hl,
    h.digest, h.done⟩

theorem signs {s : Signature} (h : Sound n c) (hs : c.transfer.Signs s u) : Sound n (settle u c.tasks) := by
  have hnil : c.tasks = [] := h.unsigned hs.isOpen hs.unsigned
  have hdisk : u.disk = c.transfer.disk := hs.quiet.disk
  have htarget : u.target = c.transfer.target := hs.quiet.target
  have hopen : u.phase.isFinal = false := hs.quiet.open_iff.trans hs.isOpen
  have htasks : (settle u c.tasks).tasks = [] ∨ u.parts = none ∧ ∃ candidate temp,
      temp.node = n ∧ (settle u c.tasks).tasks = [.search c.transfer.epoch s candidate temp] := by
    rcases hs.jobs with hj | ⟨hp, -, candidate, temp, -, ht, hj⟩
    · exact .inl (by simp [settle, hj, h.settled, hnil])
    · refine .inr ⟨hp, candidate, temp, h.temp hs.isOpen temp ht, ?_⟩
      simp [settle, hj, h.settled, hnil, Task.ofJob]
  refine ⟨?_, ?_, ?_, rfl, ?_, ?_, ?_, ?_, ?_, ?_, ?_⟩
  · show u.disk.LeadsTo u.target.temp n
    rw [hdisk, htarget]
    exact h.leads
  · show (u.disk.content n).size ≤ u.target.size
    rw [hdisk, htarget]
    exact h.small
  · show (u.disk.content n).size ≤ _
    rw [hdisk]
    exact h.limited
  · intro _ k hk
    exact h.temp hs.isOpen k (hs.quiet.temp ▸ hk)
  · intro task ht
    rcases htasks with e | ⟨-, candidate, temp, hn, e⟩
    · rw [e] at ht
      exact absurd ht List.not_mem_nil
    · rw [e, List.mem_singleton] at ht
      rw [ht]
      exact ⟨hn, hs.fits.trans (congrArg Target.size htarget.symm)⟩
  · intro _ hsig
    exact absurd hsig (by show u.signature ≠ none; rw [hs.held]; exact nofun)
  · intro _ _
    rcases htasks with e | ⟨-, candidate, temp, -, e⟩
    · rw [e]
      exact ⟨Nat.zero_le 1, fun _ ht => absurd ht List.not_mem_nil⟩
    · rw [e]
      exact ⟨Nat.le_refl 1, fun task ht => by rw [List.mem_singleton.1 ht]; rfl⟩
  · intro _ hp
    rcases htasks with e | ⟨hnone, -⟩
    · rw [e]
      exact fun _ ht => absurd ht List.not_mem_nil
    · exact absurd hp (by show ¬ u.parts.isSome; rw [hnone]; exact nofun)
  · intro _ s' _ epoch d hd
    rcases htasks with e | ⟨-, candidate, temp, -, e⟩
    · rw [e] at hd
      exact absurd hd List.not_mem_nil
    · rw [e, List.mem_singleton] at hd
      exact nomatch hd
  · intro hc
    rw [show u.phase = .completed from hc] at hopen
    exact nomatch hopen

theorem verifies {s : Signature} (h : Sound n c) (hp : c.transfer.parts.isSome)
    (hv : c.transfer.Verifies s u) : Sound n (settle u c.tasks) := by
  have hopen : c.transfer.phase.isFinal = false := by
    rw [← hv.quiet.open_iff, show u.phase = _ from hv.phase]
    rfl
  have hkind := h.mapped hopen hp
  have hsig : u.signature = some s := hv.quiet.signature.trans hv.held
  have htasks : (settle u c.tasks).tasks = c.tasks ++ [.hash c.transfer.epoch s.digest] := by
    simp [settle, hv.jobs, h.settled, Task.ofJob]
  have hall : ∀ task ∈ (settle u c.tasks).tasks, task.isDelta = false := by
    intro task ht
    rw [htasks, List.mem_append, List.mem_singleton] at ht
    rcases ht with ht | rfl
    · exact hkind task ht
    · rfl
  have hdisk : u.disk = c.transfer.disk := hv.quiet.disk
  have htarget : u.target = c.transfer.target := hv.quiet.target
  refine ⟨?_, ?_, ?_, rfl, ?_, ?_, ?_, ?_, fun _ _ => hall, ?_, fun _ _ => hall⟩
  · show u.disk.LeadsTo u.target.temp n
    rw [hdisk, htarget]
    exact h.leads
  · show (u.disk.content n).size ≤ u.target.size
    rw [hdisk, htarget]
    exact h.small
  · show (u.disk.content n).size ≤ _
    rw [hdisk]
    exact h.limited
  · intro _ k hk
    exact h.temp hopen k (hv.quiet.temp ▸ hk)
  · intro task ht
    rw [htasks, List.mem_append, List.mem_singleton] at ht
    rcases ht with ht | rfl
    · exact htarget ▸ h.fits task ht
    · trivial
  · intro _ hs
    exact absurd hs (by show u.signature ≠ none; rw [hsig]; exact nofun)
  · intro _ hnone
    have := hv.quiet.kept hp
    exact absurd hnone (Option.isSome_iff_ne_none.1 this)
  · intro _ s' hs' epoch d hd
    obtain rfl : s = s' := Option.some.inj (hsig.symm.trans hs')
    rw [htasks, List.mem_append, List.mem_singleton] at hd
    rcases hd with hd | hd
    · exact h.digest hopen s hv.held epoch d hd
    · cases hd; rfl

theorem credits (h : Sound n c) (hopen : c.transfer.phase.isFinal = false) (hp : c.transfer.parts.isSome)
    (hc : c.transfer.Credits u) : Sound n (settle u c.tasks) := by
  rcases hc with hq | ⟨-, ⟨s, hv⟩ | ⟨-, he, -⟩⟩
  · exact h.quiet hq
  · exact h.verifies hp hv
  · exact h.ends he fun _ _ => h.mapped hopen hp

end Sound

theorem Sound.goes {n : Nat} {t : Transfer} {l k : List Task} (h : Sound n ⟨t, l⟩) (hg : Goes l k) :
    Sound n ⟨t, k⟩ := by
  refine h.retask hg.1 (fun task ht => ?_) (fun task ht => ?_) (fun epoch d hd => ?_)
  · rcases hg.2 task ht with ht | ⟨-, old, ho, -, hfits⟩
    · exact h.fits task ht
    · exact hfits _ _ (h.fits old ho)
  · rcases hg.2 task ht with ht | ⟨hd, old, ho, hdo, -⟩
    · exact ⟨task, ht, rfl⟩
    · exact ⟨old, ho, hd.trans hdo.symm⟩
  · rcases hg.2 _ hd with hd | ⟨hd, -⟩
    · exact hd
    · exact nomatch hd

/-- Bytes that count are laid over what the temp file had. -/
theorem Sound.written {n : Nat} {c : Course} {u : Transfer} {offset : Nat} {bytes : ByteArray} (h : Sound n c)
    (hs : c.transfer.Stores offset bytes u) :
    ∃ m d, c.transfer.parts = some m ∧ Disk.Alike n c.transfer.disk d ∧ offset + bytes.size ≤ Disk.sizeLimit ∧
      d.content n = Disk.overlay (c.content n) offset bytes ∧
      Transfer.Credits { c.transfer with disk := d, parts := some (m.set ⟨offset, bytes.size⟩ .available) } u := by
  obtain ⟨m, temp, d, hm, ht, hw, hc⟩ := hs.stored
  obtain ⟨old, hb, hlim, ha, hb'⟩ := Disk.writeAt_eq_ok hs.pos hw
  rw [h.temp hs.isOpen temp ht] at hb ha hb'
  refine ⟨m, d, hm, ha, hlim, ?_, hc⟩
  rw [content, Disk.content, hb', Disk.content, hb]
  rfl

theorem Sound.stores {n : Nat} {c : Course} {u : Transfer} {offset : Nat} {bytes : ByteArray} (h : Sound n c)
    (hs : c.transfer.Stores offset bytes u) : Sound n (settle u c.tasks) := by
  obtain ⟨m, d, hm, ha, hlim, hd, hc⟩ := h.written hs
  have hsize : (d.content n).size = max (c.content n).size (offset + bytes.size) := by
    rw [hd, Disk.size_overlay hs.pos]
  have h₁ : Sound n ⟨{ c.transfer with disk := d }, c.tasks⟩ :=
    h.redisk ha (by have := h.small; have := hs.inside; omega) (by have := h.limited; omega)
  have h₂ := h₁.remap (h.mapped hs.isOpen (by rw [hm]; rfl)) (m.set ⟨offset, bytes.size⟩ .available)
  exact h₂.credits hs.isOpen rfl hc

theorem sound_effect {n : Nat} {c d : Course} {e : Event} (h : Sound n c) (he : Effect n c e d) : Sound n d := by
  have hmapped : ∀ {i epoch : Nat} {r : Except Failure Bool}, c.tasks[i]? = some (Task.hashed epoch r) →
      c.transfer.phase.isFinal = false → c.transfer.parts.isSome := by
    intro i epoch r hi hopen
    by_contra hp
    have := (h.unmapped hopen (by simpa using hp)).2 _ (List.mem_of_getElem? hi)
    simp [Task.isDelta] at this
  cases he with
  | same => exact h
  | talk hq hl => exact (h.goes hl).quiet hq
  | ended hends hp hl => exact (h.goes hl).ends hends fun hc => (h.goes hl).done (hp hc)
  | empty hsize hends => exact h.ends hends fun _ hpos => absurd hpos (by rw [hsize]; exact Nat.lt_irrefl 0)
  | signed hs => exact h.signs hs
  | stored hs => exact h.stores hs
  | copying ha hsmall hlim _ hl => exact ((h.redisk ha hsmall hlim).goes hl).quiet (.refl _)
  | copied hopen hnone _ hc =>
    have hnil : Sound n ⟨c.transfer, []⟩ := h.goes ⟨Nat.zero_le _, nofun⟩
    exact (hnil.remap nofun _).credits hopen rfl hc
  | hashed htask hr hlen hl =>
    refine (h.retask hlen (fun task ht => ?_) (fun task ht => ?_) (fun epoch d hd => ?_)).quiet (.refl _)
    · rcases hl task ht with ht | rfl
      · exact h.fits task ht
      · trivial
    · rcases hl task ht with ht | rfl
      · exact ⟨task, ht, rfl⟩
      · exact ⟨_, List.mem_of_getElem? htask, rfl⟩
    · rcases hl _ hd with hd | hd
      · exact hd
      · exact nomatch hd
  | passed hopen htask hends hl =>
    exact (h.goes hl).ends hends fun _ _ => (h.goes hl).mapped hopen (hmapped htask hopen)
  | failed hopen htask hq hl =>
    exact ((h.goes hl).remap ((h.goes hl).mapped hopen (hmapped htask hopen)) _).quiet hq
  | edited hleads hcontent =>
    exact ⟨hleads, by show (Disk.content _ n).size ≤ _; rw [hcontent]; exact h.small,
      by show (Disk.content _ n).size ≤ _; rw [hcontent]; exact h.limited, h.settled, h.temp, h.fits,
      h.unsigned, h.unmapped, h.mapped, h.digest, h.done⟩

theorem sound_step {n : Nat} {c : Course} (h : Sound n c) {e : Event} (he : e ≠ .cleanUp) :
    Sound n (c.step e) := sound_effect h (step_effect h he)

theorem sound_run {n : Nat} {c : Course} (h : Sound n c) {events : List Event} (he : .cleanUp ∉ events) :
    Sound n (c.run events) := by
  induction events generalizing c with
  | nil => exact h
  | cons e events ih =>
    rw [List.mem_cons, not_or] at he
    exact ih (sound_step h (Ne.symm he.1)) he.2

theorem sound_start {target : Target} {tuning : Tuning} {admission : Admission} {d e : Disk} {t : Transfer}
    (h : Transfer.create target tuning admission d = (.ok t, e)) :
    ∃ n, Sound n (start t) ∧ (start t).content n = ByteArray.empty ∧ t.temp = some ⟨n, true⟩ := by
  unfold Transfer.create at h
  split at h
  · exact nomatch (Prod.mk.inj h).1
  · next temp e' ho =>
    obtain ⟨ht, rfl⟩ := Prod.mk.inj h
    have ht := (Except.ok.inj ht).symm
    obtain ⟨hlead, hw, hempty⟩ := Disk.openTemp_eq_ok ho
    have htemp : temp = ⟨temp.node, true⟩ := by rw [← hw]
    refine ⟨temp.node, ?_, ?_, ?_⟩
    · subst ht
      refine ⟨hlead, ?_, ?_, rfl, ?_, nofun, fun _ _ => rfl, fun _ _ => ⟨Nat.zero_le 1, nofun⟩, fun _ _ => nofun,
        fun _ _ _ => nofun, fun _ _ => nofun⟩
      · show (e'.content temp.node).size ≤ _
        rw [hempty]
        exact Nat.zero_le _
      · show (e'.content temp.node).size ≤ _
        rw [hempty]
        exact Nat.zero_le _
      · rintro - h hh
        exact congrArg Handle.node (Option.some.inj hh).symm
    · subst ht
      exact hempty
    · subst ht
      exact congrArg some htemp

/-- Nothing is known of the file but its length, and nothing happened yet. -/
structure Blank (file : Target) (t : Transfer) : Prop where
  target : t.target = file
  phase : t.phase = .initial
  shares : t.shares = []
  mismatches : t.mismatches = 0
  aborted : t.aborted = false
  signature : t.signature = none
  parts : ∀ m, t.parts = some m → m = PartMap.blank file.size
  jobs : t.outbox.jobs = []

theorem create_blank {target : Target} {tuning : Tuning} {admission : Admission} {d e : Disk} {t : Transfer}
    (h : Transfer.create target tuning admission d = (.ok t, e)) : Blank target t := by
  have huntouched := Transfer.create_untouched h
  refine ⟨huntouched.target, huntouched.phase, huntouched.shares, huntouched.mismatches, huntouched.aborted,
    huntouched.signature, fun m hm => huntouched.parts_eq hm, ?_⟩
  rw [huntouched.outbox]
  rfl

theorem Sound.assembled {n : Nat} {c : Course} (h : Sound n c) : c.assembled = .ok (c.content n) := h.leads.read

/-! ## The transfer of a file `f` to an empty disk -/

/-- The disk once the temp file is made. -/
def plainDisk : Disk :=
  ⟨#[.directory none, .file ByteArray.empty none], [([], 0), (["(incomplete) f"], 1)], []⟩

/-- A file of so many bytes of which there is no local copy. -/
def plainTarget (size : Nat) : Target := ⟨"f", size, ⟨0, 0⟩, none⟩

def plainTransfer (size : Nat) (tuning : Tuning) (admission : Admission) : Transfer where
  target := plainTarget size
  tuning
  admission
  delta := false
  phase := .initial
  shares := []
  parts := some (PartMap.blank size)
  signature := none
  owing := none
  tally := Tally.start 0 size
  temp := some ⟨1, true⟩
  epoch := 0
  mismatches := 0
  released := false
  aborted := false
  cursor := 0
  disk := plainDisk
  links := #[]
  sent := #[]
  metrics := Metrics.zero
  outbox := .empty

theorem split_plain : Path.split "(incomplete) f" = ["(incomplete) f"] := by
  rw [Path.split, String.splitOn, if_neg (by decide)]
  iterate 14 (rw [String.splitOnAux, if_neg (by decide +kernel), if_neg (by decide +kernel)])
  rw [String.splitOnAux, if_pos (by decide +kernel)]
  decide +kernel

theorem absolute_plain : Path.isAbsolute "(incomplete) f" = false := by decide +kernel

theorem place_plain {d : Disk} (hstep : d.step d.here "(incomplete) f" = .ok ["(incomplete) f"]) :
    d.place "(incomplete) f" = .ok ["(incomplete) f"] := by
  have hsteps : Path.steps "(incomplete) f" = ["(incomplete) f"] := by
    rw [Path.steps, split_plain]
    decide +kernel
  have hnul : "(incomplete) f".contains (Char.ofNat 0) = false := by
    rw [String.contains_char_eq]
    decide +kernel
  rw [Disk.place, Disk.walk, hnul, hsteps, absolute_plain, List.foldlM_cons, if_neg (by simp),
    if_neg (by decide +kernel), if_neg (by decide +kernel), if_neg (by simp)]
  show d.step d.here "(incomplete) f" >>= _ = _
  rw [hstep]
  rfl

theorem openTemp_plain {d : Disk} (hstep : d.step d.here "(incomplete) f" = .ok ["(incomplete) f"])
    (hfree : d.numberAt? ["(incomplete) f"] = none) :
    d.openTemp "(incomplete) f" = (.ok ⟨(d.add ["(incomplete) f"] (.file ByteArray.empty none)).2, true⟩,
      (d.add ["(incomplete) f"] (.file ByteArray.empty none)).1) := by
  have htrim : Path.trimEnd ["(incomplete) f"] = ["(incomplete) f"] := by decide +kernel
  have hparent : Path.parent? "(incomplete) f" = some "" := by
    rw [Path.parent?, split_plain, htrim]
    simp only [List.dropLast, absolute_plain]
    rfl
  have hslash : Path.endsInSlash "(incomplete) f" = false := by decide +kernel
  simp only [Disk.openTemp, hparent, Disk.openFresh, hslash, place_plain hstep, bind, Except.bind, hfree]
  rfl

theorem temp_plain (size : Nat) : (plainTarget size).temp = "(incomplete) f" := by
  have hsplit : Path.split "f" = ["f"] := by
    rw [Path.split, String.splitOn, if_neg (by decide), String.splitOnAux, if_neg (by decide +kernel),
      if_neg (by decide +kernel), String.splitOnAux, if_pos (by decide +kernel)]
    decide +kernel
  show tempPath "f" = _
  simp only [tempPath, Path.withFileName, Path.fileName?, Path.parent?, hsplit]
  decide +kernel

theorem create_plain (size : Nat) (tuning : Tuning) (admission : Admission) :
    Transfer.create (plainTarget size) tuning admission (Disk.empty []) =
      (.ok (plainTransfer size tuning admission), plainDisk) := by
  have hopen := openTemp_plain (d := Disk.empty []) (by decide +kernel) (by decide +kernel)
  simp only [Transfer.create, temp_plain, hopen]
  simp only [plainTarget, Option.any_none, Bool.and_false]
  rfl

theorem sound_plain (size : Nat) (tuning : Tuning) (admission : Admission) :
    Sound 1 (start (plainTransfer size tuning admission)) := by
  obtain ⟨n, h, -, hn⟩ := sound_start (create_plain size tuning admission)
  cases hn
  exact h

theorem step_hash_verdict {n : Nat} {c : Course} (hs : Sound n c) {i epoch : Nat} {d : Digest}
    (hi : c.tasks[i]? = some (.hash epoch d)) (hepoch : c.transfer.epoch = epoch) :
    c.step (.work i) = settle c.transfer
      (c.tasks.take i ++ [.hashed epoch (.ok (Sha256.digest (c.content n) == d))] ++ c.tasks.drop (i + 1)) := by
  obtain ⟨r, hr, hok, hgo⟩ := step_hash hs.leads hs.limited epoch d
  obtain ⟨b, rfl⟩ := hgo hepoch
  rw [step_work hi, hr, hok b rfl]
  rfl

/-- The signature of the byte `1`. -/
def oneSignature : Signature :=
  ⟨1, 1, [⟨0, weakSum ⟨#[1]⟩, Sha256.digest ⟨#[1]⟩⟩], Sha256.digest ⟨#[1]⟩⟩

theorem ofBytes_one : Signature.ofBytes 1 ⟨#[1]⟩ = oneSignature := by
  rw [Signature.ofBytes_eq]
  rfl

/-- The byte `2` does not pass for it. -/
theorem digest_two_ne : Sha256.digest ⟨#[2]⟩ ≠ oneSignature.digest := by decide +kernel

/-- A peer that has joined sends the byte `1`, which is all of the file. -/
def oneArrived : Course := (start (plainTransfer 1 .standard .swarming)).run
  [.join (.fresh "a" .full 0) fun _ => true, .signature oneSignature, .chunk "a" 0 ⟨#[1]⟩]

theorem hash_oneArrived : oneArrived.step (.work 0) = settle oneArrived.transfer [.hashed 0 (.ok true)] := by
  have hsound : Sound 1 oneArrived := sound_run (sound_plain 1 _ _) (by simp)
  have hright : (Sha256.digest (oneArrived.content 1) == oneSignature.digest) = true := beq_self_eq_true _
  rw [step_hash_verdict hsound (i := 0) (d := oneSignature.digest) rfl rfl, hright]
  rfl

/-- The same, then the temp file is hashed. -/
def oneEvents : List Event :=
  [.join (.fresh "a" .full 0) fun _ => true, .signature oneSignature, .chunk "a" 0 ⟨#[1]⟩, .work 0]

theorem run_oneEvents : (start (plainTransfer 1 .standard .swarming)).run oneEvents =
    settle oneArrived.transfer [.hashed 0 (.ok true)] := hash_oneArrived

/-! ## Verdicts that wait -/

theorem hashed_mem_settle {u : Transfer} {l : List Task} {epoch : Nat} {r : Except Failure Bool} :
    Task.hashed epoch r ∈ (settle u l).tasks ↔ Task.hashed epoch r ∈ l := by
  simp only [settle, List.mem_append, List.mem_map]
  refine ⟨?_, .inl⟩
  rintro (h | ⟨j, -, h⟩)
  · exact h
  · cases j <;> exact nomatch h

theorem Goes.hashed {l k : List Task} {epoch : Nat} {r : Except Failure Bool} (h : Goes l k)
    (hm : Task.hashed epoch r ∈ k) : Task.hashed epoch r ∈ l := by
  rcases h.2 _ hm with hm | ⟨hd, -⟩
  · exact hm
  · exact nomatch hd

/-- No job looks at the local copy while a verdict waits. -/
theorem Sound.idle_of_hashed {n : Nat} {c : Course} (h : Sound n c) (ho : c.transfer.phase.isFinal = false)
    {epoch : Nat} {r : Except Failure Bool} (hm : Task.hashed epoch r ∈ c.tasks) :
    ∀ task ∈ c.tasks, task.isDelta = false := by
  refine h.mapped ho ?_
  by_contra hp
  have := (h.unmapped ho (by simpa using hp)).2 _ hm
  simp [Task.isDelta] at this

/-! ## What stays -/

section Stays

variable {n : Nat} {c d : Course} {e : Event}

theorem effect_target (he : Effect n c e d) : d.transfer.target = c.transfer.target := by
  cases he with
  | talk hq _ => exact hq.target
  | ended hends _ _ => exact hends.target
  | empty _ hends => exact hends.target
  | signed hs => exact hs.quiet.target
  | stored hs =>
    obtain ⟨m, temp, disk, -, -, -, hc⟩ := hs.stored
    exact hc.target
  | copied _ _ _ hc => exact hc.target
  | passed _ _ hends _ => exact hends.target
  | failed _ _ hq _ => exact hq.target
  | _ => rfl

theorem run_target {events : List Event} (h : Sound n c) (he : .cleanUp ∉ events) :
    (c.run events).transfer.target = c.transfer.target := by
  induction events generalizing c with
  | nil => rfl
  | cons e events ih =>
    rw [List.mem_cons, not_or] at he
    have heff := step_effect h (Ne.symm he.1)
    exact (ih (sound_effect h heff) he.2).trans (effect_target heff)

/-- Without chunks that count, and without a job that copies, the temp file stays as it is. -/
theorem effect_content (he : Effect n c e d) (hchunk : e.isChunk → c.transfer.phase.isFinal)
    (hidle : ∀ task ∈ c.tasks, task.isDelta = false) : d.content n = c.content n := by
  have hbusy : ¬ ∃ task ∈ c.tasks, task.isDelta := fun ⟨task, ht, hd⟩ => by simp [hidle task ht] at hd
  cases he with
  | same => rfl
  | talk hq _ => exact congrArg (Disk.content · n) hq.disk
  | ended hends _ _ => exact hends.content n
  | empty _ hends => exact hends.content n
  | signed hs => exact congrArg (Disk.content · n) hs.quiet.disk
  | stored hs => exact absurd (hchunk rfl) (by simp [hs.isOpen])
  | copying _ _ _ busy _ => exact absurd busy hbusy
  | copied _ _ busy _ => exact absurd busy hbusy
  | hashed _ _ _ _ => rfl
  | passed _ _ hends _ => exact hends.content n
  | failed _ _ hq _ => exact congrArg (Disk.content · n) hq.disk
  | edited _ hcontent => exact hcontent

theorem effect_completed (h : Sound n c) (he : Effect n c e d) (hc : c.transfer.phase = .completed) :
    d.transfer.phase = .completed ∧ (0 < c.transfer.target.size → d.content n = c.content n) := by
  have hfinal : c.transfer.phase.isFinal ≠ false := by simp [hc, Phase.isFinal]
  have hidle := h.done hc
  constructor
  · cases he with
    | same => exact hc
    | talk hq _ =>
      rcases hq.phase with e | ⟨ho, -⟩
      · exact e.trans hc
      · exact absurd ho hfinal
    | ended hends _ _ => exact (hends.phase (by simp [hc, Phase.isFinal])).trans hc
    | empty _ hends => exact (hends.phase (by simp [hc, Phase.isFinal])).trans hc
    | signed hs => exact absurd hs.isOpen hfinal
    | stored hs => exact absurd hs.isOpen hfinal
    | copying _ _ _ _ _ => exact hc
    | copied ho _ _ _ => exact absurd ho hfinal
    | hashed _ _ _ _ => exact hc
    | passed ho _ _ _ => exact absurd ho hfinal
    | failed ho _ _ _ => exact absurd ho hfinal
    | edited _ _ => exact hc
  · exact fun hpos => effect_content he (fun _ => by simp [hc, Phase.isFinal]) (hidle hpos)

theorem run_completed {events : List Event} (h : Sound n c) (he : .cleanUp ∉ events)
    (hc : c.transfer.phase = .completed) (hpos : 0 < c.transfer.target.size) :
    (c.run events).transfer.phase = .completed ∧ (c.run events).content n = c.content n := by
  induction events generalizing c with
  | nil => exact ⟨hc, rfl⟩
  | cons e events ih =>
    rw [List.mem_cons, not_or] at he
    have heff := step_effect h (Ne.symm he.1)
    obtain ⟨hd, hcontent⟩ := effect_completed h heff hc
    obtain ⟨h₁, h₂⟩ := ih (sound_effect h heff) he.2 hd (by rwa [effect_target heff])
    exact ⟨h₁, h₂.trans (hcontent hpos)⟩

end Stays

end FileSwarm.Course
