import Mathlib.Data.List.Induction
import FileSwarm.Proofs.Transfer.Sound

/-!
# What a completed transfer was verified against

A file with bytes in it is complete only after its temp file was hashed and the hash was that of the
signature. Hashing and handing in the verdict are two steps, and what arrives between them is not hashed:
the verdict is about the temp file as it was.

* `Writes c e` : bytes are put into the temp file; `Unwritten c events` : none are; `step_content` : then it stays
  as it is, unless a job copies;
* `Seen n c events d` : at some point of the run the temp file had the hash `d`, and it is still the same
  if no bytes were put into it since;
* `seen_of_hashed` : a verdict that waits to be handed in is about a temp file that was seen;
* `effect_completes` : with a signature held, only a verdict completes a transfer;
* `completed_after_right_hash` : what completion with a signature says;
* `CompletesVerified`, `completes_unverified` : that it does not say more.
-/

namespace FileSwarm.Course

section Effects

variable {n : Nat} {c d : Course} {e : Event}

/-- A right verdict waited before, or was just found about the temp file as it is. -/
theorem effect_hashed (he : Effect n c e d) {epoch : Nat} (hm : Task.hashed epoch (.ok true) ∈ d.tasks) :
    Task.hashed epoch (.ok true) ∈ c.tasks ∨
      d.content n = c.content n ∧ ∃ i k, e = .work i ∧
        c.tasks[i]? = some (.hash k (Sha256.digest (c.content n))) := by
  cases he with
  | same => exact .inl hm
  | talk _ hl => exact .inl (hl.hashed (hashed_mem_settle.1 hm))
  | ended _ _ hl => exact .inl (hl.hashed (hashed_mem_settle.1 hm))
  | empty _ _ => exact .inl (hashed_mem_settle.1 hm)
  | signed _ => exact .inl (hashed_mem_settle.1 hm)
  | stored _ => exact .inl (hashed_mem_settle.1 hm)
  | copying _ _ _ _ hl => exact .inl (hl.hashed (hashed_mem_settle.1 hm))
  | copied _ _ _ _ => exact absurd (hashed_mem_settle.1 hm) List.not_mem_nil
  | hashed hi hr _ hl =>
    rcases hl _ (hashed_mem_settle.1 hm) with hm | hm
    · exact .inl hm
    · cases hm
      have heq := hr true rfl
      rw [eq_comm, beq_iff_eq] at heq
      exact .inr ⟨rfl, _, _, rfl, heq ▸ hi⟩
  | passed _ _ _ hl => exact .inl (hl.hashed (hashed_mem_settle.1 hm))
  | failed _ _ _ hl => exact .inl (hl.hashed (hashed_mem_settle.1 hm))
  | edited _ _ => exact .inl hm

theorem effect_signature (he : Effect n c e d) (ho : d.transfer.phase.isFinal = false) {s : Signature}
    (hs : d.transfer.signature = some s) :
    c.transfer.phase.isFinal = false ∧ (c.transfer.signature = some s ∨ c.transfer.signature = none) := by
  cases he with
  | same => exact ⟨ho, .inl hs⟩
  | talk hq _ => exact (hq.held ho hs).imp id .inl
  | ended hends _ _ => exact absurd ho hends.not_open
  | empty _ hends => exact absurd ho hends.not_open
  | signed h => exact ⟨h.isOpen, .inr h.unsigned⟩
  | stored h =>
    obtain ⟨m, temp, disk, -, -, -, hc⟩ := h.stored
    exact (hc.held ho hs).imp id .inl
  | copying _ _ _ _ _ => exact ⟨ho, .inl hs⟩
  | copied _ _ _ hc => exact (hc.held ho hs).imp id .inl
  | hashed _ _ _ _ => exact ⟨ho, .inl hs⟩
  | passed _ _ hends _ => exact absurd ho hends.not_open
  | failed _ _ hq _ => exact (hq.held ho hs).imp id .inl
  | edited _ _ => exact ⟨ho, .inl hs⟩

/-- With a signature held, and bytes in the file, only a right verdict completes a transfer. -/
theorem effect_completes (he : Effect n c e d) (hc : c.transfer.phase ≠ .completed)
    (hd : d.transfer.phase = .completed) (hs : c.transfer.signature ≠ none) (hpos : 0 < c.transfer.target.size) :
    c.transfer.phase.isFinal = false ∧ d.content n = c.content n ∧
      ∃ epoch, Task.hashed epoch (.ok true) ∈ c.tasks := by
  cases he with
  | same => exact absurd hd hc
  | talk hq _ => exact absurd (hq.completed hd) hc
  | ended _ hp _ => exact absurd (hp hd) hc
  | empty hsize _ => exact absurd hpos (by simp [hsize])
  | signed h => exact absurd h.unsigned hs
  | stored h =>
    obtain ⟨m, temp, disk, -, -, -, hcr⟩ := h.stored
    exact absurd (hcr.completed hs hd) hc
  | copying _ _ _ _ _ => exact absurd hd hc
  | copied _ _ _ hcr => exact absurd (hcr.completed hs hd) hc
  | hashed _ _ _ _ => exact absurd hd hc
  | passed ho hi hends _ => exact ⟨ho, hends.content n, _, List.mem_of_getElem? hi⟩
  | failed _ _ hq _ => exact absurd (hq.completed hd) hc
  | edited _ _ => exact absurd hd hc

end Effects

section Writing

variable {n : Nat} {c : Course} {e : Event}

/-- The event is bytes that an open transfer puts into its temp file: an attached peer sends them, there is at least
one of them, and they lie in the file. -/
def Writes (c : Course) : Event → Prop
  | .chunk id offset bytes =>
    c.transfer.isAttached id ∧ 0 < bytes.size ∧ offset + bytes.size ≤ c.transfer.target.size
  | _ => False

/-- No bytes are put into the temp file. -/
def Unwritten (c : Course) (events : List Event) : Prop :=
  ∀ before e, before ++ [e] <+: events → ¬ (c.run before).Writes e

theorem Unwritten.init {events : List Event} (h : c.Unwritten (events ++ [e])) : c.Unwritten events :=
  fun before x hp => h before x (hp.trans (List.prefix_append _ _))

theorem Unwritten.last {events : List Event} (h : c.Unwritten (events ++ [e])) : ¬ (c.run events).Writes e :=
  h events e (List.prefix_refl _)

/-- Where no job copies, nothing changes the temp file but bytes that are put into it. -/
theorem step_content (h : Sound n c) (hkeep : e ≠ .cleanUp) (hidle : ∀ task ∈ c.tasks, task.isDelta = false)
    (hunwritten : ¬ c.Writes e) : (c.step e).content n = c.content n := by
  cases e with
  | chunk id offset bytes =>
    cases hr : c.transfer.receiveChunk id offset bytes with
    | error f => rw [step_chunk_error hr]
    | ok u =>
      rw [step_chunk_ok hr]
      rcases Transfer.receiveChunk_eq hr with rfl | ⟨hopen, ⟨why, rfl⟩ | ⟨hid, hpos, hinside, -⟩⟩
      · rfl
      · exact (Transfer.breakDown_ends hopen why).1.content n
      · exact absurd ⟨hid, hpos, hinside⟩ hunwritten
  | _ => exact effect_content (step_effect h hkeep) (by simp [Event.isChunk]) hidle

end Writing

/-- At some point of the run a job hashed the temp file and found the hash `d`. If no bytes were put into it after
that point the temp file is still what it was. -/
def Seen (n : Nat) (c : Course) (events : List Event) (d : Digest) : Prop :=
  ∃ before i after epoch, events = before ++ .work i :: after ∧
    (c.run before).tasks[i]? = some (.hash epoch d) ∧ Sha256.digest ((c.run before).content n) = d ∧
    ((c.run (before ++ [.work i])).Unwritten after → (c.run events).content n = (c.run before).content n)

/-- A right verdict that waits to be handed in is about a temp file that was seen. -/
theorem seen_of_hashed {n : Nat} {c : Course} (h : Sound n c) (hnil : c.tasks = []) {events : List Event}
    (hkeep : .cleanUp ∉ events) (ho : (c.run events).transfer.phase.isFinal = false) {s : Signature}
    (hs : (c.run events).transfer.signature = some s) {epoch : Nat}
    (hm : Task.hashed epoch (.ok true) ∈ (c.run events).tasks) : Seen n c events s.digest := by
  induction events using List.reverseRecOn with
  | nil =>
    rw [run_nil, hnil] at hm
    exact absurd hm List.not_mem_nil
  | append_singleton events e ih =>
    rw [List.mem_append, List.mem_singleton, not_or] at hkeep
    have hsound : Sound n (c.run events) := sound_run h hkeep.1
    rw [run_snoc] at ho hs hm
    have heff := step_effect hsound (Ne.symm hkeep.2)
    obtain ⟨ho', hs'⟩ := effect_signature heff ho hs
    have hsig : (c.run events).tasks ≠ [] → (c.run events).transfer.signature = some s := fun hne =>
      hs'.resolve_right fun hnone => hne (hsound.unsigned ho' hnone)
    rcases effect_hashed heff hm with hm' | ⟨hcontent, i, k, rfl, hi⟩
    · have hs'' := hsig (List.ne_nil_of_mem hm')
      obtain ⟨before, i, after, k, rfl, htask, hdigest, hsame⟩ := ih hkeep.1 ho' hs'' hm'
      refine ⟨before, i, after ++ [e], k, by simp, htask, hdigest, fun hafter => ?_⟩
      have he : ¬ (c.run (before ++ .work i :: after)).Writes e := by
        rw [List.append_cons, run_append]
        exact hafter.last
      rw [run_snoc, step_content hsound (Ne.symm hkeep.2) (hsound.idle_of_hashed ho' hm') he]
      exact hsame hafter.init
    · have hmem := List.mem_of_getElem? hi
      have hd := hsound.digest ho' s (hsig (List.ne_nil_of_mem hmem)) _ _ hmem
      exact ⟨events, i, [], k, rfl, hd ▸ hi, hd, fun _ => by rw [run_snoc, hcontent]⟩

/-- A file with bytes in it which is complete while the signature `s` is held had the hash of `s` when a
job hashed it. If no bytes were put into it after that the file is what was hashed, and stays so. -/
theorem completed_after_right_hash {target : Target} {tuning : Tuning} {admission : Admission}
    {disk made : Disk} {t : Transfer} (hc : Transfer.create target tuning admission disk = (.ok t, made))
    (hpos : 0 < target.size) {events : List Event} {e : Event} (hkeep : .cleanUp ∉ events ++ [e])
    {s : Signature} (hs : ((start t).run events).transfer.signature = some s)
    (hopen : ((start t).run events).transfer.phase ≠ .completed)
    (hdone : (((start t).run events).step e).transfer.phase = .completed) :
    ∃ before i after epoch content, events = before ++ .work i :: after ∧
      ((start t).run before).tasks[i]? = some (.hash epoch s.digest) ∧
      ((start t).run before).assembled = .ok content ∧ Sha256.digest content = s.digest ∧
      (((start t).run (before ++ [.work i])).Unwritten after → ∀ later, .cleanUp ∉ later →
        ((start t).run (events ++ e :: later)).assembled = .ok content) := by
  obtain ⟨n, hstart, -, -⟩ := sound_start hc
  have hblank := create_blank hc
  have htarget : (start t).transfer.target = target := hblank.target
  have htasks : (start t).tasks = [] := by simp [start, settle, hblank.jobs]
  rw [List.mem_append, List.mem_singleton, not_or] at hkeep
  have hsound : Sound n ((start t).run events) := sound_run hstart hkeep.1
  have hsize : 0 < ((start t).run events).transfer.target.size := by
    rwa [run_target hstart hkeep.1, htarget]
  have heff := step_effect hsound (Ne.symm hkeep.2)
  obtain ⟨ho, hcontent, epoch, hm⟩ := effect_completes heff hopen hdone (by simp [hs]) hsize
  obtain ⟨before, i, after, k, rfl, htask, hdigest, hsame⟩ :=
    seen_of_hashed hstart htasks hkeep.1 ho hs hm
  have hbefore : .cleanUp ∉ before := fun h => hkeep.1 (List.mem_append_left _ h)
  refine ⟨before, i, after, k, _, rfl, htask, (sound_run hstart hbefore).assembled, hdigest,
    fun hafter later hlater => ?_⟩
  have hnext := sound_effect hsound heff
  obtain ⟨-, hlast⟩ := run_completed hnext hlater hdone (by rwa [effect_target heff])
  rw [show before ++ Event.work i :: after ++ e :: later = (before ++ .work i :: after ++ [e]) ++ later by simp,
    run_append, run_snoc, (sound_run hnext hlater).assembled, hlast, hcontent, hsame hafter]

theorem one_completed_after_right_hash : ∃ before i after epoch content,
    oneEvents = before ++ .work i :: after ∧
      ((start (plainTransfer 1 .standard .swarming)).run before).tasks[i]? =
        some (.hash epoch oneSignature.digest) ∧
      ((start (plainTransfer 1 .standard .swarming)).run before).assembled = .ok content ∧
      Sha256.digest content = oneSignature.digest ∧
      (((start (plainTransfer 1 .standard .swarming)).run (before ++ [.work i])).Unwritten after →
        ∀ later, .cleanUp ∉ later →
          ((start (plainTransfer 1 .standard .swarming)).run (oneEvents ++ .work 0 :: later)).assembled =
            .ok content) :=
  completed_after_right_hash (create_plain 1 _ _) (by decide) (by simp [oneEvents])
    (by rw [run_oneEvents]; rfl) (by rw [run_oneEvents]; decide) (by rw [run_oneEvents]; rfl)

/-- The plain reading of it: whatever completes while a signature is held has the hash of the signature. -/
def CompletesVerified (target : Target) (tuning : Tuning) (admission : Admission) (disk : Disk) : Prop :=
  ∀ t made events e s, Transfer.create target tuning admission disk = (.ok t, made) →
    .cleanUp ∉ events ++ [e] → ((start t).run events).transfer.signature = some s →
    ((start t).run events).transfer.phase ≠ .completed →
    (((start t).run events).step e).transfer.phase = .completed →
    ∃ content, (((start t).run events).step e).assembled = .ok content ∧ Sha256.digest content = s.digest

/-- The peer sends another byte before the verdict is handed in. -/
def lateEvents : List Event := oneEvents ++ [.chunk "a" 0 ⟨#[2]⟩]

def otherArrived : Course :=
  (settle oneArrived.transfer [.hashed 0 (.ok true)]).step (.chunk "a" 0 ⟨#[2]⟩)

theorem run_lateEvents : (start (plainTransfer 1 .standard .swarming)).run lateEvents = otherArrived := by
  rw [lateEvents, run_snoc, run_oneEvents]
  rfl

/-- A file without bytes is complete as soon as a peer joins, whatever signature came before. A chunk that
comes between hashing and the verdict is in the file that is complete then. -/
theorem completes_unverified : ¬ CompletesVerified (plainTarget 0) .standard .swarming (Disk.empty []) ∧
    ¬ CompletesVerified (plainTarget 1) .standard .swarming (Disk.empty []) := by
  constructor
  · intro h
    have hsound : Sound 1 ((start (plainTransfer 0 .standard .swarming)).run
        [.signature ⟨0, 1, [], Sha256.digest ⟨#[1]⟩⟩, .join (.fresh "a" .full 0) fun _ => true]) :=
      sound_run (sound_plain 0 _ _) (by simp)
    obtain ⟨content, hc, hd⟩ := h _ _ [.signature ⟨0, 1, [], Sha256.digest ⟨#[1]⟩⟩]
      (.join (.fresh "a" .full 0) fun _ => true) _ (create_plain 0 _ _) (by simp) rfl (by decide) rfl
    have hzero : content = ByteArray.empty := by
      rw [← Except.ok.inj (hsound.assembled.symm.trans hc)]
      exact ByteArray.size_eq_zero_iff.1 (Nat.le_zero.1 hsound.small)
    rw [hzero] at hd
    exact absurd hd (by decide +kernel)
  · intro h
    have hsound : Sound 1 otherArrived :=
      run_lateEvents ▸ sound_run (sound_plain 1 _ _) (by simp [lateEvents, oneEvents])
    have hverdict : Task.hashed 0 (.ok true) ∈ otherArrived.tasks := List.mem_cons_self
    obtain ⟨content, hc, hd⟩ := h _ _ lateEvents (.work 0) oneSignature (create_plain 1 _ _)
      (by simp [lateEvents, oneEvents]) (by rw [run_lateEvents]; rfl) (by rw [run_lateEvents]; decide)
      (by rw [run_lateEvents]; rfl)
    rw [run_lateEvents, (sound_step hsound (by simp)).assembled, effect_content
      (step_effect hsound (by simp)) (by simp [Event.isChunk]) (hsound.idle_of_hashed rfl hverdict)] at hc
    have htwo : content = ⟨#[2]⟩ := (Except.ok.inj hc).symm
    rw [htwo] at hd
    exact absurd hd digest_two_ne

end FileSwarm.Course
