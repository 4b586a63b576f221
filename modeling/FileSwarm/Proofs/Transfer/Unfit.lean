import FileSwarm.Proofs.Transfer.Phases
import FileSwarm.Proofs.Transfer.Progress

/-!
# Bytes that do not fit

Bytes from an attached peer are of no use while it is not known what is needed, if there are none, or if they end
past the file. Whether they do is asked of their end, and an end past the last offset is a fault.

* `receiveChunk_error_iff` : when that happens;
* `receiveChunk_unfit` : bytes of no use change nothing; `chunksReceived_creditChunk`, `receiveChunk_fitting` : all
  others change something;
* `unfit_ignored` : which bytes are ignored, and which are a fault, all along a course;
* `far_bytes_fault` : bytes that end past the file need not be ignored.
-/

namespace FileSwarm

namespace Transfer

variable {t u : Transfer} {id : String} {offset : Nat} {bytes : ByteArray}

/-- A fault is an end past the last offset, of bytes that are not turned away before. -/
theorem receiveChunk_error_iff {f : Fault} (hopen : t.phase.isFinal = false) (hid : t.isAttached id) :
    t.receiveChunk id offset bytes = .error f ↔
      f = .addOverflow ∧ 0 < bytes.size ∧ maxOffset < offset + bytes.size := by
  rw [receiveChunk]
  by_cases hempty : bytes.size = 0
  · rw [if_pos (by simp [ByteRange.isEmpty, hempty])]
    simp [hempty]
  · rw [if_neg (by simp [ByteRange.isEmpty, hempty, hopen, hid]), ByteRange.stop?, addChecked]
    split
    · next hfits =>
      refine iff_of_false (fun h => ?_) fun h => absurd h.2.2 (Nat.not_lt.2 hfits)
      simp only [bind, Except.bind, pure, Except.pure] at h
      repeat' split at h
      all_goals cases h
    · next hfar =>
      refine ⟨fun h => ?_, fun h => h.1 ▸ rfl⟩
      cases h
      exact ⟨rfl, Nat.pos_of_ne_zero hempty, Nat.lt_of_not_le hfar⟩

theorem fits_of_receiveChunk (hopen : t.phase.isFinal = false) (hid : t.isAttached id)
    (h : t.receiveChunk id offset bytes = .ok u) : bytes.size = 0 ∨ offset + bytes.size ≤ maxOffset := by
  by_contra hfar
  rw [not_or, Nat.not_le] at hfar
  have hfault := (receiveChunk_error_iff hopen hid).2 ⟨rfl, Nat.pos_of_ne_zero hfar.1, hfar.2⟩
  exact nomatch h.symm.trans hfault

/-- Bytes of no use: there are none, or they end past the file, or there is no part map. -/
def Unfit (t : Transfer) (offset : Nat) (bytes : ByteArray) : Prop :=
  bytes.size = 0 ∨ t.target.size < offset + bytes.size ∨ t.parts = none

theorem receiveChunk_unfit (hunfit : t.Unfit offset bytes) (hfits : bytes.size = 0 ∨ offset + bytes.size ≤ maxOffset) :
    t.receiveChunk id offset bytes = .ok t := by
  rw [receiveChunk]
  split
  · rfl
  · next hheard =>
    have hempty : bytes.size ≠ 0 := fun hz => hheard (by simp [ByteRange.isEmpty, hz])
    rw [ByteRange.stop?_eq_ok (show (⟨offset, bytes.size⟩ : ByteRange).Fits from hfits.resolve_left hempty)]
    rcases hunfit.resolve_left hempty with hfar | hunmapped
    · exact if_pos hfar
    · rw [hunmapped]
      exact ite_self _

theorem chunksReceived_checkComplete (t : Transfer) :
    t.checkComplete.metrics.chunksReceived = t.metrics.chunksReceived := by
  unfold checkComplete
  dsimp only
  split
  · simp [queueJob]
  · unfold complete
    split
    · simp
    · simp [notify, Metrics.complete]

theorem chunksReceived_creditChunk (t : Transfer) (id : String) (r : ByteRange) (m : PartMap) :
    (t.creditChunk id r m).metrics.chunksReceived = t.metrics.chunksReceived + 1 := by
  unfold creditChunk
  dsimp only
  split
  · rw [chunksReceived_checkComplete]
    rfl
  · rw [(steady_sendRequests _).received]
    rfl

/-- Bytes that lie in the file are put into the temp file and counted, or the transfer breaks. -/
theorem receiveChunk_fitting (hopen : t.phase.isFinal = false) (hid : t.isAttached id)
    (hsize : t.target.size ≤ maxOffset) (htemp : t.temp.isSome) (hfit : ¬ t.Unfit offset bytes) :
    ∃ u, t.receiveChunk id offset bytes = .ok u ∧
      (u.phase ≠ t.phase ∨ u.metrics.chunksReceived ≠ t.metrics.chunksReceived) := by
  rw [Unfit, not_or, not_or, Nat.not_lt] at hfit
  obtain ⟨hempty, hinside, hmapped⟩ := hfit
  obtain ⟨m, hm⟩ := Option.ne_none_iff_exists'.1 hmapped
  obtain ⟨temp, htemp⟩ := Option.isSome_iff_exists.1 htemp
  rw [receiveChunk_mapped hopen hid (Nat.pos_of_ne_zero hempty) hinside hsize hm htemp]
  refine ⟨_, rfl, ?_⟩
  split
  · rw [chunksReceived_creditChunk]
    exact .inr (by simp)
  · refine .inl fun hphase => ?_
    rw [(breakDown_ends hopen _).2] at hphase
    rw [← hphase] at hopen
    exact nomatch hopen

theorem receiveChunk_eq_self_iff (hopen : t.phase.isFinal = false) (hid : t.isAttached id)
    (hsize : t.target.size ≤ maxOffset) (htemp : t.temp.isSome) :
    t.receiveChunk id offset bytes = .ok t ↔
      t.Unfit offset bytes ∧ (bytes.size = 0 ∨ offset + bytes.size ≤ maxOffset) := by
  refine ⟨fun h => ⟨?_, fits_of_receiveChunk hopen hid h⟩, fun h => receiveChunk_unfit h.1 h.2⟩
  by_contra hfit
  obtain ⟨u, hu, hchanged⟩ := receiveChunk_fitting hopen hid hsize htemp hfit
  obtain rfl : u = t := Except.ok.inj (hu.symm.trans h)
  exact hchanged.elim (· rfl) (· rfl)

end Transfer

namespace Course

open Transfer

/-- While a transfer is open, bytes from an attached peer that are none, that end past the file or that come before
there is a part map leave everything as it is, the temp file, notices and jobs included, and nothing else does: if
their end is an offset they are ignored, if it is past the last offset they are a fault. Other bytes never are. -/
theorem unfit_ignored {target : Target} {tuning : Tuning} {admission : Admission} {disk made : Disk} {t : Transfer}
    (h : Transfer.create target tuning admission disk = (.ok t, made)) (hsize : target.size ≤ maxOffset)
    (events : List Event) {id : String} (hopen : ((start t).run events).transfer.phase.isFinal = false)
    (hid : ((start t).run events).transfer.isAttached id) (offset : Nat) (bytes : ByteArray) :
    let c := (start t).run events
    (c.transfer.receiveChunk id offset bytes = .ok c.transfer ↔
      c.transfer.Unfit offset bytes ∧ (bytes.size = 0 ∨ offset + bytes.size ≤ maxOffset)) ∧
    (∀ f, c.transfer.receiveChunk id offset bytes = .error f ↔
      f = .addOverflow ∧ 0 < bytes.size ∧ maxOffset < offset + bytes.size) ∧
    (c.step (.chunk id offset bytes) = c ↔ c.transfer.Unfit offset bytes) := by
  have huntouched := create_untouched h
  have hstart : Orderly (start t) := orderly_start huntouched
  intro c
  have hc : Orderly c := hstart.run events
  have hmade := hstart.made_run events hopen
  have htarget : c.transfer.target.size ≤ maxOffset := by
    rw [hmade.target, show (start t).transfer.target = target from huntouched.target]
    exact hsize
  have htemp : c.transfer.temp.isSome := by
    rw [hmade.temp]
    exact huntouched.temp
  refine ⟨receiveChunk_eq_self_iff hopen hid htarget htemp, fun f => receiveChunk_error_iff hopen hid, fun hsame => ?_,
    fun hunfit => ?_⟩
  · by_contra hfit
    obtain ⟨u, hu, hchanged⟩ := receiveChunk_fitting hopen hid htarget htemp hfit
    rw [step_chunk_ok hu] at hsame
    have hphase : u.phase = c.transfer.phase := congrArg (·.transfer.phase) hsame
    have hreceived : u.metrics.chunksReceived = c.transfer.metrics.chunksReceived :=
      congrArg (·.transfer.metrics.chunksReceived) hsame
    exact hchanged.elim (· hphase) (· hreceived)
  · cases hr : c.transfer.receiveChunk id offset bytes with
    | error f => exact step_chunk_error hr
    | ok u =>
      have hignored : c.transfer.receiveChunk id offset bytes = .ok c.transfer :=
        receiveChunk_unfit hunfit (fits_of_receiveChunk hopen hid hr)
      obtain rfl : u = c.transfer := Except.ok.inj (hr.symm.trans hignored)
      rw [step_chunk_ok hr]
      exact settle_self hc.emptied

/-- A peer that was asked for the one byte of a file. -/
def askedEvents : List Event := [.join (.fresh "a" .full 0) fun _ => true, .ready "a"]

def oneAsked : Course := (start (plainTransfer 1 .standard .swarming)).run askedEvents

theorem oneAsked_open : oneAsked.transfer.phase.isFinal = false := by decide +kernel

theorem oneAsked_attached : oneAsked.transfer.isAttached "a" := by decide +kernel

theorem oneAsked_size : oneAsked.transfer.target.size = 1 := by decide +kernel

/-- It sends none, then two, then one at the last offset. -/
theorem strays_ignored :
    1 ≤ maxOffset ∧ oneAsked.transfer.phase.isFinal = false ∧ oneAsked.transfer.isAttached "a" ∧
      oneAsked.transfer.receiveChunk "a" 7 ⟨#[]⟩ = .ok oneAsked.transfer ∧
      oneAsked.transfer.receiveChunk "a" 0 ⟨#[1, 2]⟩ = .ok oneAsked.transfer ∧
      oneAsked.transfer.receiveChunk "a" maxOffset ⟨#[1]⟩ = .error .addOverflow ∧
      oneAsked.step (.chunk "a" maxOffset ⟨#[1]⟩) = oneAsked := by
  have hsize : (plainTarget 1).size ≤ maxOffset := by decide
  have hbytes := unfit_ignored (create_plain 1 .standard .swarming) hsize askedEvents oneAsked_open oneAsked_attached
  have hpast : ∀ {offset : Nat} {bytes : ByteArray}, 1 < offset + bytes.size → oneAsked.transfer.Unfit offset bytes :=
    fun h => .inr (.inl (by rwa [oneAsked_size]))
  exact ⟨hsize, oneAsked_open, oneAsked_attached, (hbytes 7 ⟨#[]⟩).1.2 ⟨.inl rfl, .inl rfl⟩,
    (hbytes 0 ⟨#[1, 2]⟩).1.2 ⟨hpast (by decide), .inr (by decide)⟩,
    ((hbytes maxOffset ⟨#[1]⟩).2.1 _).2 ⟨rfl, by decide, by decide⟩,
    (hbytes maxOffset ⟨#[1]⟩).2.2.2 (hpast (by decide))⟩

/-- Bytes that end past the file need not be ignored: if their end is past the last offset they are a fault. -/
theorem far_bytes_fault :
    ¬ ∀ (target : Target) (tuning : Tuning) (admission : Admission) (disk made : Disk) (t : Transfer),
      Transfer.create target tuning admission disk = (.ok t, made) → target.size ≤ maxOffset →
      ∀ (events : List Event) (id : String) (offset : Nat) (bytes : ByteArray),
        let c := (start t).run events
        c.transfer.phase.isFinal = false → c.transfer.isAttached id → offset ≤ maxOffset →
        c.transfer.Unfit offset bytes → c.transfer.receiveChunk id offset bytes = .ok c.transfer := by
  intro h
  have hunfit : oneAsked.transfer.Unfit maxOffset ⟨#[1]⟩ := .inr (.inl (by rw [oneAsked_size]; decide))
  have hignored : oneAsked.transfer.receiveChunk "a" maxOffset ⟨#[1]⟩ = .ok oneAsked.transfer :=
    h _ _ _ _ _ _ (create_plain 1 .standard .swarming) (by decide) askedEvents "a" maxOffset ⟨#[1]⟩ oneAsked_open
      oneAsked_attached (Nat.le_refl _) hunfit
  have hfault : oneAsked.transfer.receiveChunk "a" maxOffset ⟨#[1]⟩ = .error .addOverflow :=
    (receiveChunk_error_iff oneAsked_open oneAsked_attached).2 ⟨rfl, by decide, by decide⟩
  exact nomatch hignored.symm.trans hfault

end Course

end FileSwarm
