import FileSwarm.Proofs.Transfer.Endings

/-!
# What strangers say

A peer that says it is ready, leaves or sends bytes is heard only if it is attached. What others say, before they
joined, when they were turned down or after they left, changes nothing. A signature is heard whoever sent it.

* `Event.sender?` : whose message an event is; `Course.isStray` : that of somebody who is not attached;
* `peerReady_stranger`, `removePeer_stranger`, `receiveChunk_stranger`, `step_stray` : such a message changes nothing;
* `attended`, `run_attended` : so all of them can be left out of what happens;
* `receiveSignature_heard`, `receiveSignature_eq_self_iff` : what becomes of a signature;
* `strangers_ignored` : all of it, of every course;
* `stranger_breaks` : a signature can break a transfer to which nobody is attached.
-/

namespace FileSwarm

/-- Whose message this is. A signature does not say. -/
def Event.sender? : Event → Option String
  | .ready id | .leave id | .chunk id _ _ => some id
  | _ => none

namespace Transfer

variable {t : Transfer} {id : String}

theorem peerReady_stranger (h : t.isAttached id = false) : t.peerReady id = (t, some (.unknown id)) := by
  rw [peerReady, h]
  rfl

theorem removePeer_stranger (h : t.isAttached id = false) : t.removePeer id = (t, some (.unknown id)) := by
  have hnone : t.share? id = none := by
    rw [share?, List.find?_eq_none]
    simpa [isAttached] using h
  rw [removePeer, hnone]

theorem receiveChunk_stranger (h : t.isAttached id = false) (offset : Nat) (bytes : ByteArray) :
    t.receiveChunk id offset bytes = .ok t := by
  rw [receiveChunk]
  exact if_pos (by simp [h])

theorem receiveSignature_heard (hopen : t.phase.isFinal = false) (hnone : t.signature = none) (s : Signature) :
    (s.fileLength.toNat ≠ t.target.size ∨ s.flaw? ≠ none → (t.receiveSignature s).phase = .broken) ∧
      (s.fileLength.toNat = t.target.size → s.flaw? = none → (t.receiveSignature s).signature = some s) := by
  rw [receiveSignature, if_neg (by simp [hopen, hnone])]
  refine ⟨fun hwrong => ?_, fun hfits hflaw => ?_⟩
  · split
    · exact (breakDown_ends hopen _).2
    · next hfits =>
      split
      · exact (breakDown_ends hopen _).2
      · next hflaw => exact absurd hflaw (hwrong.resolve_left hfits)
  · rw [if_neg (not_not_intro hfits), hflaw]
    dsimp only
    split
    · rfl
    · split <;> simp [queueJob]

/-- A signature changes nothing exactly if the transfer is over or has one, whoever sent it. -/
theorem receiveSignature_eq_self_iff (s : Signature) :
    t.receiveSignature s = t ↔ t.phase.isFinal ∨ t.signature.isSome := by
  constructor
  · intro hsame
    by_contra hheard
    rw [not_or, Bool.not_eq_true, Bool.not_eq_true, Option.isSome_eq_false_iff, Option.isNone_iff_eq_none] at hheard
    obtain ⟨hopen, hnone⟩ := hheard
    obtain ⟨hwrong, hright⟩ := receiveSignature_heard hopen hnone s
    by_cases hfits : s.fileLength.toNat = t.target.size ∧ s.flaw? = none
    · have hsigned := hright hfits.1 hfits.2
      rw [hsame, hnone] at hsigned
      exact nomatch hsigned
    · have hbroken := hwrong (not_and_or.1 hfits)
      rw [hsame] at hbroken
      rw [hbroken] at hopen
      exact nomatch hopen
  · intro hdeaf
    rw [receiveSignature]
    exact if_pos (by simpa using hdeaf)

end Transfer

namespace Course

open Transfer

variable {c : Course} {e : Event}

/-- The event is a message of somebody who is not attached. -/
def isStray (c : Course) (e : Event) : Bool := e.sender?.any fun id => !c.transfer.isAttached id

/-- What is left of some events without the messages of those who were not attached when they came. -/
def attended (c : Course) : List Event → List Event
  | [] => []
  | e :: events => if c.isStray e then c.attended events else e :: (c.step e).attended events

/-- A message of somebody who is not attached changes nothing. -/
theorem step_stray (hempty : c.transfer.outbox = .empty) (h : c.isStray e) : c.step e = c := by
  obtain ⟨id, hsender, hid⟩ : ∃ id, e.sender? = some id ∧ c.transfer.isAttached id = false := by
    rw [isStray] at h
    cases hsender : e.sender? with
    | none =>
      rw [hsender] at h
      cases h
    | some id =>
      rw [hsender] at h
      exact ⟨id, rfl, by simpa using h⟩
  have hoperate : c.operate e = (c.transfer, c.tasks) := by
    cases e with
    | ready other =>
      obtain rfl := Option.some.inj hsender
      rw [operate, peerReady_stranger hid]
    | leave other =>
      obtain rfl := Option.some.inj hsender
      rw [operate, removePeer_stranger hid]
    | chunk other offset bytes =>
      obtain rfl := Option.some.inj hsender
      rw [operate, receiveChunk_stranger hid]
      rfl
    | _ => cases hsender
  rw [step_eq hempty, hoperate]
  exact settle_self hempty

/-- All such messages can be left out. -/
theorem Orderly.run_attended (h : Orderly c) (events : List Event) : c.run (c.attended events) = c.run events := by
  induction events generalizing c with
  | nil => rfl
  | cons e events ih =>
    rw [attended]
    split
    · next hstray =>
      rw [ih h]
      show c.run events = (c.step e).run events
      rw [step_stray h.emptied hstray]
    · exact ih (h.step e)

/-- Whoever is not attached is not heard, all along a course: that it is ready or leaves is answered by an error,
bytes it sends by nothing, and the transfer stays as it is, its notices and jobs included; so all such messages can
be left out of what happens. A signature is heard whoever sent it: it changes nothing exactly if the transfer is
over or has one, and else the transfer breaks if it does not fit the file or has a flaw, and holds it if not. -/
theorem strangers_ignored {target : Target} {tuning : Tuning} {admission : Admission} {disk made : Disk} {t : Transfer}
    (h : Transfer.create target tuning admission disk = (.ok t, made)) (events : List Event) {id : String}
    (hid : ((start t).run events).transfer.isAttached id = false) :
    let c := (start t).run events
    (c.transfer.peerReady id = (c.transfer, some (.unknown id)) ∧
      c.transfer.removePeer id = (c.transfer, some (.unknown id)) ∧
      ∀ offset bytes, c.transfer.receiveChunk id offset bytes = .ok c.transfer) ∧
    (∀ e, e.sender? = some id → c.step e = c) ∧
    (start t).run ((start t).attended events) = c ∧
    ∀ s, (c.transfer.receiveSignature s = c.transfer ↔ c.transfer.phase.isFinal ∨ c.transfer.signature.isSome) ∧
      (c.transfer.phase.isFinal = false → c.transfer.signature = none →
        (s.fileLength.toNat ≠ c.transfer.target.size ∨ s.flaw? ≠ none →
          (c.transfer.receiveSignature s).phase = .broken) ∧
          (s.fileLength.toNat = c.transfer.target.size → s.flaw? = none →
            (c.transfer.receiveSignature s).signature = some s)) := by
  have hstart : Orderly (start t) := orderly_start (create_untouched h)
  intro c
  have hc : Orderly c := hstart.run events
  refine ⟨⟨peerReady_stranger hid, removePeer_stranger hid, receiveChunk_stranger hid⟩, fun e he => ?_,
    hstart.run_attended events, fun s => ⟨receiveSignature_eq_self_iff s, fun hopen hnone =>
      receiveSignature_heard hopen hnone s⟩⟩
  refine step_stray hc.emptied ?_
  rw [isStray, he, Option.any_some, hid]
  rfl

/-- A peer left, and sends on. -/
theorem gone_ignored :
    let events : List Event := [.join (.fresh "a" .full 0) fun _ => true, .ready "a", .leave "a"]
    let c := (start (plainTransfer 2 .standard .swarming)).run events
    c.transfer.isAttached "a" = false ∧ c.transfer.removePeer "a" = (c.transfer, some (.unknown "a")) ∧
      c.step (.chunk "a" 0 ⟨#[1, 2]⟩) = c := by
  intro events c
  have hgone : c.transfer.isAttached "a" = false := by decide +kernel
  obtain ⟨⟨-, hleave, -⟩, hstep, -⟩ := strangers_ignored (create_plain 2 .standard .swarming) events hgone
  exact ⟨hgone, hleave, hstep _ rfl⟩

/-- A signature that does not fit the file breaks a transfer to which nobody is attached. -/
theorem stranger_breaks :
    ¬ ∀ (target : Target) (tuning : Tuning) (admission : Admission) (disk made : Disk) (t : Transfer),
      Transfer.create target tuning admission disk = (.ok t, made) → ∀ (events : List Event) (s : Signature),
        let c := (start t).run events
        (∀ id, c.transfer.isAttached id = false) → (c.step (.signature s)).transfer.phase = c.transfer.phase := by
  intro h
  have hphase := h (plainTarget 2) .standard .swarming _ _ _ (create_plain 2 .standard .swarming) [] oneSignature
    fun _ => rfl
  exact absurd hphase (by decide +kernel)

end Course

end FileSwarm
