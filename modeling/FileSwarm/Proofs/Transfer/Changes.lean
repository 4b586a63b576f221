import FileSwarm.Proofs.Transfer.Frames
import FileSwarm.Transfer.Work

/-!
# What an operation can do to a transfer

Every operation comes to one of a few kinds of change, and what runs of a transfer keep is derived from
these kinds alone.

* `PartMap.Sheds m k` : `k` has no available byte that `m` has not;
* `Quiet t u` : talk with peers; the temp file, the signature and the jobs stay, and no byte becomes
  available;
* `Ends t u` : the transfer is over, the bytes of all files stay;
* `Signs t s u` : a signature is held from now on, and the local copy may be looked at;
* `Verifies t s u` : the temp file is to be hashed;
* `addPeer_cases`, `receiveSignature_cases`, `receiveChunk_cases`, `acceptCopy_cases`, ... : the kinds
  of change that each operation comes to.
-/

namespace FileSwarm

namespace PartMap

/-- The same length, and no byte available that was not. -/
structure Sheds (m k : PartMap) : Prop where
  length : k.length = m.length
  available : ∀ o, k.state? o = some .available → m.state? o = some .available

theorem Sheds.refl (m : PartMap) : m.Sheds m := ⟨rfl, fun _ => id⟩

theorem Sheds.trans {l m k : PartMap} (h : l.Sheds m) (h' : m.Sheds k) : l.Sheds k :=
  ⟨h'.length.trans h.length, fun o => h.available o ∘ h'.available o⟩

theorem sheds_set (m : PartMap) (r : ByteRange) {s : PartState} (hs : s ≠ .available) :
    m.Sheds (m.set r s) := by
  refine ⟨length_set m r s, fun o ho => ?_⟩
  rw [state?_set] at ho
  split at ho
  · exact absurd (Option.some.inj ho) hs
  · exact ho

end PartMap

namespace Transfer

theorem sheds_revert (m : PartMap) (r : ByteRange) : m.Sheds (revert m r) := by
  have h : ∀ (l : List ByteRange) (k : PartMap), k.Sheds (l.foldl (fun k r => k.set r .needed) k) := by
    intro l
    induction l with
    | nil => exact fun k => .refl k
    | cons r l ih => exact fun k => (k.sheds_set r (by decide)).trans (ih _)
  exact h _ m

theorem sheds_revertAll (l : List ByteRange) (m : PartMap) : m.Sheds (l.foldl revert m) := by
  induction l generalizing m with
  | nil => exact .refl m
  | cons r l ih => exact (sheds_revert m r).trans (ih _)

/-! ## Talk with peers -/

/-- Nothing but talk with peers: whatever is available afterwards was available before. -/
structure Quiet (t u : Transfer) : Prop where
  target : u.target = t.target
  disk : u.disk = t.disk
  temp : u.temp = t.temp
  signature : u.signature = t.signature
  jobs : u.outbox.jobs = t.outbox.jobs
  phase : u.phase = t.phase ∨ t.phase.isFinal = false ∧ u.phase.isFinal = false
  kept : t.parts.isSome → u.parts.isSome
  parts : ∀ k, u.parts = some k → (∃ m, t.parts = some m ∧ m.Sheds k) ∨
    (t.parts = none ∧ t.signature = none ∧ t.phase.isFinal = false ∧ (PartMap.blank t.target.size).Sheds k)

namespace Quiet

variable {t u v : Transfer}

theorem refl (t : Transfer) : Quiet t t :=
  ⟨rfl, rfl, rfl, rfl, rfl, .inl rfl, id, fun k hk => .inl ⟨k, hk, .refl k⟩⟩

theorem open_iff (h : Quiet t u) : u.phase.isFinal = t.phase.isFinal := by
  rcases h.phase with h | ⟨ht, hu⟩
  · rw [h]
  · rw [ht, hu]

theorem trans (h : Quiet t u) (k : Quiet u v) : Quiet t v := by
  refine ⟨k.target.trans h.target, k.disk.trans h.disk, k.temp.trans h.temp,
    k.signature.trans h.signature, k.jobs.trans h.jobs, ?_, k.kept ∘ h.kept, fun m hm => ?_⟩
  · rcases k.phase with e | ⟨hu, hv⟩
    · rw [e]; exact h.phase
    · exact .inr ⟨h.open_iff ▸ hu, hv⟩
  · rcases k.parts m hm with ⟨m', hm', hs⟩ | ⟨hn, hsig, hopen, hs⟩
    · rcases h.parts m' hm' with ⟨m'', hm'', hs'⟩ | ⟨hn, hsig, hopen, hs'⟩
      · exact .inl ⟨m'', hm'', hs'.trans hs⟩
      · exact .inr ⟨hn, hsig, hopen, hs'.trans hs⟩
    · refine .inr ⟨?_, h.signature ▸ hsig, h.open_iff ▸ hopen, h.target ▸ hs⟩
      cases ht : t.parts with
      | none => rfl
      | some m' =>
        have := h.kept (by rw [ht]; rfl)
        rw [hn] at this
        exact nomatch this

theorem held (h : Quiet t u) {s : Signature} (ho : u.phase.isFinal = false) (hs : u.signature = some s) :
    t.phase.isFinal = false ∧ t.signature = some s := ⟨h.open_iff ▸ ho, h.signature ▸ hs⟩

theorem completed (h : Quiet t u) (hu : u.phase = .completed) : t.phase = .completed := by
  rcases h.phase with e | ⟨-, ho⟩
  · exact e.symm.trans hu
  · rw [hu] at ho
    exact nomatch ho

end Quiet

/-- Other fields than those that `Quiet` names are of no account. -/
theorem quiet_of_eq {t u : Transfer} (target : u.target = t.target) (disk : u.disk = t.disk)
    (temp : u.temp = t.temp) (signature : u.signature = t.signature)
    (jobs : u.outbox.jobs = t.outbox.jobs) (phase : u.phase = t.phase) (parts : u.parts = t.parts) :
    Quiet t u :=
  ⟨target, disk, temp, signature, jobs, .inl phase, fun h => parts ▸ h,
    fun k hk => .inl ⟨k, parts ▸ hk, .refl k⟩⟩

theorem Quiet.setPhase {t u : Transfer} {p : Phase} (h : Quiet t u) (ht : t.phase.isFinal = false)
    (hp : p.isFinal = false) : Quiet t (u.setPhase p) := by
  refine h.trans ⟨by simp, by simp, by simp, by simp, by simp, .inr ⟨?_, by simpa using hp⟩, by simp, ?_⟩
  · rw [h.open_iff, ht]
  · intro k hk
    exact .inl ⟨k, by simpa using hk, .refl k⟩

theorem Quiet.sendRequests {t u : Transfer} (h : Quiet t u) : Quiet t u.sendRequests := by
  refine sendRequests_induction (P := Quiet t) (fun u links sent h => ?_) ?_ h
  · exact h.trans (quiet_of_eq rfl rfl rfl rfl rfl rfl rfl)
  · rintro u m r i s v ⟨hm, -, -, -, links, sent, rfl⟩ h
    refine h.trans ⟨rfl, rfl, rfl, rfl, rfl, .inl rfl, fun _ => rfl, fun k hk => ?_⟩
    cases hk
    exact .inl ⟨m, hm, m.sheds_set r (by decide)⟩

theorem quiet_fetchAll {t : Transfer} (hp : t.parts = none) (hs : t.signature = none)
    (ht : t.phase.isFinal = false) : Quiet t t.fetchAll := by
  refine ⟨by simp, by simp, by simp, by simp, by simp, .inr ⟨ht, by simp [Phase.isFinal]⟩, by simp, ?_⟩
  intro k hk
  rw [fetchAll_parts] at hk
  cases hk
  exact .inr ⟨hp, hs, ht, .refl _⟩

theorem Quiet.ensureSignature {t u : Transfer} (h : Quiet t u) : Quiet t u.ensureSignature := by
  rcases ensureSignature_cases u with e | ⟨⟨-, hp, hs, ht⟩, owing, e⟩
  · rw [e]; exact h
  · rw [e]
    have hq : Quiet u { u with owing } := quiet_of_eq rfl rfl rfl rfl rfl rfl rfl
    refine h.trans (hq.trans ?_)
    rcases askSignature_cases { u with owing } with ⟨s, -, -, -, -, e⟩ | e | ⟨-, e⟩
    · rw [e]
      refine Quiet.setPhase ?_ ht rfl
      exact quiet_of_eq rfl rfl rfl rfl rfl rfl rfl
    · rw [e]; exact .refl _
    · rw [e]; exact quiet_fetchAll hp hs ht

/-! ## Endings -/

/-- The transfer is over, and the bytes of all files stay. -/
structure Ends (t u : Transfer) : Prop where
  target : u.target = t.target
  final : u.phase.isFinal
  phase : t.phase.isFinal → u.phase = t.phase
  jobs : u.outbox.jobs = t.outbox.jobs
  alike : ∀ n, Disk.Alike n t.disk u.disk
  bytes : ∀ k, u.disk.bytesAt? k = t.disk.bytesAt? k

theorem Ends.content {t u : Transfer} (h : Ends t u) (n : Nat) : u.disk.content n = t.disk.content n := by
  rw [Disk.content, h.bytes, Disk.content]

theorem Ends.not_open {t u : Transfer} (h : Ends t u) : ¬ u.phase.isFinal = false := by simp [h.final]

theorem Quiet.ends {t u v : Transfer} (h : Quiet t u) (k : Ends u v) : Ends t v := by
  refine ⟨k.target.trans h.target, k.final, fun ht => ?_, k.jobs.trans h.jobs, h.disk ▸ k.alike,
    h.disk ▸ k.bytes⟩
  rw [k.phase (h.open_iff ▸ ht)]
  rcases h.phase with e | ⟨ht', -⟩
  · exact e
  · exact absurd ht (by simp [ht'])

theorem ends_release {t u : Transfer} (htarget : u.target = t.target) (hphase : u.phase.isFinal)
    (hkept : t.phase.isFinal → u.phase = t.phase) (hjobs : u.outbox.jobs = t.outbox.jobs)
    (hdisk : u.disk = t.disk) : Ends t u.release := by
  have h := fun n => release_disk u n
  rw [hdisk] at h
  exact ⟨by simpa using htarget, by simpa using hphase, by simpa using hkept, by simpa using hjobs,
    fun n => (h n).1, (h 0).2⟩

theorem complete_ends {t : Transfer} (ht : t.phase.isFinal = false) :
    Ends t t.complete ∧ t.complete.phase = .completed := by
  have hrel : Ends t ({ t.setPhase .completed with
      metrics := (t.setPhase .completed).metrics.complete } : Transfer).release :=
    ends_release (by simp) (by simp [Phase.isFinal]) (by simp [ht]) (by simp) (by simp)
  unfold complete
  rw [if_neg (by simp [ht])]
  exact ⟨⟨hrel.target, hrel.final, hrel.phase, hrel.jobs, hrel.alike, hrel.bytes⟩, by simp [notify]⟩

theorem breakDown_ends {t : Transfer} (ht : t.phase.isFinal = false) (why : Breakage) :
    Ends t (t.breakDown why) ∧ (t.breakDown why).phase = .broken := by
  unfold breakDown
  rw [if_neg (by simp [ht])]
  dsimp only
  rw [tellAll_eq]
  refine ⟨?_, by simp [notify]⟩
  have hrel := ends_release (t := t) (u := ({ t.setPhase .broken with
      metrics := (t.setPhase .broken).metrics.breakDown
      shares := (t.setPhase .broken).shares.map Share.markBroken
      sent := (t.setPhase .broken).sent ++
        (((t.setPhase .broken).shares.map Share.markBroken).map fun s => (s.link, Call.abort)).toArray }))
    (by simp) (by simp [Phase.isFinal]) (by simp [ht]) (by simp) (by simp)
  exact ⟨hrel.target, hrel.final, hrel.phase, hrel.jobs, hrel.alike, hrel.bytes⟩

theorem breakDown_cases (t : Transfer) (why : Breakage) :
    t.breakDown why = t ∨ Ends t (t.breakDown why) ∧ (t.breakDown why).phase = .broken := by
  cases ht : t.phase.isFinal with
  | true => exact .inl (by rw [breakDown, if_pos ht])
  | false => exact .inr (breakDown_ends ht why)

theorem abort_cases (t : Transfer) :
    t.abort = t ∨ Ends t t.abort ∧ (t.phase.isFinal = false → t.abort.phase = .aborted) := by
  unfold abort
  split
  · exact .inl rfl
  · refine .inr ?_
    dsimp only
    rw [tellAll_eq]
    dsimp only
    split
    · next hf => exact ⟨ends_release rfl hf (fun _ => rfl) rfl rfl, fun h => by simp [hf] at h⟩
    · next hf =>
      rw [Bool.not_eq_true] at hf
      exact ⟨ends_release (by simp) (by simp [Phase.isFinal]) (by simp [hf]) (by simp) (by simp),
        fun _ => by simp⟩

/-! ## Peers come and go -/

theorem addPeer_cases (t : Transfer) (s : Share) :
    Quiet t (t.addPeer s).1 ∨
      t.phase.isFinal = false ∧ t.target.size = 0 ∧ Ends t (t.addPeer s).1 ∧ (t.addPeer s).1.phase = .completed := by
  unfold addPeer
  split
  · exact .inl (.refl t)
  · next hf =>
    rw [Bool.not_eq_true] at hf
    split
    · exact .inl (.refl t)
    · split
      · exact .inl (.refl t)
      · dsimp only
        have hq : ∀ (s : Share) (c : Call), Quiet t { t.tell s.link c with shares := t.shares ++ [s] } :=
          fun s c => quiet_of_eq rfl rfl rfl rfl rfl rfl rfl
        split
        · next hsize =>
          obtain ⟨he, hc⟩ := complete_ends (t := { t.tell s.link (.file _) with
            shares := t.shares ++ [s.withBudget t.tuning.maxRequests] }) hf
          exact .inr ⟨hf, hsize, (hq (s.withBudget t.tuning.maxRequests) _).ends he, hc⟩
        · refine .inl (Quiet.sendRequests (Quiet.ensureSignature ?_))
          split
          · exact (hq (s.withBudget t.tuning.maxRequests) _).setPhase hf rfl
          · exact hq (s.withBudget t.tuning.maxRequests) _

theorem quiet_peerReady (t : Transfer) (id : String) : Quiet t (t.peerReady id).1 := by
  unfold peerReady
  split
  · exact .refl t
  · split
    · exact .refl t
    · refine Quiet.sendRequests (Quiet.ensureSignature ?_)
      exact quiet_of_eq rfl rfl rfl rfl rfl rfl rfl

theorem quiet_removePeer (t : Transfer) (id : String) : Quiet t (t.removePeer id).1 := by
  unfold removePeer
  cases t.share? id with
  | none => exact .refl t
  | some s =>
    dsimp only
    split
    · exact quiet_of_eq rfl rfl rfl rfl rfl rfl rfl
    · refine Quiet.sendRequests (Quiet.ensureSignature ?_)
      refine ⟨rfl, rfl, rfl, rfl, rfl, .inl rfl, by simp, fun k hk => .inl ?_⟩
      obtain ⟨m, hm, rfl⟩ := Option.map_eq_some_iff.1 hk
      exact ⟨m, hm, sheds_revertAll s.pending m⟩

/-! ## Signatures and hashes -/

/-- The signature `s` is held from now on. If there is no part map a job is told, which is to look at the
local copy. -/
structure Signs (t : Transfer) (s : Signature) (u : Transfer) : Prop where
  unsigned : t.signature = none
  isOpen : t.phase.isFinal = false
  fits : s.fileLength.toNat = t.target.size
  flawless : s.flaw? = none
  held : u.signature = some s
  quiet : Quiet t { u with signature := t.signature, outbox := t.outbox }
  jobs : u.outbox.jobs = t.outbox.jobs ∨ u.parts = none ∧ t.parts = none ∧ ∃ candidate temp,
    t.target.candidate = some candidate ∧ t.temp = some temp ∧
      u.outbox.jobs = t.outbox.jobs ++ [.matchAndCopy t.epoch s candidate temp]

theorem receiveSignature_cases (t : Transfer) (s : Signature) :
    t.receiveSignature s = t ∨
      Ends t (t.receiveSignature s) ∧ (t.receiveSignature s).phase = .broken ∨
      Signs t s (t.receiveSignature s) := by
  unfold receiveSignature
  split
  · exact .inl rfl
  · next h =>
    simp only [Bool.or_eq_true, not_or, Bool.not_eq_true, Option.isSome_eq_false_iff,
      Option.isNone_iff_eq_none] at h
    obtain ⟨hopen, hsig⟩ := h
    split
    · exact .inr (.inl (breakDown_ends hopen _))
    · next hfits =>
      rw [not_not] at hfits
      split
      · exact .inr (.inl (breakDown_ends hopen _))
      · next hflaw =>
        refine .inr (.inr ?_)
        dsimp only
        by_cases hp : t.parts.isSome
        · rw [if_pos hp]
          exact ⟨hsig, hopen, hfits, hflaw, rfl, quiet_of_eq rfl rfl rfl rfl rfl rfl rfl, .inl rfl⟩
        · rw [if_neg hp]
          have hnone : t.parts = none := by simpa using hp
          cases hc : t.target.candidate with
          | none =>
            refine ⟨hsig, hopen, hfits, hflaw, by simp, ⟨by simp, by simp, by simp, rfl, rfl,
              .inr ⟨hopen, by simp [Phase.isFinal]⟩, fun h => absurd h hp, fun k hk => .inr ?_⟩, .inl (by simp)⟩
            have hq := Quiet.sendRequests (.refl ({ t with signature := some s, owing := none } : Transfer).fetchAll)
            rcases hq.parts k hk with ⟨m, hm, hs⟩ | ⟨hn, -⟩
            · rw [fetchAll_parts] at hm
              cases hm
              exact ⟨hnone, hsig, hopen, hs⟩
            · simp at hn
          | some candidate => cases ht : t.temp with
            | none =>
              dsimp only
              exact ⟨hsig, hopen, hfits, hflaw, rfl, quiet_of_eq rfl rfl ht.symm rfl rfl rfl rfl, .inl rfl⟩
            | some temp =>
              refine ⟨hsig, hopen, hfits, hflaw, by simp [queueJob], ?_,
                .inr ⟨by simp [queueJob, hnone], hnone, candidate, temp, hc, ht, by simp [queueJob]⟩⟩
              refine ⟨by simp [queueJob], by simp [queueJob], by simp [queueJob, ht], rfl, rfl,
                .inr ⟨hopen, by simp [queueJob, Phase.isFinal]⟩, fun h => absurd h hp, fun k hk => ?_⟩
              exact absurd hk (by simp [queueJob, hnone])

/-- The temp file is to be hashed, and the hash to be compared with that of the signature `s`. -/
structure Verifies (t : Transfer) (s : Signature) (u : Transfer) : Prop where
  held : t.signature = some s
  quiet : Quiet t { u with outbox := t.outbox }
  phase : u.phase = .verifying
  jobs : u.outbox.jobs = t.outbox.jobs ++ [.verify t.epoch s.digest]

theorem checkComplete_unsigned {t : Transfer} (hs : t.signature = none) :
    t.checkComplete = (t.setPhase .verifying).complete := by
  unfold checkComplete
  dsimp only
  rw [show (t.setPhase .verifying).signature = none by simpa using hs]

theorem checkComplete_signed {t : Transfer} {s : Signature} (hs : t.signature = some s) :
    t.checkComplete = (t.setPhase .verifying).queueJob (.verify t.epoch s.digest) := by
  unfold checkComplete
  dsimp only
  rw [show (t.setPhase .verifying).signature = some s by simpa using hs]
  simp

/-- An assembled file is hashed if there is a signature, and is there if there is none. -/
theorem checkComplete_cases {t : Transfer} (ht : t.phase.isFinal = false) :
    (∃ s, Verifies t s t.checkComplete) ∨
      t.signature = none ∧ Ends t t.checkComplete ∧ t.checkComplete.phase = .completed := by
  have hq : Quiet t (t.setPhase .verifying) := (Quiet.refl t).setPhase ht rfl
  cases hs : t.signature with
  | none =>
    refine .inr ⟨rfl, ?_⟩
    rw [checkComplete_unsigned hs]
    obtain ⟨he, hp⟩ := complete_ends (t := t.setPhase .verifying) (by simp [Phase.isFinal])
    exact ⟨hq.ends he, hp⟩
  | some s =>
    refine .inl ⟨s, ?_⟩
    rw [checkComplete_signed hs]
    refine ⟨hs, ?_, by simp [queueJob], by simp [queueJob]⟩
    exact ⟨hq.target, hq.disk, hq.temp, hq.signature, rfl, hq.phase, hq.kept, hq.parts⟩

/-- What follows from a part map after bytes were put into the temp file: talk with peers as long as
bytes are missing, the hash or the end if none is. -/
def Credits (t u : Transfer) : Prop :=
  Quiet t u ∨ (∃ m, t.parts = some m ∧ m.isComplete) ∧
    ((∃ s, Verifies t s u) ∨ t.signature = none ∧ Ends t u ∧ u.phase = .completed)

theorem Credits.target {t u : Transfer} (h : Credits t u) : u.target = t.target := by
  rcases h with hq | ⟨-, ⟨s, hv⟩ | ⟨-, he, -⟩⟩
  · exact hq.target
  · exact hv.quiet.target
  · exact he.target

theorem Credits.held {t u : Transfer} (h : Credits t u) {s : Signature} (ho : u.phase.isFinal = false)
    (hs : u.signature = some s) : t.phase.isFinal = false ∧ t.signature = some s := by
  rcases h with hq | ⟨-, ⟨s, hv⟩ | ⟨-, he, -⟩⟩
  · exact hq.held ho hs
  · exact hv.quiet.held ho hs
  · exact absurd ho he.not_open

/-- With a signature held a file that is assembled is not complete yet. -/
theorem Credits.completed {t u : Transfer} (h : Credits t u) (hs : t.signature ≠ none)
    (hu : u.phase = .completed) : t.phase = .completed := by
  rcases h with hq | ⟨-, ⟨s, hv⟩ | ⟨hn, -, -⟩⟩
  · exact hq.completed hu
  · exact nomatch hv.phase.symm.trans hu
  · exact absurd hn hs

/-! ## Chunks -/

theorem Quiet.verifies {t u v : Transfer} {s : Signature} (h : Quiet t u) (he : u.epoch = t.epoch)
    (k : Verifies u s v) : Verifies t s v := by
  have hq := h.trans k.quiet
  exact ⟨h.signature ▸ k.held, ⟨hq.target, hq.disk, hq.temp, hq.signature, rfl, hq.phase, hq.kept, hq.parts⟩,
    k.phase, by rw [k.jobs, h.jobs, he]⟩

theorem creditChunk_credits {t : Transfer} (ht : t.phase.isFinal = false) (id : String) (r : ByteRange)
    (m : PartMap) : Credits { t with parts := some (m.set r .available) } (t.creditChunk id r m) := by
  have hq : Quiet { t with parts := some (m.set r .available) }
      { t.updateShare id (·.receive r) with
        tally := t.tally.add r.length
        metrics := t.metrics.chunk r.length
        parts := some (m.set r .available) } := quiet_of_eq rfl rfl rfl rfl rfl rfl rfl
  unfold creditChunk
  dsimp only
  split
  · next hc =>
    refine .inr ⟨⟨_, rfl, hc⟩, ?_⟩
    rcases checkComplete_cases (t := { t.updateShare id (·.receive r) with
      tally := t.tally.add r.length
      metrics := t.metrics.chunk r.length
      parts := some (m.set r .available) }) ht with ⟨s, hv⟩ | ⟨hs, he, hp⟩
    · exact .inl ⟨s, hq.verifies rfl hv⟩
    · exact .inr ⟨hs, hq.ends he, hp⟩
  · exact .inl hq.sendRequests

/-- Bytes that count: they lie in the file and are put into the temp file. -/
structure Stores (t : Transfer) (offset : Nat) (bytes : ByteArray) (u : Transfer) : Prop where
  isOpen : t.phase.isFinal = false
  pos : 0 < bytes.size
  inside : offset + bytes.size ≤ t.target.size
  stored : ∃ m temp d, t.parts = some m ∧ t.temp = some temp ∧ t.disk.writeAt temp offset bytes = .ok d ∧
    Credits { t with disk := d, parts := some (m.set ⟨offset, bytes.size⟩ .available) } u

/-- Bytes of no interest, bytes that cannot be put into the temp file, or bytes that are in it now. -/
theorem receiveChunk_eq {t u : Transfer} {id : String} {offset : Nat} {bytes : ByteArray}
    (h : t.receiveChunk id offset bytes = .ok u) :
    u = t ∨ t.phase.isFinal = false ∧ ((∃ why, u = t.breakDown why) ∨
      t.isAttached id ∧ 0 < bytes.size ∧ offset + bytes.size ≤ t.target.size ∧
        ∃ m temp d, t.parts = some m ∧ t.temp = some temp ∧ t.disk.writeAt temp offset bytes = .ok d ∧
          u = { t with disk := d }.creditChunk id ⟨offset, bytes.size⟩ m) := by
  simp only [receiveChunk] at h
  split at h
  · cases h; exact .inl rfl
  · next hc =>
    simp only [Bool.or_eq_true, Bool.not_eq_true', not_or, Bool.not_eq_true, Bool.not_eq_false] at hc
    obtain ⟨⟨hopen, hattached⟩, hempty⟩ := hc
    have hpos : 0 < bytes.size := Nat.pos_of_ne_zero (by simpa [ByteRange.isEmpty] using hempty)
    simp only [ByteRange.stop?, addChecked, bind, Except.bind, pure, Except.pure] at h
    split at h
    · cases h
    · next stop hstop =>
      split at hstop
      · cases hstop
        split at h
        · cases h; exact .inl rfl
        · next hin =>
          split at h
          · next m temp hm htemp =>
            split at h
            · cases h; exact .inr ⟨hopen, .inl ⟨_, rfl⟩⟩
            · next d hd =>
              cases h
              exact .inr ⟨hopen, .inr ⟨hattached, hpos, Nat.le_of_not_lt hin, m, temp, d, hm, htemp, hd, rfl⟩⟩
          · cases h; exact .inl rfl
      · cases hstop

theorem receiveChunk_mapped {t : Transfer} {id : String} {offset : Nat} {bytes : ByteArray} {m : PartMap}
    {temp : Handle} (hopen : t.phase.isFinal = false) (hid : t.isAttached id) (hpos : 0 < bytes.size)
    (hinside : offset + bytes.size ≤ t.target.size) (htarget : t.target.size ≤ maxOffset) (hparts : t.parts = some m)
    (htemp : t.temp = some temp) :
    t.receiveChunk id offset bytes = .ok (match t.disk.writeAt temp offset bytes with
      | .ok disk => ({ t with disk } : Transfer).creditChunk id ⟨offset, bytes.size⟩ m
      | .error cause => t.breakDown (.failure (.write t.target.temp cause))) := by
  have hstop : (⟨offset, bytes.size⟩ : ByteRange).stop? = .ok (offset + bytes.size) :=
    ByteRange.stop?_eq_ok (Nat.le_trans hinside htarget)
  have hempty : (⟨offset, bytes.size⟩ : ByteRange).isEmpty = false := by
    rw [ByteRange.isEmpty, beq_eq_false_iff_ne]
    exact Nat.pos_iff_ne_zero.1 hpos
  unfold Transfer.receiveChunk
  simp only [hopen, hid, hempty, hstop, Bool.not_true, Bool.or_false, Bool.false_eq_true, if_false, bind, Except.bind]
  rw [if_neg (Nat.not_lt.2 hinside)]
  split
  · next m' temp' hm htemp' =>
    obtain rfl := Option.some.inj (hparts.symm.trans hm)
    obtain rfl := Option.some.inj (htemp.symm.trans htemp')
    cases t.disk.writeAt temp offset bytes <;> rfl
  · next hnone => exact absurd htemp (hnone m temp hparts)

theorem receiveChunk_cases {t u : Transfer} {id : String} {offset : Nat} {bytes : ByteArray}
    (h : t.receiveChunk id offset bytes = .ok u) :
    u = t ∨ Ends t u ∧ u.phase = .broken ∨ Stores t offset bytes u := by
  rcases receiveChunk_eq h with rfl | ⟨hopen, ⟨why, rfl⟩ | ⟨-, hpos, hin, m, temp, d, hm, htemp, hd, rfl⟩⟩
  · exact .inl rfl
  · exact .inr (.inl (breakDown_ends hopen why))
  · exact .inr (.inr ⟨hopen, hpos, hin, m, temp, d, hm, htemp, hd,
      creditChunk_credits (t := { t with disk := d }) hopen id _ m⟩)

/-! ## Results of jobs -/

theorem acceptMatches_cases (t : Transfer) (epoch : Nat) (r : Except Failure (List BlockMatch)) :
    Quiet t (t.acceptMatches epoch r) ∨
      Ends t (t.acceptMatches epoch r) ∧ (t.acceptMatches epoch r).phase = .broken := by
  unfold acceptMatches accept isCurrent
  cases r with
  | ok _ =>
    dsimp only
    split
    · next h => exact .inl ((Quiet.refl t).setPhase (by simpa using (Bool.and_eq_true_iff.1 h).2) rfl)
    · exact .inl (.refl t)
  | error f =>
    dsimp only
    split
    · next h => exact .inr (breakDown_ends (by simpa using (Bool.and_eq_true_iff.1 h).2) _)
    · exact .inl (.refl t)

theorem acceptCopy_cases (t : Transfer) (epoch : Nat) (r : Except Failure PartMap) :
    t.acceptCopy epoch r = t ∨
      Ends t (t.acceptCopy epoch r) ∧ (t.acceptCopy epoch r).phase = .broken ∨
      t.phase.isFinal = false ∧ ∃ m, r = .ok m ∧ Credits { t with parts := some m } (t.acceptCopy epoch r) := by
  unfold acceptCopy accept isCurrent
  split
  · next h =>
    have hopen : t.phase.isFinal = false := by simpa using (Bool.and_eq_true_iff.1 h).2
    cases r with
    | error f => exact .inr (.inl (breakDown_ends hopen _))
    | ok m =>
      refine .inr (.inr ⟨hopen, m, rfl, ?_⟩)
      have hq : Quiet { t with parts := some m } { t with
          metrics := t.metrics.reuse (m.count m.range .available)
          tally := Tally.start (m.count m.range .available) t.target.size
          parts := some m } := quiet_of_eq rfl rfl rfl rfl rfl rfl rfl
      dsimp only [finishDelta]
      split
      · next hc =>
        refine .inr ⟨⟨m, rfl, hc⟩, ?_⟩
        rcases checkComplete_cases (t := { t with
          metrics := t.metrics.reuse (m.count m.range .available)
          tally := Tally.start (m.count m.range .available) t.target.size
          parts := some m }) hopen with ⟨s, hv⟩ | ⟨hs, he, hp⟩
        · exact .inl ⟨s, hq.verifies rfl hv⟩
        · exact .inr ⟨hs, hq.ends he, hp⟩
      · exact .inl (hq.setPhase hopen rfl).sendRequests
  · exact .inl rfl

theorem acceptVerdict_cases (t : Transfer) (epoch : Nat) (r : Except Failure Bool) :
    t.acceptVerdict epoch r = t ∨
      Ends t (t.acceptVerdict epoch r) ∧ (t.acceptVerdict epoch r).phase = .broken ∨
      t.phase.isFinal = false ∧ r = .ok true ∧ Ends t (t.acceptVerdict epoch r) ∧
        (t.acceptVerdict epoch r).phase = .completed ∨
      t.phase.isFinal = false ∧ r = .ok false ∧
        Quiet { t with parts := some (PartMap.blank t.target.size) } (t.acceptVerdict epoch r) := by
  unfold acceptVerdict accept isCurrent
  split
  · next h =>
    have hopen : t.phase.isFinal = false := by simpa using (Bool.and_eq_true_iff.1 h).2
    refine .inr ?_
    match r with
    | .error f => exact .inl (breakDown_ends hopen _)
    | .ok true =>
      refine .inr (.inl ⟨hopen, rfl, ?_⟩)
      have hq : Quiet t { t with mismatches := 0 } := quiet_of_eq rfl rfl rfl rfl rfl rfl rfl
      obtain ⟨he, hp⟩ := complete_ends (t := { t with mismatches := 0 }) hopen
      exact ⟨hq.ends he, hp⟩
    | .ok false =>
      have hq : Quiet t { t with mismatches := t.mismatches + 1, metrics := t.metrics.mismatch } :=
        quiet_of_eq rfl rfl rfl rfl rfl rfl rfl
      dsimp only [finishVerify]
      split
      · obtain ⟨he, hp⟩ := breakDown_ends
          (t := { t with mismatches := t.mismatches + 1, metrics := t.metrics.mismatch }) hopen
          (.mismatches (t.mismatches + 1))
        exact .inl ⟨hq.ends he, hp⟩
      · refine .inr (.inr ⟨hopen, rfl, Quiet.sendRequests (Quiet.setPhase ?_ hopen rfl)⟩)
        exact quiet_of_eq rfl rfl rfl rfl rfl rfl rfl
  · exact .inl rfl

theorem acceptCrash_cases (t : Transfer) (epoch : Nat) (message : String) :
    t.acceptCrash epoch message = t ∨
      Ends t (t.acceptCrash epoch message) ∧ (t.acceptCrash epoch message).phase = .broken := by
  unfold acceptCrash accept
  split
  · exact breakDown_cases t _
  · exact .inl rfl

end Transfer

end FileSwarm
