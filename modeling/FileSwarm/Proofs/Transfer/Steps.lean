import FileSwarm.Proofs.Transfer.Stages
import FileSwarm.Transfer.Work

/-!
# Every step of a job moves a transfer on

The job under way looks at the local copy or hashes the file. Each of its steps does what it is to do,
whatever happened between them.

* `Looking.search_eq`, `Looking.copy_eq` : the steps that look and copy;
* `Going.acceptCopy` : what was copied is not asked for;
* `Grounded.hash_eq`, `Going.acceptVerdict` : the file has its hash, and is there;
* `Going.step` : so every step comes to an `Outcome`.
-/

namespace FileSwarm

namespace Transfer

section Steps

variable {w : Scene} {names : List String} {inbox : Nat → List Call} {d : Nat} {t : Transfer} {l : List Task}

theorem bench_still : (Transfer.bench 0).Still := fun _ _ => rfl

theorem bench_holds : (Transfer.bench 0).Holds := ⟨fun _ _ => rfl, fun _ _ _ => rfl⟩

/-- Nobody says stop while the epoch lasts. -/
theorem bench_patient (h : t.epoch = 0) (e : Disk) : (Transfer.bench 0).Patient ((Transfer.bench 0).putDisk e t) := by
  intro p
  show (t.epoch == 0, _) = _
  rw [h]
  rfl

theorem isCurrent_of_grounded (h : Grounded w t) : t.isCurrent 0 := by
  rw [isCurrent, h.epoch, h.isOpen]
  rfl

/-! ## The local copy -/

section Looking

variable {k m : Nat} {c : String} {b : ByteArray}

theorem Looking.present (h : t.Looking w k m c b) (hg : Grounded w t) : t.disk.HasFile c m b :=
  h.file.alike hg.written.alike (w.candidate c m b h.candidate h.file).1

theorem Looking.search_eq (h : t.Looking w k m c b) (hg : Grounded w t) :
    Task.step t (.search 0 (Signature.describe k w.original) c ⟨w.node, true⟩) =
      (t, some (.searched 0 (Signature.describe k w.original) c ⟨w.node, true⟩
        (.ok (plainScan (Signature.describe k w.original) b)))) := by
  have hwidth : 0 < (Signature.describe k w.original).blockLength.toNat := by
    rw [Signature.blockLength_describe h.le]
    exact h.pos
  have hlim := (w.candidate c m b h.candidate h.file).2
  have hfile := h.present hg
  have hthere : ∀ u, u = t → ((Transfer.bench 0).disk u).HasFile c m b := by
    rintro _ rfl
    exact hfile
  obtain ⟨found, hfound, hscan, hgo⟩ := (Bench.findMatches_spec bench_still.steady hthere hlim (.inl hwidth)).run
  obtain ⟨found, rfl⟩ := hgo (bench_patient hg.epoch t.disk)
  obtain rfl := hscan found rfl
  rw [Task.step, hfound]

/-- What was found is copied, and is what the file has there. -/
theorem Looking.copy_eq (h : t.Looking w k m c b) (hg : Grounded w t) :
    ∃ parts e, Task.step t (.copy 0 (Signature.describe k w.original) c ⟨w.node, true⟩
        (plainScan (Signature.describe k w.original) b)) =
        ({ t with disk := e }, some (.copied 0 (.ok parts))) ∧ Copied w.original w.node w.disk e parts := by
  have hoffset : w.original.size ≤ maxOffset := Nat.le_trans w.size_le (by decide)
  obtain ⟨hmn, hlim⟩ := w.candidate c m b h.candidate h.file
  have hfile := h.present hg
  have hright : ∀ x ∈ plainScan (Signature.describe k w.original) b,
      x.Right (Signature.describe k w.original) w.original b :=
    fun x hx => right_of_mem_plainScan hoffset h.pos h.le (h.safe c m b h.candidate h.file) hx
  obtain ⟨old, hold⟩ := Option.isSome_iff_exists.1 hg.written.isFile
  obtain ⟨parts, e, hrun, hcopied⟩ := Bench.copyMatches_spec (t := t) c t.target.temp bench_holds
    (bench_patient hg.epoch) hfile.leads hfile.bytes hlim hmn hold (Signature.fileLength_describe hoffset) w.size_le
    hright
  refine ⟨parts, e, ?_, ⟨hg.written.alike.trans hcopied.alike, hcopied.isFile, hcopied.size_le⟩, hcopied.length_eq,
    hcopied.not_pending, hcopied.byte_eq⟩
  rw [Task.step, hrun]
  rfl

end Looking

theorem Fetching.copied (hu : t.Unmapped) {parts : PartMap}
    (hc : Copied w.original w.node w.disk t.disk parts) {u : Transfer} (hdisk : u.disk = t.disk)
    (hshares : u.shares = t.shares) (hmetrics : u.metrics = t.metrics.reuse (parts.count parts.range .available))
    (hparts : u.parts = some parts) : u.Fetching w.original w.node parts := by
  have hle := countAll_le parts .available
  rw [hc.length_eq] at hle
  refine ⟨hparts, hc.length_eq, fun o ho => ?_, fun o => ?_, fun s hs p hp => ?_, ?_⟩
  · rw [hdisk]
    exact hc.byte_eq o ho
  · rw [if_neg (hc.not_pending o), hshares]
    apply sumOf_eq_zero.2
    intro k hk
    obtain ⟨s, hs, rfl⟩ := List.mem_map.1 hk
    rw [hu.quiet s hs]
    rfl
  · rw [hshares] at hs
    rw [hu.quiet s hs] at hp
    exact absurd hp List.not_mem_nil
  · have hzero := hu.got_eq
    have hlim := w.size_le
    unfold got at hzero ⊢
    rw [hmetrics, PartMap.count_range]
    show t.metrics.bytesReceived.toNat + (t.metrics.bytesReused + (parts.countAll .available).toUInt64).toNat = _
    have hcount : (parts.countAll .available).toUInt64.toNat = parts.countAll .available := by
      refine UInt64.toNat_ofNat_of_lt ?_
      unfold Disk.sizeLimit at hlim
      show _ < 18446744073709551616
      omega
    unfold Disk.sizeLimit at hlim
    rw [UInt64.toNat_add, hcount, Nat.mod_eq_of_lt (by omega)]
    omega

/-- What was not copied is asked for; if nothing is missing the file is hashed. -/
theorem Going.acceptCopy {k m : Nat} {c : String} {b : ByteArray} {task : Task}
    (h : Going w names inbox d t [task]) (hjobs : t.outbox.jobs = []) (hl : t.Looking w k m c b) {parts : PartMap}
    (hcopied : Copied w.original w.node w.disk t.disk parts) :
    Outcome w names inbox d (t.acceptCopy 0 (.ok parts)) [] := by
  have hg := h.grounded
  let v : Transfer := { t with
    metrics := t.metrics.reuse (parts.count parts.range .available)
    tally := Tally.start (parts.count parts.range .available) t.target.size
    parts := some parts }
  have haccept : t.acceptCopy 0 (.ok parts) =
      if parts.isComplete then v.checkComplete else (v.setPhase .downloading).sendRequests := by
    rw [Transfer.acceptCopy, accept, if_pos (isCurrent_of_grounded hg)]
    rfl
  have hcounted : v.metrics.mismatches = 0 := hg.counted
  have hvg : Grounded w v := hg.update hg.isOpen hg.written hcounted
  have hvp : v.Peers d names inbox := h.peers.update
  have hvf : v.Fetching w.original w.node parts := Fetching.copied hl.unmapped hcopied rfl rfl rfl rfl
  have hsigned : ∀ s, t.signature = some s → s.digest = Sha256.digest w.original := by
    intro s hs
    rw [← Option.some.inj (hl.signature.symm.trans hs)]
    rfl
  rw [haccept]
  split
  · next hcomplete => exact hvg.credited h.pos hvp hvf (hvf.isComplete_iff.1 hcomplete) hsigned hl.owing hjobs
  · next hcomplete =>
    have hmissing : v.got ≠ w.original.size := fun hall => hcomplete (hvf.isComplete_iff.2 hall)
    have hvgoing : Going w names inbox d v [] := ⟨hvg, h.pos, hvp, .fetching hvf hmissing hsigned hl.owing⟩
    obtain ⟨o, heq, hsame⟩ := setPhase_eq v .downloading
    rw [heq]
    obtain ⟨hgoing, hrested⟩ := (hvgoing.enter (p := .downloading) rfl o).send fun hnone => nomatch hnone
    exact hgoing.outcome hrested (by simpa using hsame.trans hjobs)

/-! ## The hash -/

theorem Grounded.hash_eq (h : Grounded w t) (hcontent : t.disk.content w.node = w.original) :
    Task.step t (.hash 0 (Sha256.digest w.original)) = (t, some (.hashed 0 (.ok true))) := by
  have hleads : t.disk.LeadsTo t.target.temp w.node := by
    rw [h.target]
    exact w.leads.alike h.written.alike
  have hsize : (t.disk.content w.node).size ≤ Disk.seekLimit := by
    rw [hcontent]
    exact Nat.le_trans w.size_le (by decide)
  have hverify := Bench.verifyFile_ok (t := t) t.target.temp bench_still (bench_patient h.epoch t.disk) hleads hsize
    (Sha256.digest w.original)
  have hright : (Sha256.digest (t.disk.content w.node) == Sha256.digest w.original) = true := by
    rw [hcontent, beq_self_eq_true]
  rw [show ((Transfer.bench 0).disk t) = t.disk from rfl, hright] at hverify
  rw [Task.step, hverify]

theorem Grounded.acceptVerdict (h : Grounded w t) (hcontent : t.disk.content w.node = w.original)
    (hgot : t.got = w.original.size) (hjobs : t.outbox.jobs = []) :
    Outcome w names inbox d (t.acceptVerdict 0 (.ok true)) [] := by
  have haccept : t.acceptVerdict 0 (.ok true) = ({ t with mismatches := 0 } : Transfer).complete := by
    rw [Transfer.acceptVerdict, accept, if_pos (isCurrent_of_grounded h)]
    rfl
  have hcleared : Grounded w { t with mismatches := 0 } :=
    ⟨h.target, h.chunk, h.admission, h.isOpen, h.temp, h.epoch, rfl, h.counted, h.written, h.delta⟩
  obtain ⟨hfinished, hsame⟩ := hcleared.finish hcontent hgot
  rw [haccept]
  refine .inr ⟨hfinished, ?_⟩
  rw [hsame]
  show [] ++ t.outbox.jobs.map Task.ofJob = []
  rw [hjobs]
  rfl

/-! ## Any step -/

theorem Going.step {task : Task} (h : Going w names inbox d t [task]) (hr : t.Rested) (hjobs : t.outbox.jobs = []) :
    Outcome w names inbox d (Task.step t task).1 (Task.step t task).2.toList := by
  have hg := h.grounded
  cases h.stage with
  | looking hl hlook =>
    cases hlook with
    | search =>
      rw [hl.search_eq hg]
      exact Going.outcome ⟨hg, h.pos, h.peers, .looking hl .searched⟩ hr hjobs
    | @searched =>
      have haccept : ∀ found, t.acceptMatches 0 (.ok found) = t.setPhase .copying := by
        intro found
        rw [acceptMatches, accept, if_pos (isCurrent_of_grounded hg)]
      obtain ⟨o, heq, hsame⟩ := setPhase_eq t .copying
      rw [Task.step, haccept, if_pos (isCurrent_of_grounded hg), heq]
      refine Going.outcome ⟨hg.update rfl hg.written hg.counted, h.pos, h.peers.update, ?_⟩ ⟨hr.signature, hr.parts⟩
        (hsame.trans hjobs)
      exact .looking (hl.update hl.unmapped.update rfl rfl) .copy
    | copy =>
      obtain ⟨parts, e, hstep, hcopied⟩ := hl.copy_eq hg
      rw [hstep]
      refine Going.outcome (t := { t with disk := e }) ⟨?_, h.pos, h.peers.update, ?_⟩ ⟨hr.signature, hr.parts⟩ hjobs
      · exact hg.update hg.isOpen hcopied.toWritten hg.counted
      · exact .looking (hl.update hl.unmapped.update rfl rfl) (.copied hcopied)
    | copied hcopied => exact h.acceptCopy hjobs hl hcopied
  | @verifying m _ hf hall howing hhash =>
    have hcontent : t.disk.content w.node = w.original := Fetching.content_eq ⟨m, hf⟩ hg hall
    rcases hhash with rfl | rfl
    · rw [hg.hash_eq hcontent]
      exact Going.outcome ⟨hg, h.pos, h.peers, .verifying hf hall howing (.inr rfl)⟩ hr hjobs
    · exact hg.acceptVerdict hcontent hall hjobs

end Steps

end Transfer

end FileSwarm
