import FileSwarm.CommandLine.Describe
import FileSwarm.CommandLine.Sync
import FileSwarm.Proofs.CommandLine.Survival
import FileSwarm.Proofs.Disk.Paths
import FileSwarm.Proofs.Swarm.Completion
import FileSwarm.Proofs.Swarm.Courses

/-!
# What a plan says of the transfer

A plan says how many bytes of the local copy can be reused and how many have to be fetched. A transfer reuses and asks
for just as many, unless the file is so small that the local copy is not looked at; then all of it is asked for.

* `Shell.run_bind_ok`, `Shell.bind_eq_ok` : steps of a command;
* `Furnished` : the disk with both files; `Counterparts` : a plan and a transfer of the same files;
* `planOf_eq` : the plan;
* `joinAll_eq`, `exists_runFor`, `await_completed` : the command fetches in one of the runs of the swarm;
* `Furnished.settled` : what a transfer that completed has reused and asked for, in every run;
* `ComesTo` : what transfers come to; `plan_foretells_fetch` : the plan and the transfer; `plan_misleads` : a file too
  small for that.
-/

namespace FileSwarm.CommandLine

namespace Shell

variable {α β ε : Type}

theorem run_bind (x : Shell α) (f : α → Shell β) (c : Console) :
    (x >>= f).run.run c = match x.run.run c with
      | (.ok a, c) => (f a).run.run c
      | (.error e, c) => (.error e, c) := by
  rw [ExceptT.run_bind, StateT.run_bind]
  rcases x.run.run c with ⟨_ | a, c⟩ <;> rfl

theorem run_bind_ok {x : Shell α} {f : α → Shell β} {c d : Console} {a : α} (h : x.run.run c = (.ok a, d)) :
    (x >>= f).run.run c = (f a).run.run d := by
  rw [run_bind, h]

/-- A command that comes to a result came to one in each of its steps. -/
theorem bind_eq_ok {x : Shell α} {f : α → Shell β} {c e : Console} {b : β} (h : (x >>= f).run.run c = (.ok b, e)) :
    ∃ a d, x.run.run c = (.ok a, d) ∧ (f a).run.run d = (.ok b, e) := by
  rw [run_bind] at h
  rcases hx : x.run.run c with ⟨_ | a, d⟩
  · rw [hx] at h
    exact nomatch (Prod.mk.inj h).1
  · rw [hx] at h
    exact ⟨a, d, rfl, h⟩

theorem run_ask_ok {wrap : Cause → CommandError} {f : Disk → Except Cause α} {c : Console} {a : α}
    (h : f c.disk = .ok a) : (ask wrap f).run.run c = (.ok a, c) := by
  show (orFail wrap (f c.disk)).run.run c = _
  rw [h]
  rfl

theorem orFail_eq_ok {wrap : ε → CommandError} {r : Except ε α} {c d : Console} {a : α}
    (h : (orFail wrap r).run.run c = (.ok a, d)) : r = .ok a ∧ d = c := by
  cases r with
  | ok b =>
    obtain ⟨hb, hd⟩ := Prod.mk.inj h
    exact ⟨congrArg Except.ok (Except.ok.inj hb), hd.symm⟩
  | error e => exact nomatch (Prod.mk.inj h).1

theorem changeBy_eq_ok {wrap : ε → CommandError} {f : Disk → Except ε α × Disk} {c d : Console} {a : α}
    (h : (changeBy wrap f).run.run c = (.ok a, d)) :
    ∃ made, f c.disk = (.ok a, made) ∧ d = { c with disk := made } := by
  rcases hf : f c.disk with ⟨r, made⟩
  have hrun : (changeBy wrap f).run.run c = (orFail wrap r).run.run { c with disk := made } := by
    show (orFail wrap (f c.disk).1).run.run { c with disk := (f c.disk).2 } = _
    rw [hf]
  obtain ⟨rfl, hd⟩ := orFail_eq_ok (hrun.symm.trans h)
  exact ⟨made, rfl, hd⟩

end Shell

open Shell

theorem run_pass_ok {α : Type} {w : Work Disk α} {c : Console} {a : α} (h : w.on c.disk = .ok a) :
    (pass w).run.run c = (.ok a, c) := by
  show (orFail .failure (w.on c.disk)).run.run c = _
  rw [h]
  rfl

/-! ## The plan -/

/-- A plan for two files: what can be reused of the local copy, and the rest of the file. -/
theorem planOf_eq {c : Console} {p : PlanArguments} {k m : Nat} {D L : ByteArray}
    (hreference : c.disk.HasFile p.reference k D) (hD : D.size ≤ Disk.sizeLimit)
    (hlocal : c.disk.HasFile p.localCopy m L) (hL : L.size ≤ Disk.sizeLimit) (tuning : Tuning) {s : Signature}
    (hs : s = .describe (Signature.clampLength (p.blockLength.getD (tuning.blockLengthFor D.size))) D) :
    ∃ plan, (planOf tuning p).run.run c = (.ok (s, plan), c) ∧ plan.reusable = s.reusable L ∧
      plan.reusable + plan.fetch = D.size := by
  have hsigned : (signatureOf tuning p.reference p.blockLength).run.run c = (.ok s, c) := by
    rw [signatureOf, run_bind_ok (run_ask_ok hreference.size), hs]
    exact run_pass_ok (Bench.signFile_quiet hreference hD _)
  have hpos : 0 < s.blockLength.toNat := by
    rw [hs, Signature.blockLength_describe (Signature.clampLength_le _)]
    exact Signature.clampLength_pos _
  have hmatched : (pass (Bench.quiet.findMatches p.localCopy s)).run.run c = (.ok (plainScan s L), c) := by
    have hthere : ∀ d, d = c.disk → (Bench.quiet.disk d).HasFile p.localCopy m L := by
      rintro _ rfl
      exact hlocal
    obtain ⟨r, hr, hok, hgo⟩ := (Bench.findMatches_spec Bench.quiet_still.steady hthere hL (.inl hpos)).run
    obtain ⟨found, rfl⟩ := hgo (Bench.quiet_patient c.disk)
    refine run_pass_ok ?_
    rw [Work.on, hr, hok found rfl]
  have hfits : ∀ m ∈ plainScan s L, m.Fits s := fun m hm => BlockMatch.fits_of_mem_plainScan hm
  refine ⟨⟨s.blocks.length, (Plan.found (plainScan s L)).toList.length, s.reusable L,
    (s.marked (plainScan s L)).countAll .needed⟩, ?_, rfl, ?_⟩
  · rw [planOf, run_bind_ok hsigned, run_bind_ok hmatched, Plan.ofMatches_eq hfits]
    rfl
  · have hsum := Plan.countAll_marked hfits
    have hlength : s.fileLength.toNat = D.size := by
      rw [hs]
      exact Signature.fileLength_describe (Nat.le_trans hD (by decide))
    rw [Nat.add_comm, ← hlength]
    exact hsum

/-! ## The run of the command -/

theorem joinAll_eq {servers : List Server} {s s' : Swarm} (h : joinAll s servers = .ok s') :
    s' = s.play (servers.map fun v => .move (.join v)) := by
  induction servers generalizing s with
  | nil => exact (Except.ok.inj h).symm
  | cons v servers ih =>
    rw [joinAll, List.foldlM_cons] at h
    rcases hv : s.join v with ⟨u, _ | e⟩
    · rw [hv] at h
      have hu : s.turn (.move (.join v)) = u := congrArg Prod.fst hv
      rw [List.map_cons, Swarm.play_cons, hu]
      exact ih h
    · rw [hv] at h
      exact nomatch h

theorem joiners_map (servers : List Server) :
    Swarm.joiners (servers.map fun v => .move (.join v)) = servers := by
  induction servers with
  | nil => rfl
  | cons v servers ih => exact congrArg (v :: ·) ih

theorem joiners_append (turns more : List Swarm.Turn) :
    Swarm.joiners (turns ++ more) = Swarm.joiners turns ++ Swarm.joiners more := List.filterMap_append

/-- Nobody joins a swarm that runs by itself. -/
theorem exists_runFor (limit : Nat) (deadline : Option Nat) (s : Swarm) :
    ∃ turns, Swarm.joiners turns = [] ∧ Swarm.runFor limit deadline s = s.play turns := by
  induction limit generalizing s with
  | zero => exact ⟨[], rfl, rfl⟩
  | succ limit ih =>
    unfold Swarm.runFor
    cases hnext : s.next? with
    | none => exact ⟨[], rfl, rfl⟩
    | some next =>
      obtain ⟨time, move⟩ := next
      dsimp only
      split
      · exact ⟨[], rfl, rfl⟩
      · obtain ⟨turns, hjoiners, hrun⟩ := ih (s.step move)
        refine ⟨.move move :: turns, ?_, hrun⟩
        rw [Swarm.joiners_cons (fun v hv => ?_), hjoiners]
        obtain rfl := Swarm.Turn.move.inj hv
        unfold Swarm.next? at hnext
        split at hnext
        · obtain ⟨_, -, hmove⟩ := Option.map_eq_some_iff.1 hnext
          exact nomatch (Prod.mk.inj hmove).2
        · exact nomatch (Prod.mk.inj (Option.some.inj hnext)).2

/-- A transfer that is complete when nobody waits for it any more was not given up. -/
theorem await_completed {a : SyncArguments} {s : Swarm} (h : (await a s).transfer.phase = .completed) :
    (await a s).transfer = (s.run (some (deadline a))).transfer := by
  cases hf : (s.run (some (deadline a))).transfer.phase.isFinal with
  | true => simp [await, watchFor, Watch.givesUp, Watch.next, hf]
  | false =>
    have haborted : (s.run (some (deadline a))).giveUp.transfer.phase ≠ .completed := by
      rw [Swarm.giveUp, Swarm.settle_eq]
      exact Course.not_completed_cleanUp (c := ⟨(s.run (some (deadline a))).transfer, []⟩) hf
    refine absurd ?_ haborted
    simpa [await, watchFor, Watch.givesUp, Watch.next, hf] using h

/-! ## The transfer -/

/-- A plan and a transfer of the same files, with no option that says where blocks are to come from. -/
structure Counterparts (p : PlanArguments) (a : SyncArguments) : Prop where
  reference : p.reference = a.reference
  localCopy : p.localCopy = a.target
  blockLength : p.blockLength = none
  candidate : a.candidate = none
  delta : a.noDelta = false
  parts : a.streaming = false

/-- A disk with the reference `D`, which is node `k`, and the local copy `L`, which is node `m`. The temp file is none
of these. -/
structure Furnished (d : Disk) (a : SyncArguments) (k m : Nat) (D L : ByteArray) : Prop where
  reference : d.HasFile a.reference k D
  target : d.HasFile a.target m L
  size_le : D.size ≤ Disk.sizeLimit
  local_le : L.size ≤ Disk.sizeLimit
  temp : ∀ h made, d.openTemp (tempPath a.target) = (.ok h, made) →
    h.node ≠ k ∧ h.node ≠ m ∧ (made.bytesAt? h.node).isSome

section Settled

variable {p : PlanArguments} {a : SyncArguments} {d made : Disk} {k m : Nat} {D L : ByteArray} {tuning : Tuning}
  {modified : Stamp} {t : Transfer}

theorem Counterparts.targetOf_eq (h : Counterparts p a) (size : Nat) (modified : Stamp) :
    targetOf a size modified = .ofPath a.target size modified := by
  rw [targetOf, if_neg (by simp [h.delta]), h.candidate]

theorem Counterparts.servers (h : Counterparts p a) {v : Server} (hv : v ∈ serversOf a) :
    Swarm.Fresh v ∧ v.caps = .full ∧ v.blockLength = none := by
  obtain ⟨i, -, rfl⟩ := List.mem_map.1 hv
  refine ⟨⟨rfl, rfl, rfl⟩, ?_, rfl⟩
  show (if a.streaming then Capabilities.streaming else .full) = .full
  rw [h.parts]
  rfl

/-- The disk and the transfer that is made on it. The local copy is looked at unless the file is too small. -/
theorem Furnished.prepared (h : Furnished d a k m D L) (hchunk : 1 ≤ tuning.maxChunk)
    (hcreate : Transfer.create (.ofPath a.target D.size modified) tuning .swarming d = (.ok t, made)) :
    Swarm.Prepared (.ofPath a.target D.size modified) tuning made a.reference D ∧ made.HasFile a.target m L ∧
      t.delta = decide (tuning.minDelta ≤ D.size) := by
  unfold Transfer.create at hcreate
  split at hcreate
  · exact nomatch (Prod.mk.inj hcreate).1
  · next temp made' hopen =>
    obtain ⟨ht, rfl⟩ := Prod.mk.inj hcreate
    obtain ⟨hk, hm, hfile⟩ := h.temp temp made' hopen
    obtain ⟨b, hb⟩ := Option.isSome_iff_exists.1 hfile
    obtain ⟨hleads, -, -⟩ := Disk.openTemp_eq_ok hopen
    have hreference : made'.HasFile a.reference k D := h.reference.openTemp hopen (Ne.symm hk)
    have htarget : made'.HasFile a.target m L := h.target.openTemp hopen (Ne.symm hm)
    have htemp : made'.HasFile (tempPath a.target) temp.node b := ⟨hleads, hb⟩
    -- different files cannot have the same path
    have hother : Path.same a.target (tempPath a.target) = false := by
      by_contra hsame
      rw [Bool.not_eq_false] at hsame
      exact hm (Disk.number_eq_of_same hsame htarget.leads.number hleads.number).symm
    refine ⟨⟨hchunk, rfl, h.size_le, htemp.isFile_eq, ⟨k, hreference, fun hl => hk (hl.unique hleads).symm⟩, ?_⟩,
      htarget, ?_⟩
    · intro c n x hc hx
      obtain rfl : a.target = c := Option.some.inj hc
      obtain rfl := hx.leads.unique htarget.leads
      obtain rfl : x = L := Option.some.inj (hx.bytes.symm.trans htarget.bytes)
      exact ⟨fun hl => hm (hl.unique hleads).symm, h.local_le⟩
    · rw [← Except.ok.inj ht]
      show (decide (tuning.minDelta ≤ D.size) && (!Path.same a.target (tempPath a.target) && made'.isFile a.target)) = _
      rw [hother, htarget.isFile_eq, Bool.not_false, Bool.and_true, Bool.and_true]

/-- In every run of the swarm, a transfer that completes has reused what can be reused of the local copy, if that is
looked at, and has asked for all other bytes. -/
theorem Furnished.settled (h : Furnished d a k m D L) (hp : Counterparts p a) (hchunk : 1 ≤ tuning.maxChunk)
    (hsafe : CollisionFree (Signature.clampLength (Signature.defaultBlockLength D.size)) D L)
    (hcreate : Transfer.create (targetOf a D.size modified) tuning .swarming d = (.ok t, made))
    {turns : List Swarm.Turn} (hjoin : ∀ v ∈ Swarm.joiners turns, v ∈ serversOf a)
    (hcompleted : ((Swarm.ofTransfer t a.reference).play turns).transfer.phase = .completed) :
    ((Swarm.ofTransfer t a.reference).play turns).transfer.Settled
      (if tuning.minDelta ≤ D.size then
        (Signature.describe (Signature.clampLength (Signature.defaultBlockLength D.size)) D).reusable L else 0)
      D.size := by
  rw [hp.targetOf_eq] at hcreate
  obtain ⟨hprepared, htarget, hdelta⟩ := h.prepared hchunk hcreate
  obtain ⟨w, rfl, hwtarget, rfl, hunjoined, hsourced⟩ := Swarm.exists_scene hcreate hprepared
  have hlocal : ∀ c n x, w.target.candidate = some c → w.disk.HasFile c n x → x = L := by
    intro c n x hc hx
    rw [hwtarget] at hc
    obtain rfl : a.target = c := Option.some.inj hc
    obtain rfl := hx.leads.unique htarget.leads
    exact Option.some.inj (hx.bytes.symm.trans htarget.bytes)
  have hstart := Swarm.thrifty_start (b := L) hcreate hunjoined hsourced rfl
  have hplay := hstart.play hlocal h.local_le (fun c n x hc hx => hlocal c n x hc hx ▸ hsafe) turns
    fun v hv => hp.servers (hjoin v hv)
  have hsettled := hplay.settled hcompleted
  rw [hdelta, Scene.signature] at hsettled
  simp only [decide_eq_true_eq] at hsettled
  exact hsettled

end Settled

theorem override_minDelta (tuning : Tuning) (maxChunk maxRequests : Option Nat) (selection : Option Selection) :
    (tuning.override maxChunk maxRequests selection).minDelta = tuning.minDelta := by
  unfold Tuning.override
  cases maxChunk <;> cases maxRequests <;> cases selection <;> rfl

theorem override_maxChunk {tuning : Tuning} (h : 1 ≤ tuning.maxChunk) (maxChunk maxRequests : Option Nat)
    (selection : Option Selection) : 1 ≤ (tuning.override maxChunk maxRequests selection).maxChunk := by
  have hbound : ∀ n, 1 ≤ max n 1 := fun n => Nat.le_max_right n 1
  unfold Tuning.override
  cases maxChunk <;> cases maxRequests <;> cases selection <;> first | exact h | exact hbound _

/-- The command fetches in a run of the swarm in which all its servers join. -/
theorem fetch_eq_ok {tuning : Tuning} {a : SyncArguments} {c c' : Console} {u : Transfer} {size : Nat}
    (hsize : c.disk.size a.reference = .ok size) (h : (fetch tuning a).run.run c = (.ok u, c'))
    (hcompleted : u.phase = .completed) :
    ∃ modified t made turns, Transfer.create (targetOf a size modified)
        (tuning.override a.maxChunk a.maxRequests a.selection) .swarming c.disk = (.ok t, made) ∧
      Swarm.joiners turns = serversOf a ∧ u = ((Swarm.ofTransfer t a.reference).play turns).transfer := by
  unfold fetch at h
  by_cases hnone : a.servers = 0
  · rw [if_pos hnone] at h
    obtain ⟨_, _, hthrow, -⟩ := bind_eq_ok h
    exact nomatch (Prod.mk.inj hthrow).1
  · rw [if_neg hnone] at h
    dsimp only at h
    obtain ⟨n, c₁, hask, h⟩ := bind_eq_ok h
    obtain ⟨hn, rfl⟩ := Prod.mk.inj ((run_ask_ok hsize).symm.trans hask)
    obtain rfl : size = n := Except.ok.inj hn
    obtain ⟨c₂, c₃, hget, h⟩ := bind_eq_ok h
    obtain ⟨hsame, rfl⟩ := Prod.mk.inj hget
    obtain rfl : c = c₂ := Except.ok.inj hsame
    obtain ⟨t, c₄, hcreate, h⟩ := bind_eq_ok h
    obtain ⟨s, c₅, hjoin, h⟩ := bind_eq_ok h
    obtain ⟨_, c₆, hmodify, h⟩ := bind_eq_ok h
    obtain ⟨made, hcreate, -⟩ := changeBy_eq_ok hcreate
    obtain ⟨hjoin, -⟩ := orFail_eq_ok hjoin
    obtain rfl : (await a s).transfer = u := Except.ok.inj (Prod.mk.inj h).1
    obtain ⟨turns, hjoiners, hrun⟩ := exists_runFor Swarm.patience (some (deadline a)) s
    refine ⟨_, t, made, (serversOf a).map (fun v => .move (.join v)) ++ turns, hcreate, ?_, ?_⟩
    · rw [joiners_append, joiners_map, hjoiners, List.append_nil]
    · rw [await_completed hcompleted, Swarm.run, hrun, joinAll_eq hjoin, Swarm.play, Swarm.play, Swarm.play,
        List.foldl_append]

/-! ## The plan and the transfer -/

/-- A transfer that is complete has reused and asked for so many bytes. -/
def Totals (reused asked : Nat) (u : Transfer) : Prop :=
  u.phase = .completed → u.metrics.bytesReused.toNat = reused ∧ u.requested = asked

/-- The transfer of a file of `size` bytes comes to that, whatever its servers and its workers do one after another, and
so does the one that the command fetches. -/
def ComesTo (tuning : Tuning) (a : SyncArguments) (c : Console) (size reused asked : Nat) : Prop :=
  (∀ modified t made, Transfer.create (targetOf a size modified)
      (tuning.override a.maxChunk a.maxRequests a.selection) .swarming c.disk = (.ok t, made) →
    ∀ turns, (∀ v ∈ Swarm.joiners turns, v ∈ serversOf a) →
      Totals reused asked ((Swarm.ofTransfer t a.reference).play turns).transfer) ∧
  ∀ u c', (fetch tuning a).run.run c = (.ok u, c') → Totals reused asked u

/-- If the block length that is configured is the one that fits the file, a plan says what the transfer of the same
files comes to: the bytes that can be reused are reused, and those to be fetched are asked for. But of a file
smaller than what is configured for that, nothing is reused, and all of it is asked for. -/
theorem plan_foretells_fetch {tuning : Tuning} {p : PlanArguments} {a : SyncArguments} {c : Console} {k m : Nat}
    {D L : ByteArray} (hp : Counterparts p a) (h : Furnished c.disk a k m D L) (hchunk : 1 ≤ tuning.maxChunk)
    (hlength : Signature.clampLength (tuning.blockLengthFor D.size) =
      Signature.clampLength (Signature.defaultBlockLength D.size))
    (hsafe : CollisionFree (Signature.clampLength (Signature.defaultBlockLength D.size)) D L) :
    ∃ s plan, (planOf tuning p).run.run c = (.ok (s, plan), c) ∧ plan.reusable + plan.fetch = D.size ∧
      ComesTo tuning a c D.size (if tuning.minDelta ≤ D.size then plan.reusable else 0)
        (if tuning.minDelta ≤ D.size then plan.fetch else D.size) := by
  have hs : Signature.describe (Signature.clampLength (Signature.defaultBlockLength D.size)) D =
      .describe (Signature.clampLength (p.blockLength.getD (tuning.blockLengthFor D.size))) D := by
    rw [hp.blockLength, Option.getD_none, hlength]
  obtain ⟨plan, hplan, hreusable, hsum⟩ := planOf_eq (hp.reference ▸ h.reference) h.size_le (hp.localCopy ▸ h.target)
    h.local_le tuning hs
  have hplay : ∀ modified t made, Transfer.create (targetOf a D.size modified)
        (tuning.override a.maxChunk a.maxRequests a.selection) .swarming c.disk = (.ok t, made) →
      ∀ turns, (∀ v ∈ Swarm.joiners turns, v ∈ serversOf a) →
        Totals (if tuning.minDelta ≤ D.size then plan.reusable else 0)
          (if tuning.minDelta ≤ D.size then plan.fetch else D.size)
          ((Swarm.ofTransfer t a.reference).play turns).transfer := by
    intro modified t made hcreate turns hjoin hcompleted
    have hsettled := h.settled hp (override_maxChunk hchunk _ _ _) hsafe hcreate hjoin hcompleted
    rw [override_minDelta, ← hreusable] at hsettled
    refine ⟨hsettled.reused, ?_⟩
    have hrequested := hsettled.requested
    by_cases hlarge : tuning.minDelta ≤ D.size
    · rw [if_pos hlarge] at hrequested ⊢
      omega
    · rw [if_neg hlarge] at hrequested ⊢
      exact hrequested
  refine ⟨_, plan, hplan, hsum, hplay, fun u c' hfetch hcompleted => ?_⟩
  obtain ⟨modified, t, made, turns, hcreate, hjoiners, rfl⟩ := fetch_eq_ok h.reference.size hfetch hcompleted
  exact hplay modified t made hcreate turns (fun v hv => hjoiners ▸ hv) hcompleted

/-! ## A file of one byte, and a local copy of it -/

def mirrorDisk : Disk :=
  ⟨#[.directory none, .file ⟨#[1]⟩ none, .file ⟨#[1]⟩ none], [([], 0), (["d"], 1), (["f"], 2)], []⟩

def mirrorConsole : Console := ⟨mirrorDisk, none, "", ""⟩

def mirrorPlan : PlanArguments := ⟨"d", "f", none, false⟩

/-- Three servers, and nothing else said. -/
def mirrorSync : SyncArguments where
  reference := "d"
  target := "f"
  servers := 3
  latency := 0
  candidate := none
  noDelta := false
  streaming := false
  selection := none
  maxChunk := none
  maxRequests := none
  timeout := 3600
  keepTemp := false

theorem counterparts_mirror : Counterparts mirrorPlan mirrorSync := ⟨rfl, rfl, rfl, rfl, rfl, rfl⟩

/-- The disk once the temp file is made. -/
def mirrorMade : Disk :=
  ⟨#[.directory none, .file ⟨#[1]⟩ none, .file ⟨#[1]⟩ none, .file ByteArray.empty none],
    [([], 0), (["d"], 1), (["f"], 2), (["(incomplete) f"], 3)], []⟩

theorem openTemp_mirror : mirrorDisk.openTemp "(incomplete) f" = (.ok ⟨3, true⟩, mirrorMade) :=
  Course.openTemp_plain (by decide +kernel) (by decide +kernel)

theorem temp_mirror : tempPath "f" = "(incomplete) f" := Course.temp_plain 1

theorem furnished_mirror : Furnished mirrorDisk mirrorSync 1 2 ⟨#[1]⟩ ⟨#[1]⟩ := by
  refine ⟨⟨⟨by cbv, rfl⟩, rfl⟩, ⟨⟨by cbv, rfl⟩, rfl⟩, by decide, by decide, fun h made ho => ?_⟩
  rw [show mirrorSync.target = "f" from rfl, temp_mirror, openTemp_mirror] at ho
  obtain ⟨hh, rfl⟩ := Prod.mk.inj ho
  obtain rfl := Except.ok.inj hh
  exact ⟨by decide, by decide, rfl⟩

theorem collisionFree_one (k : Nat) : CollisionFree k ⟨#[1]⟩ ⟨#[1]⟩ := by
  intro i o hle _
  have hone : (⟨#[1]⟩ : ByteArray).size = 1 := rfl
  apply Bytes.ext_byte?
  intro x
  rw [ByteArray.size_extract, hone] at hle ⊢
  rw [Bytes.byte?_extract, Bytes.byte?_extract, hone]
  by_cases hx : x < min (i * k + k) 1 - i * k
  · rw [if_pos (by omega), if_pos hx]
    congr 1
    omega
  · rw [if_neg (by omega), if_neg hx]

theorem mirror_foretold :
    ∃ s plan, (planOf { Tuning.standard with minDelta := 1 } mirrorPlan).run.run mirrorConsole =
        (.ok (s, plan), mirrorConsole) ∧ plan.reusable + plan.fetch = 1 ∧
      ComesTo { Tuning.standard with minDelta := 1 } mirrorSync mirrorConsole 1 plan.reusable plan.fetch :=
  plan_foretells_fetch (c := mirrorConsole) counterparts_mirror furnished_mirror (by decide) rfl (collisionFree_one _)

theorem reusable_mirror :
    (Signature.describe (Signature.clampLength (Signature.defaultBlockLength 1)) ⟨#[1]⟩).reusable ⟨#[1]⟩ = 1 := by
  have hlength : Signature.clampLength (Signature.defaultBlockLength 1) = 512 := by decide +kernel
  have hwindows : ∀ blocks, plainWindows blocks 512 ⟨#[1]⟩ 0 = [] := fun blocks => by
    rw [plainWindows, dif_neg (by decide)]
  have htail : plainTail (.describe 512 ⟨#[1]⟩) ⟨#[1]⟩ = [⟨⟨0, 1⟩, 0⟩] := by decide +kernel
  have hscan : plainScan (.describe 512 ⟨#[1]⟩) ⟨#[1]⟩ = [⟨⟨0, 1⟩, 0⟩] := by
    rw [plainScan, htail, show (Signature.describe 512 ⟨#[1]⟩).blockLength.toNat = 512 from rfl, hwindows,
      List.nil_append, List.mergeSort_singleton]
  rw [hlength, Signature.reusable, hscan]
  decide +kernel

/-- A file of one byte is too small for its copy to be looked at, by the standard tuning. -/
def mirrorTransfer : Transfer :=
  { Course.plainTransfer 1 .standard .swarming with
    target := .ofPath "f" 1 ⟨0, 0⟩
    temp := some ⟨3, true⟩
    disk := mirrorMade }

theorem create_mirror : Transfer.create (targetOf mirrorSync 1 ⟨0, 0⟩)
    (Tuning.standard.override mirrorSync.maxChunk mirrorSync.maxRequests mirrorSync.selection) .swarming mirrorDisk =
      (.ok mirrorTransfer, mirrorMade) := by
  have htemp : (Target.ofPath "f" 1 ⟨0, 0⟩).temp = "(incomplete) f" := temp_mirror
  have htarget : targetOf mirrorSync 1 ⟨0, 0⟩ = .ofPath "f" 1 ⟨0, 0⟩ := counterparts_mirror.targetOf_eq 1 ⟨0, 0⟩
  rw [htarget, show Tuning.standard.override mirrorSync.maxChunk mirrorSync.maxRequests mirrorSync.selection =
    Tuning.standard from rfl]
  simp only [Transfer.create, htemp, openTemp_mirror]
  rfl

/-- All servers join. The first one may be asked then, and sends the byte. -/
def mirrorTurns : List Swarm.Turn :=
  (serversOf mirrorSync).map (fun v => .move (.join v)) ++ [.move (.serve 0), .move (.serve 0)]

theorem servers_mirror :
    serversOf mirrorSync = [.fresh "peer-1" .full, .fresh "peer-2" .full, .fresh "peer-3" .full] := by decide +kernel

def mirrorJoined : Swarm :=
  ((((Swarm.ofTransfer mirrorTransfer "d").join (.fresh "peer-1" .full)).1.join (.fresh "peer-2" .full)).1.join
    (.fresh "peer-3" .full)).1

/-- The first server was asked for the byte. -/
def mirrorStarted : Swarm :=
  mirrorJoined.answered 0 0 { Server.fresh "peer-1" .full with link := 0 } (.ready ⟨0, 0⟩)

/-- The byte is there. -/
def mirrorEnd : Swarm :=
  mirrorStarted.answered 0 0 { Server.fresh "peer-1" .full with link := 0 } (.chunk 0 ⟨#[1]⟩)

theorem play_mirror : (Swarm.ofTransfer mirrorTransfer "d").play mirrorTurns = mirrorEnd := by
  have hserved : mirrorMade.HasFile "d" 1 ⟨#[1]⟩ := ⟨⟨by cbv, rfl⟩, rfl⟩
  have hfirst : mirrorJoined.serve 0 = mirrorStarted :=
    Swarm.serve_asked (c := .file 0) (by decide +kernel) rfl hserved fun d hd => Server.beginning_parts rfl hd 0
  have hsecond : mirrorStarted.serve 0 = mirrorEnd := by
    refine Swarm.serve_asked (c := .range ⟨0, 1⟩ true) (D := ⟨#[1]⟩) (k := 1) (by decide +kernel) rfl ?_
      fun d hd => Server.chunk_eq hd (by decide) (r := ⟨0, 1⟩) (by decide)
    exact ⟨⟨by cbv, rfl⟩, rfl⟩
  rw [mirrorTurns, servers_mirror]
  simp only [List.map_cons, List.map_nil, List.cons_append, List.nil_append, Swarm.play_cons, Swarm.play_nil,
    Swarm.turn, Swarm.step]
  show (mirrorJoined.serve 0).serve 0 = mirrorEnd
  rw [hfirst, hsecond]

/-- Of a small file that is at the target already, all can be reused by the plan, and the transfer reuses nothing. -/
theorem plan_misleads : ¬ ∀ s plan, (planOf .standard mirrorPlan).run.run mirrorConsole =
    (.ok (s, plan), mirrorConsole) → ComesTo .standard mirrorSync mirrorConsole 1 plan.reusable plan.fetch := by
  intro h
  obtain ⟨plan, hplan, hreusable, -⟩ := planOf_eq (c := mirrorConsole) (p := mirrorPlan) furnished_mirror.reference
    furnished_mirror.size_le furnished_mirror.target furnished_mirror.local_le .standard rfl
  have hjoin : ∀ v ∈ Swarm.joiners mirrorTurns, v ∈ serversOf mirrorSync := fun v hv => by
    rwa [mirrorTurns, joiners_append, joiners_map,
      show Swarm.joiners [.move (.serve 0), .move (.serve 0)] = [] from rfl, List.append_nil] at hv
  have hend : mirrorEnd.transfer.phase = .completed ∧ mirrorEnd.transfer.metrics.bytesReused = 0 := by decide +kernel
  have htotals := (h _ plan hplan).1 ⟨0, 0⟩ mirrorTransfer mirrorMade create_mirror mirrorTurns hjoin
  rw [show mirrorSync.reference = "d" from rfl, play_mirror] at htotals
  have hreused := (htotals hend.1).1
  rw [hend.2, hreusable] at hreused
  exact nomatch hreused.trans reusable_mirror

end FileSwarm.CommandLine
