import FileSwarm.Proofs.Transfer.Ledger
import FileSwarm.Proofs.Transfer.Requesting

/-!
# How far a transfer is said to be, and how far it is

The tally goes up by the length of every chunk that is put into the temp file, whether or not its bytes were there
before. So it is the number of bytes that are there, and of those that came again.

* `Tallied k t` : the tally is `k` bytes ahead of the part map; `Steady t u` : nothing that is tallied came meanwhile;
  `steady_sendRequests`, `steady_ensureSignature`, `steady_detach`, `steady_installed` : all that is not a chunk;
* `tallied_credited` : what a chunk adds;
* `Course.surplus`, `Course.repeated` : the bytes that came again, of one event and of a course;
* `progress_accounted` : the tally of every open transfer, to the byte;
* `progress_overstated` : it is past the size of the file while a byte is missing.
-/

namespace FileSwarm

namespace Transfer

variable {t u v : Transfer} {k : Nat}

/-- The tally is `k` bytes ahead of the part map. -/
structure Tallied (k : Nat) (t : Transfer) : Prop where
  unmapped : t.parts = none → t.tally.transferred = 0 ∧ k = 0
  mapped : ∀ m, t.parts = some m → t.tally.transferred = min maxOffset (m.countAll .available + k)

/-- No chunk came that counts, and no hash was wrong. -/
structure Steady (t u : Transfer) : Prop where
  received : u.metrics.chunksReceived = t.metrics.chunksReceived
  mismatches : u.mismatches = t.mismatches
  tallied : ∀ {k}, t.Tallied k → u.Tallied k

theorem Steady.refl (t : Transfer) : Steady t t := ⟨rfl, rfl, id⟩

theorem Steady.trans (h : Steady t u) (k : Steady u v) : Steady t v :=
  ⟨k.received.trans h.received, k.mismatches.trans h.mismatches, k.tallied ∘ h.tallied⟩

theorem Tallied.congr (h : t.Tallied k) (hparts : u.parts = t.parts) (htally : u.tally = t.tally) : u.Tallied k := by
  refine ⟨fun hnone => ?_, fun m hm => ?_⟩
  · rw [htally]
    exact h.unmapped (hparts ▸ hnone)
  · rw [htally]
    exact h.mapped m (hparts ▸ hm)

theorem steady_congr (hparts : u.parts = t.parts) (htally : u.tally = t.tally)
    (hreceived : u.metrics.chunksReceived = t.metrics.chunksReceived) (hmismatches : u.mismatches = t.mismatches) :
    Steady t u :=
  ⟨hreceived, hmismatches, fun h => h.congr hparts htally⟩

theorem Tallied.remap (h : t.Tallied k) {m n : PartMap} (hm : t.parts = some m) (hn : u.parts = some n)
    (hlen : n.length = m.length) (hsame : ∀ o, n.state? o = some .available ↔ m.state? o = some .available)
    (htally : u.tally = t.tally) : u.Tallied k := by
  refine ⟨fun hnone => (nomatch hn.symm.trans hnone), fun l hl => ?_⟩
  obtain rfl := Option.some.inj (hn.symm.trans hl)
  rw [htally, PartMap.countAll_congr hlen hsame]
  exact h.mapped m hm

theorem steady_setPhase (t : Transfer) (p : Phase) : Steady t (t.setPhase p) :=
  steady_congr (by simp) (by simp) (by simp) (by simp)

theorem steady_assigns {m : PartMap} {r : ByteRange} {i : Nat} {s : Share} (h : Assigns t m r i s u) : Steady t u := by
  obtain ⟨-, hneeded⟩ := h.needed
  obtain ⟨hm, -, -, -, links, sent, rfl⟩ := h
  refine ⟨rfl, rfl, fun ht => ht.remap hm rfl (PartMap.length_set _ _ _) (fun o => ?_) rfl⟩
  rw [PartMap.state?_set]
  split
  · next hin =>
    rw [hneeded o hin.1]
    exact ⟨nofun, nofun⟩
  · rfl

theorem steady_sendRequests (t : Transfer) : Steady t t.sendRequests := by
  apply sendRequests_induction (P := Steady t)
  · intro u links sent h
    exact h.trans (steady_congr rfl rfl rfl rfl)
  · intro u m r i s v ha h
    exact h.trans (steady_assigns ha)
  · exact .refl t

theorem countAll_blank (n : Nat) : (PartMap.blank n).countAll .available = 0 :=
  PartMap.countAll_eq_zero fun _ ho => nomatch PartMap.eq_needed_of_blank ho

theorem steady_fetchAll (hunmapped : t.parts = none) : Steady t t.fetchAll := by
  refine ⟨by simp, by simp, fun ht => ⟨fun hnone => by simp at hnone, fun m hm => ?_⟩⟩
  obtain ⟨-, rfl⟩ := ht.unmapped hunmapped
  rw [fetchAll_parts] at hm
  rw [← Option.some.inj hm, countAll_blank]
  simp [fetchAll, Tally.start]

theorem steady_ensureSignature (t : Transfer) : Steady t t.ensureSignature := by
  rcases ensureSignature_cases t with e | ⟨⟨-, hunmapped, -⟩, owing, e⟩
  · rw [e]
    exact .refl t
  · have howing : Steady t { t with owing } := steady_congr rfl rfl rfl rfl
    rw [e]
    rcases askSignature_cases { t with owing } with ⟨s, -, -, -, -, e⟩ | e | ⟨-, e⟩
    · rw [e]
      exact steady_congr (by simp) (by simp) (by simp [Metrics.askSignature]) (by simp)
    · rw [e]
      exact howing
    · rw [e]
      exact howing.trans (steady_fetchAll hunmapped)

/-- What a peer owed and is needed again was not there. -/
theorem steady_detach (t : Transfer) (s : Share) : Steady t (t.detach s) := by
  refine ⟨rfl, rfl, fun ht => ?_⟩
  cases hm : t.parts with
  | none => exact ht.congr (by simp [detach, hm]) rfl
  | some m =>
    refine ht.remap hm (n := s.pending.foldl revert m) (by simp [detach, hm]) (sheds_revertAll _ m).length
      (fun o => ?_) rfl
    rw [state?_revertAll]
    split
    · next hpending =>
      rw [hpending.1]
      simp
    · rfl

/-- What the local copy had is there, and nothing else is. -/
theorem steady_installed (hunmapped : t.parts = none) {m : PartMap} (hm : m.length ≤ maxOffset) :
    Steady t (t.installed m) := by
  refine ⟨rfl, rfl, fun ht => ⟨nofun, fun n hn => ?_⟩⟩
  obtain ⟨-, rfl⟩ := ht.unmapped hunmapped
  obtain rfl : m = n := Option.some.inj hn
  have hle := m.countAll_sum
  show m.count m.range .available = _
  rw [PartMap.count_range]
  omega

/-- A chunk adds its length to the tally, and to the map what was not there. -/
theorem tallied_credited (ht : t.Tallied k) {m : PartMap} (hm : t.parts = some m) {r : ByteRange}
    (hr : r.stop ≤ m.length) (id : String) : (t.credited id r m).Tallied (k + m.count r .available) := by
  refine ⟨nofun, fun n hn => ?_⟩
  obtain rfl : m.set r .available = n := Option.some.inj hn
  have hadd := PartMap.countAll_set_add hr .available .available
  rw [if_pos rfl] at hadd
  have htally := ht.mapped m hm
  show addCapped t.tally.transferred r.length = _
  rw [addCapped, htally]
  omega

theorem tallied_create {target : Target} {tuning : Tuning} {admission : Admission} {disk made : Disk}
    (h : create target tuning admission disk = (.ok t, made)) : t.Tallied 0 := by
  have huntouched := create_untouched h
  refine ⟨fun _ => ⟨?_, rfl⟩, fun m hm => ?_⟩
  · rw [huntouched.tally]
    rfl
  · rw [huntouched.tally, huntouched.parts_eq hm, countAll_blank]
    rfl

end Transfer

namespace Course

variable {n : Nat} {c : Course} {e : Event} {k : Nat}

/-! ## Bytes that come again -/

/-- How many of the bytes that an event brings are there already: those of a chunk that is put into the temp file,
as the metrics count it. -/
def surplus (c : Course) (e : Event) : Nat :=
  match e, c.transfer.parts with
  | .chunk _ offset bytes, some m =>
    if (c.step e).transfer.metrics.chunksReceived = c.transfer.metrics.chunksReceived then 0
    else m.count ⟨offset, bytes.size⟩ .available
  | _, _ => 0

/-- One event more. A wrong hash, which makes all of the file needed, starts the count over. -/
def recount (c : Course) (k : Nat) (e : Event) : Nat :=
  if (c.step e).transfer.mismatches = c.transfer.mismatches then k + c.surplus e else 0

/-- How many bytes come again, after `k` that did before. -/
def repeatedFrom (c : Course) (k : Nat) : List Event → Nat
  | [] => k
  | e :: events => (c.step e).repeatedFrom (c.recount k e) events

/-- How many bytes came again since all of the file was needed. -/
def repeated (c : Course) (events : List Event) : Nat := c.repeatedFrom 0 events

theorem repeatedFrom_snoc (c : Course) (k : Nat) (events : List Event) (e : Event) :
    c.repeatedFrom k (events ++ [e]) = (c.run events).recount (c.repeatedFrom k events) e := by
  induction events generalizing c k with
  | nil => rfl
  | cons x events ih => exact ih (c.step x) (c.recount k x)

theorem repeated_snoc (c : Course) (events : List Event) (e : Event) :
    c.repeated (events ++ [e]) = (c.run events).recount (c.repeated events) e := repeatedFrom_snoc c 0 events e

theorem surplus_eq_zero (h : (c.step e).transfer.metrics.chunksReceived = c.transfer.metrics.chunksReceived) :
    c.surplus e = 0 := by
  unfold surplus
  split
  · rw [if_pos h]
  · rfl

theorem recount_steady {u : Transfer} {l : List Task} (hstep : c.step e = settle u l) (h : c.transfer.Steady u) :
    c.recount k e = k := by
  have hreceived : (c.step e).transfer.metrics.chunksReceived = c.transfer.metrics.chunksReceived := by
    rw [hstep]
    exact h.received
  have hmismatches : (c.step e).transfer.mismatches = c.transfer.mismatches := by
    rw [hstep]
    exact h.mismatches
  rw [recount, if_pos hmismatches, surplus_eq_zero hreceived, Nat.add_zero]

theorem recount_chunk {id : String} {offset : Nat} {bytes : ByteArray} {m : PartMap} {u : Transfer} {l : List Task}
    (hm : c.transfer.parts = some m) (hstep : c.step (.chunk id offset bytes) = settle u l)
    (hreceived : u.metrics.chunksReceived = c.transfer.metrics.chunksReceived + 1)
    (hmismatches : u.mismatches = c.transfer.mismatches) :
    c.recount k (.chunk id offset bytes) = k + m.count ⟨offset, bytes.size⟩ .available := by
  have hmore : (c.step (.chunk id offset bytes)).transfer.metrics.chunksReceived ≠
      c.transfer.metrics.chunksReceived := by
    rw [hstep, show (settle u l).transfer.metrics.chunksReceived = _ from hreceived]
    simp
  have hsame : (c.step (.chunk id offset bytes)).transfer.mismatches = c.transfer.mismatches := by
    rw [hstep]
    exact hmismatches
  have hsurplus : c.surplus (.chunk id offset bytes) = m.count ⟨offset, bytes.size⟩ .available := by
    unfold surplus
    simp only [hm, if_neg hmore]
  rw [recount, if_pos hsame, hsurplus]

/-! ## Courses -/

/-- Bytes are there, and the tally is ahead of the map by those that were before. -/
theorem Fills.tallied {v u : Transfer} {m : PartMap} {l k' : List Task} (hf : Fills c e v m l)
    (hopen : c.transfer.phase.isFinal = false) (hn : Sound n c) (hs : Sized c)
    (hmax : c.transfer.target.size ≤ maxOffset) (ht : c.transfer.Tallied k) (hmore : v.Steady u)
    (hstep : c.step e = settle u k') : u.Tallied (c.recount k e) := by
  cases hf with
  | @chunk id offset bytes m temp disk attached pos inside parts =>
    have hlen : m.length = c.transfer.target.size := hs.measured m parts
    have hdisk : ({ c.transfer with disk } : Transfer).Tallied k := ht.congr rfl rfl
    rw [recount_chunk parts hstep hmore.received hmore.mismatches]
    exact hmore.tallied (Transfer.tallied_credited hdisk parts (hlen ▸ inside) id)
  | @copied i m here =>
    have hmem := List.mem_of_getElem? here
    have hunmapped : c.transfer.parts = none := by
      by_contra hmapped
      exact nomatch hn.mapped hopen (Option.isSome_iff_ne_none.2 hmapped) _ hmem
    have hlen := (hs.tasks _ hmem).1
    have hsteady := (Transfer.steady_installed hunmapped (m := m) (hlen ▸ hmax)).trans hmore
    rw [recount_steady hstep hsteady]
    exact hsteady.tallied ht

theorem Opens.tallied {v : Transfer} {l : List Task} (ho : Opens c e v l) (hopen : c.transfer.phase.isFinal = false)
    (hn : Sound n c) (hs : Sized c) (hmax : c.transfer.target.size ≤ maxOffset) (ht : c.transfer.Tallied k)
    (hstep : c.step e = settle v.sendRequests l) : v.sendRequests.Tallied (c.recount k e) := by
  have hsteady : c.transfer.Steady v → v.sendRequests.Tallied (c.recount k e) := fun hv => by
    have hsent := hv.trans (Transfer.steady_sendRequests v)
    rw [recount_steady hstep hsent]
    exact hsent.tallied ht
  cases ho with
  | @join share answers =>
    have hseat : c.transfer.Steady (c.transfer.seat share answers) := Transfer.steady_congr rfl rfl rfl rfl
    have henter : (c.transfer.seat share answers).Steady (c.transfer.seat share answers).enter := by
      unfold Transfer.enter
      split
      · exact Transfer.steady_setPhase _ _
      · exact .refl _
    exact hsteady ((hseat.trans henter).trans (Transfer.steady_ensureSignature _))
  | @ready id =>
    have hready : c.transfer.Steady (c.transfer.updateShare id Share.start) := Transfer.steady_congr rfl rfl rfl rfl
    exact hsteady (hready.trans (Transfer.steady_ensureSignature _))
  | @leave id s => exact hsteady ((Transfer.steady_detach _ s).trans (Transfer.steady_ensureSignature _))
  | chunk fills => exact fills.tallied hopen hn hs hmax ht (Transfer.steady_sendRequests v) hstep
  | @fetch s fits unsigned unmapped =>
    have hlearned : c.transfer.Steady { c.transfer with signature := some s, owing := none } :=
      Transfer.steady_congr rfl rfl rfl rfl
    exact hsteady (hlearned.trans (Transfer.steady_fetchAll unmapped))
  | send => exact hsteady (.refl _)
  | copied fills =>
    exact fills.tallied hopen hn hs hmax ht
      ((Transfer.steady_setPhase _ _).trans (Transfer.steady_sendRequests _)) hstep
  | @failed i here again =>
    have hsent := Transfer.steady_sendRequests (c.transfer.afresh.setPhase .downloading)
    have hanew : (c.transfer.afresh.setPhase .downloading).Tallied 0 := by
      refine (Transfer.steady_setPhase _ _).tallied ⟨nofun, fun m hm => ?_⟩
      obtain rfl : PartMap.blank c.transfer.target.size = m := Option.some.inj hm
      rw [Transfer.countAll_blank]
      rfl
    have hzero : c.recount k (.work i) = 0 := by
      rw [recount, if_neg]
      rw [hstep]
      show (Transfer.sendRequests _).mismatches ≠ _
      rw [hsent.mismatches]
      simp [Transfer.afresh]
    rw [hzero]
    exact hsent.tallied hanew

theorem Outcome.tallied {u : Transfer} {l : List Task} (ho : Outcome c e u l)
    (hopen : c.transfer.phase.isFinal = false) (hn : Sound n c) (hs : Sized c)
    (hmax : c.transfer.target.size ≤ maxOffset) (ht : c.transfer.Tallied k) (hnext : u.phase.isFinal = false)
    (hstep : c.step e = settle u l) : u.Tallied (c.recount k e) := by
  have hsteady : c.transfer.Steady u → u.Tallied (c.recount k e) := fun hu => by
    rw [recount_steady hstep hu]
    exact hu.tallied ht
  cases ho with
  | round opens => exact opens.tallied hopen hn hs hmax ht hstep
  | assembled fills =>
    refine fills.tallied hopen hn hs hmax ht (Transfer.steady_congr ?_ ?_ ?_ ?_) hstep <;> simp [Transfer.queueJob]
  | closed closes => exact absurd hnext closes.not_open
  | searching => refine hsteady (Transfer.steady_congr ?_ ?_ ?_ ?_) <;> simp [Transfer.queueJob]
  | matched => exact hsteady (Transfer.steady_setPhase _ _)
  | _ => exact hsteady (Transfer.steady_congr rfl rfl rfl rfl)

/-- While a transfer goes on its tally is the number of bytes that are there and of those that came again, as long as
this is a number it can hold. So it is the number of bytes that are there if and only if none came again, short of
the greatest number it can hold; the bytes that are there are never more than the file has. -/
theorem progress_accounted {target : Target} {tuning : Tuning} {admission : Admission} {disk made : Disk} {t : Transfer}
    (h : Transfer.create target tuning admission disk = (.ok t, made)) (hmax : target.size ≤ maxOffset)
    (events : List Event) :
    let u := ((start t).run events).transfer
    let k := (start t).repeated events
    u.phase.isFinal = false →
      (u.parts = none → u.tally.transferred = 0) ∧
      ∀ m, u.parts = some m →
        u.tally.transferred = min maxOffset (m.counts.available + k) ∧
        m.counts.available ≤ u.tally.transferred ∧ m.counts.available ≤ target.size ∧
        (u.tally.transferred = m.counts.available ↔ k = 0 ∨ m.counts.available = maxOffset) := by
  have huntouched := Transfer.create_untouched h
  have hstart : Orderly (start t) := orderly_start huntouched
  obtain ⟨n, hsound, -⟩ := sound_start h
  have hsized : Sized (start t) := sized_start huntouched
  intro u k hopen
  have htarget : u.target = target := (hstart.made_run events hopen).target.trans huntouched.target
  have hrun : u.Tallied k := by
    refine hstart.open_history (P := fun done => ((start t).run done).transfer.Tallied ((start t).repeated done))
      (fun _ => (Transfer.tallied_create h).congr rfl rfl) ?_ hopen
    intro before e _ hnow hbefore htallied v l ho hnext hstep
    have hsame : ((start t).run before).transfer.target = target :=
      (hstart.made_run before hbefore).target.trans huntouched.target
    rw [run_snoc, repeated_snoc, hstep]
    refine Transfer.Tallied.congr (t := v) ?_ rfl rfl
    exact ho.tallied hbefore (sound_run hsound (hstart.uncleaned hbefore)) (hstart.sized_run hsized before hbefore)
      (hsame ▸ hmax) htallied hnext hstep
  refine ⟨fun hnone => (hrun.unmapped hnone).1, fun m hm => ?_⟩
  have hlen : m.length = target.size := by
    rw [(hstart.sized_run hsized events hopen).measured m hm, htarget]
  have hle : m.counts.available ≤ target.size := by
    have hsum := m.countAll_sum
    show m.countAll .available ≤ _
    omega
  have hcount : u.tally.transferred = min maxOffset (m.counts.available + k) := hrun.mapped m hm
  refine ⟨hcount, ?_, hle, ?_⟩
  · rw [hcount]
    omega
  · rw [hcount]
    omega

/-- A peer sends the first of two bytes, again and again. -/
def stutter (n : Nat) : List Event :=
  .join (.fresh "a" .full 0) (fun _ => true) :: List.replicate n (.chunk "a" 0 ⟨#[1]⟩)

theorem twice_progress_accounted :
    (plainTarget 2).size ≤ maxOffset ∧
      (start (plainTransfer 2 .standard .swarming)).repeated (stutter 2) = 1 ∧
      ∃ m, ((start (plainTransfer 2 .standard .swarming)).run (stutter 2)).transfer.parts = some m ∧
        m.counts.available = 1 ∧
        ((start (plainTransfer 2 .standard .swarming)).run (stutter 2)).transfer.tally.transferred = 2 := by
  have hmax : (plainTarget 2).size ≤ maxOffset := by decide
  have hrepeated : (start (plainTransfer 2 .standard .swarming)).repeated (stutter 2) = 1 := rfl
  obtain ⟨-, hmapped⟩ := progress_accounted (create_plain 2 .standard .swarming) hmax (stutter 2) rfl
  obtain ⟨hcount, -⟩ := hmapped _ rfl
  refine ⟨hmax, hrepeated, _, rfl, rfl, ?_⟩
  rw [hcount, hrepeated]
  rfl

/-- The tally is past the size of the file while a byte is missing. -/
theorem progress_overstated :
    ∃ m, ((start (plainTransfer 2 .standard .swarming)).run (stutter 3)).transfer.parts = some m ∧
      ((start (plainTransfer 2 .standard .swarming)).run (stutter 3)).transfer.phase = .downloading ∧
      m.counts.available = 1 ∧
      ((start (plainTransfer 2 .standard .swarming)).run (stutter 3)).transfer.tally.transferred = 3 :=
  ⟨_, rfl, rfl, rfl, rfl⟩

end Course

end FileSwarm
