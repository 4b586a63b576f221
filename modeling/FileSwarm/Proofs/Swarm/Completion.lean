import FileSwarm.Proofs.Swarm.Streaming
import FileSwarm.Proofs.Swarm.Swarming
import FileSwarm.Proofs.Transfer.Sound

/-!
# No swarm gets stuck

A swarm starts with a new transfer, and things happen in any order. When nothing is left to do and somebody
is there, the file is there too, and each byte of it came once.

* `Prepared` : the disk on which a transfer starts;
* `exists_scene` : the swarm before its first server;
* `idle_completed` : what it comes to.
-/

namespace FileSwarm

namespace Swarm

/-- The disk `made`, on which the temp file of `target` was just opened. It can be written to, and is
neither the servers' file, which has the bytes `D`, nor the local copy. -/
structure Prepared (target : Target) (tuning : Tuning) (made : Disk) (source : String) (D : ByteArray) : Prop where
  chunk : 1 ≤ tuning.maxChunk
  size_eq : target.size = D.size
  size_le : D.size ≤ Disk.sizeLimit
  temp : made.isFile target.temp
  served : ∃ k, made.HasFile source k D ∧ ¬ made.LeadsTo target.temp k
  candidate : ∀ c k b, target.candidate = some c → made.HasFile c k b →
    ¬ made.LeadsTo target.temp k ∧ b.size ≤ Disk.sizeLimit

section Completion

variable {target : Target} {tuning : Tuning} {disk made : Disk} {t : Transfer} {source : String} {D : ByteArray}

theorem exists_scene (hcreate : Transfer.create target tuning .swarming disk = (.ok t, made))
    (h : Prepared target tuning made source D) :
    ∃ w : Scene, w.original = D ∧ w.target = target ∧ w.disk = made ∧ Unjoined w (ofTransfer t source) ∧
      Sourced w (ofTransfer t source) := by
  unfold Transfer.create at hcreate
  split at hcreate
  · exact nomatch (Prod.mk.inj hcreate).1
  · next temp made' hopen =>
    obtain ⟨ht, rfl⟩ := Prod.mk.inj hcreate
    obtain ⟨hleads, hwritable, hempty⟩ := Disk.openTemp_eq_ok hopen
    obtain ⟨n, old, hfile⟩ := Disk.HasFile.of_isFile h.temp
    obtain rfl := hfile.leads.unique hleads
    have hapart : ∀ {k : Nat}, ¬ made'.LeadsTo target.temp k → k ≠ temp.node := fun hk heq => hk (heq ▸ hleads)
    let w : Scene := {
      original := D
      target
      disk := made'
      node := temp.node
      size_eq := h.size_eq
      size_le := h.size_le
      leads := hleads
      candidate := fun c k b hc hb => (h.candidate c k b hc hb).imp hapart id }
    refine ⟨w, rfl, rfl, rfl, ?_, ?_⟩
    · cases ht
      rw [ofTransfer, settle_eq]
      refine ⟨⟨⟨rfl, h.chunk, rfl, rfl, ?_, rfl, rfl, rfl, ?_, ?_⟩, rfl, rfl, rfl, rfl, ?_⟩, rfl, rfl, rfl, rfl, rfl⟩
      · show some temp = some ⟨temp.node, true⟩
        rw [← hwritable]
      · refine ⟨.refl _ _, ?_, ?_⟩
        · show (made'.bytesAt? temp.node).isSome
          rw [hfile.bytes]
          rfl
        · show (made'.content temp.node).size ≤ D.size
          rw [hempty]
          exact Nat.zero_le _
      · intro hdelta
        obtain ⟨-, hlocal⟩ := Bool.and_eq_true_iff.1 hdelta
        obtain ⟨c, hc, hc'⟩ := (Option.any_eq_true _ _).1 hlocal
        exact ⟨c, hc, (Bool.and_eq_true_iff.1 hc').2⟩
      · show (if _ then _ else _) = _
        rw [h.size_eq]
    · obtain ⟨k, hk, hnot⟩ := h.served
      exact ⟨k, hapart hnot, hk⟩

/-- No run of a swarm gets stuck. Any number of servers that can do everything join, or one that streams comes
first; if nothing is left to do and one of them is there, the transfer has completed without a wrong hash,
the temp file is the file, and as many bytes came as it has. -/
theorem idle_completed (hcreate : Transfer.create target tuning .swarming disk = (.ok t, made))
    (h : Prepared target tuning made source D) {turns : List Turn} (hfresh : ∀ v ∈ joiners turns, Fresh v)
    (hservers :
      (∀ v ∈ joiners turns, v.caps = .full ∧ ∀ c k b, target.candidate = some c → made.HasFile c k b →
        CollisionFree (Signature.clampLength (v.blockLength.getD (Signature.defaultBlockLength D.size))) D b) ∨
      ∃ v rest, joiners turns = v :: rest ∧ v.caps = .streaming)
    (hidle : ((ofTransfer t source).play turns).isIdle)
    (hpeers : ((ofTransfer t source).play turns).transfer.shares ≠ []) :
    ((ofTransfer t source).play turns).transfer.phase = .completed ∧
      ((ofTransfer t source).play turns).transfer.disk.read target.temp = .ok D ∧
      ((ofTransfer t source).play turns).transfer.mismatches = 0 ∧
      ((ofTransfer t source).play turns).transfer.metrics.mismatches = 0 ∧
      ((ofTransfer t source).play turns).transfer.metrics.bytesReceived.toNat +
        ((ofTransfer t source).play turns).transfer.metrics.bytesReused.toNat = D.size := by
  obtain ⟨w, rfl, rfl, rfl, hunjoined, hsourced⟩ := exists_scene hcreate h
  have hfinished : Transfer.Finished w ((ofTransfer t source).play turns).transfer := by
    rcases hservers with hfull | ⟨v, rest, hcons, hstream⟩
    · have hsound := Sound.play (.unjoined hunjoined) hsourced turns fun v hv => ⟨hfresh v hv, hfull v hv⟩
      exact hsound.idle hidle hpeers
    · exact (hunjoined.play hsourced hcons hstream hfresh).idle hidle
  exact ⟨hfinished.phase, hfinished.read, hfinished.mismatches, hfinished.counted, hfinished.got_eq⟩

end Completion

/-! ## Two servers of a file of two bytes, one byte each -/

def pairDisk : Disk := ⟨#[.directory none, .file ⟨#[1, 2]⟩ none], [([], 0), (["d"], 1)], []⟩

/-- The disk once the temp file is made. -/
def pairMade : Disk :=
  ⟨#[.directory none, .file ⟨#[1, 2]⟩ none, .file ByteArray.empty none],
    [([], 0), (["d"], 1), (["(incomplete) f"], 2)], []⟩

/-- One byte a request, and one request a peer. -/
def pairTuning : Tuning := (Tuning.standard.withMaxChunk 1).withMaxRequests 1

def pairTransfer : Transfer :=
  { Course.plainTransfer 2 pairTuning .swarming with temp := some ⟨2, true⟩, disk := pairMade }

theorem openTemp_pair : pairDisk.openTemp "(incomplete) f" = (.ok ⟨2, true⟩, pairMade) :=
  Course.openTemp_plain (by decide +kernel) (by decide +kernel)

theorem create_pair :
    Transfer.create (Course.plainTarget 2) pairTuning .swarming pairDisk = (.ok pairTransfer, pairMade) := by
  simp only [Transfer.create, Course.temp_plain, openTemp_pair]
  simp only [Course.plainTarget, Option.any_none, Bool.and_false]
  rfl

theorem served_pair : pairMade.HasFile "d" 1 ⟨#[1, 2]⟩ := ⟨⟨by cbv, rfl⟩, rfl⟩

theorem prepared_pair : Prepared (Course.plainTarget 2) pairTuning pairMade "d" ⟨#[1, 2]⟩ := by
  have htemp : pairMade.LeadsTo (Course.plainTarget 2).temp 2 := by
    rw [Course.temp_plain]
    exact (Disk.openTemp_eq_ok openTemp_pair).1
  refine ⟨by decide, rfl, by decide, ?_, ⟨1, served_pair, fun h => ?_⟩, nofun⟩
  · unfold Disk.isFile Disk.node? Disk.node
    rw [htemp.number]
    rfl
  · exact absurd (h.unique htemp) (by decide)

/-- A server that was asked one thing. -/
def asked (id : String) (link : Nat) (c : Call) : Server := { Server.fresh id .full with link, inbox := [(0, c)] }

theorem serve_asked {s : Swarm} {i k : Nat} {id : String} {c : Call} {reply : Reply} {D : ByteArray}
    (hv : s.servers[i]? = some (asked id i c)) (hsource : s.source = "d") (hfile : s.transfer.disk.HasFile "d" k D)
    (h : ∀ d : Disk, d.HasFile "d" k D → (asked id i c).reply d "d" c = reply) :
    s.serve i = s.answered i 0 { Server.fresh id .full with link := i } reply := by
  rw [serve_eq hv (Server.answer?_call rfl rfl _ _), hsource, h _ hfile]
  rfl

def pairTurns : List Turn :=
  [.move (.join (.fresh "a" .full)), .move (.join (.fresh "b" .full)), .move (.serve 0), .move (.serve 1),
    .move (.serve 1), .move (.serve 0)]

def pairJoined : Swarm := (((ofTransfer pairTransfer "d").join (.fresh "a" .full)).1.join (.fresh "b" .full)).1

/-- The two servers may be asked for bytes. -/
def pairStarted : Swarm :=
  (pairJoined.answered 0 0 { Server.fresh "a" .full with link := 0 } (.ready ⟨0, 0⟩)).answered 1 0
    { Server.fresh "b" .full with link := 1 } (.ready ⟨0, 0⟩)

/-- Each of them has sent its byte, the second one first. -/
def pairEnd : Swarm :=
  (pairStarted.answered 1 0 { Server.fresh "b" .full with link := 1 } (.chunk 1 ⟨#[2]⟩)).answered 0 0
    { Server.fresh "a" .full with link := 0 } (.chunk 0 ⟨#[1]⟩)

theorem play_pairTurns : (ofTransfer pairTransfer "d").play pairTurns = pairEnd := by
  have hready : ∀ id link d, d.HasFile "d" 1 ⟨#[1, 2]⟩ →
      (asked id link (.file 0)).reply d "d" (.file 0) = .ready ⟨0, 0⟩ :=
    fun id link d hd => Server.beginning_parts rfl hd 0
  have hread : ∀ id link r, ByteRange.stop r ≤ 2 → ∀ d, d.HasFile "d" 1 ⟨#[1, 2]⟩ →
      (asked id link (.range r true)).reply d "d" (.range r true) =
        .chunk r.start (ByteArray.extract ⟨#[1, 2]⟩ r.start r.stop) :=
    fun id link r hr d hd => Server.chunk_eq hd (by decide) hr
  have hfirst : pairJoined.serve 0 =
      pairJoined.answered 0 0 { Server.fresh "a" .full with link := 0 } (.ready ⟨0, 0⟩) :=
    serve_asked (by decide +kernel) rfl served_pair (hready "a" 0)
  have hsecond : (pairJoined.serve 0).serve 1 = pairStarted := by
    rw [hfirst]
    exact serve_asked (by decide +kernel) rfl served_pair (hready "b" 1)
  have hthird : pairStarted.serve 1 =
      pairStarted.answered 1 0 { Server.fresh "b" .full with link := 1 } (.chunk 1 ⟨#[2]⟩) :=
    serve_asked (by decide +kernel) rfl served_pair (hread "b" 1 ⟨1, 1⟩ (by decide))
  rw [pairTurns]
  simp only [play_cons, play_nil, turn, step]
  rw [← pairJoined, hsecond, hthird]
  refine serve_asked (by decide +kernel) rfl ?_ (hread "a" 0 ⟨0, 1⟩ (by decide))
  exact ⟨⟨by cbv, rfl⟩, rfl⟩

theorem pair_completed :
    ((ofTransfer pairTransfer "d").play pairTurns).transfer.phase = .completed ∧
      ((ofTransfer pairTransfer "d").play pairTurns).transfer.disk.read (Course.plainTarget 2).temp = .ok ⟨#[1, 2]⟩ ∧
      ((ofTransfer pairTransfer "d").play pairTurns).transfer.mismatches = 0 ∧
      ((ofTransfer pairTransfer "d").play pairTurns).transfer.metrics.mismatches = 0 ∧
      ((ofTransfer pairTransfer "d").play pairTurns).transfer.metrics.bytesReceived.toNat +
        ((ofTransfer pairTransfer "d").play pairTurns).transfer.metrics.bytesReused.toNat = 2 := by
  have hend : pairEnd.isIdle ∧ pairEnd.transfer.shares.length = 2 := by decide +kernel
  have hjoiners : ∀ v ∈ joiners pairTurns, v = .fresh "a" .full ∨ v = .fresh "b" .full := by
    simp [joiners, pairTurns]
  refine idle_completed create_pair prepared_pair (fun v hv => ?_) (.inl fun v hv => ⟨?_, nofun⟩) ?_ fun hnil => ?_
  · rcases hjoiners v hv with rfl | rfl <;> exact ⟨rfl, rfl, rfl⟩
  · rcases hjoiners v hv with rfl | rfl <;> rfl
  · rw [play_pairTurns]
    exact hend.1
  · rw [play_pairTurns] at hnil
    rw [hnil] at hend
    exact nomatch hend.2

end Swarm

end FileSwarm
