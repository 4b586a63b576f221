import FileSwarm.Proofs.Swarm.Settling
import FileSwarm.Proofs.Transfer.Advance

/-!
# Runs of a swarm

In a run servers join, servers answer and jobs go on, in any order. Once the transfer is over its caller
may abort it, and servers may be told to stop.

* `Swarm.Turn`, `Swarm.turn`, `Swarm.play` : what can happen, one by one;
* `join_eq`, `serve_eq`, `serve_none`, `work_eq` : what comes of a turn;
* `Unjoined` : the swarm before the first server;
* `Done` : the file is there; no turn changes that (`Done.turn`).
-/

namespace FileSwarm

namespace Swarm

/-- What can happen in a swarm that nobody gives up before its transfer is over. -/
inductive Turn where
  | move (m : Move)
  /-- The caller aborts the transfer, which is over. -/
  | abort
  /-- The server at a position is told to stop, after the transfer is over. -/
  | dismiss (i : Nat)

def turn (s : Swarm) : Turn → Swarm
  | .move m => s.step m
  | .abort => if s.transfer.phase.isFinal then { s with transfer := s.transfer.abort }.settle else s
  | .dismiss i =>
    if s.transfer.phase.isFinal then { s with servers := s.servers.modify i (·.hear s.now .abort) } else s

def play (s : Swarm) (turns : List Turn) : Swarm := turns.foldl turn s

/-- The servers that join, in their order. -/
def joiners (turns : List Turn) : List Server :=
  turns.filterMap fun
    | .move (.join v) => some v
    | _ => none

/-- A server that was told nothing yet. -/
structure Fresh (v : Server) : Prop where
  inbox : v.inbox = []
  stream : v.stream.isEmpty
  at_work : v.retired = false

/-- The servers have the file. -/
def Sourced (w : Scene) (s : Swarm) : Prop := ∃ k, k ≠ w.node ∧ w.disk.HasFile s.source k w.original

@[simp] theorem play_nil (s : Swarm) : s.play [] = s := rfl

theorem play_cons (s : Swarm) (a : Turn) (turns : List Turn) : s.play (a :: turns) = (s.turn a).play turns := rfl

theorem mem_joiners_cons {a : Turn} {turns : List Turn} {v : Server} :
    v ∈ joiners (a :: turns) ↔ a = .move (.join v) ∨ v ∈ joiners turns := by
  unfold joiners
  cases a with
  | move m => cases m <;> simp [eq_comm]
  | abort => simp
  | dismiss i => simp

theorem joiners_cons {a : Turn} (ha : ∀ v, a ≠ .move (.join v)) (turns : List Turn) :
    joiners (a :: turns) = joiners turns := by
  cases a with
  | move m =>
    cases m with
    | join v => exact absurd rfl (ha v)
    | serve i => rfl
    | work i => rfl
  | abort => rfl
  | dismiss i => rfl

theorem join_eq (s : Swarm) (v : Server) :
    (s.join v).1 = { s with
      transfer := s.transfer.join v.id v.caps
      servers := s.servers ++ [{ v with link := s.transfer.links.size }] }.settle := rfl

/-- The server at a position, which is `v` now, has said something. -/
def answered (s : Swarm) (i time : Nat) (v : Server) (reply : Reply) : Swarm :=
  { s with
    transfer := (receive s.transfer v reply).1
    servers := s.servers.set i { (receive s.transfer v reply).2 with free := time }
    now := time }.settle

theorem serve_eq {s : Swarm} {i : Nat} {v v' : Server} {reply : Reply} (hv : s.servers[i]? = some v)
    (h : v.answer? s.transfer.disk s.source = some (v', reply)) :
    s.serve i = s.answered i (v.due?.getD s.now) v' reply := by
  unfold serve
  rw [hv]
  dsimp only
  rw [h]
  rfl

/-- Nothing comes of a server that has nothing to say. -/
theorem serve_none {s : Swarm} {i : Nat}
    (h : ∀ v, s.servers[i]? = some v → v.answer? s.transfer.disk s.source = none) : s.serve i = s := by
  unfold serve
  cases hv : s.servers[i]? with
  | none => rfl
  | some v =>
    dsimp only
    rw [h v hv]

theorem serve_silent {s : Swarm} {i : Nat} (h : ∀ v, s.servers[i]? = some v → v.isIdle) : s.serve i = s := by
  refine serve_none fun v hv => ?_
  have hidle := h v hv
  rw [Server.isIdle, Bool.and_eq_true] at hidle
  rw [Server.answer?, if_pos hidle.1, List.isEmpty_iff.1 hidle.2]

theorem work_eq {s : Swarm} {i : Nat} {task : Task} (h : s.tasks[i]? = some task) :
    s.work i = { s with
      transfer := (Task.step s.transfer task).1
      tasks := s.tasks.take i ++ (Task.step s.transfer task).2.toList ++ s.tasks.drop (i + 1) }.settle := by
  unfold work
  rw [h]

theorem work_none {s : Swarm} {i : Nat} (h : s.tasks[i]? = none) : s.work i = s := by
  unfold work
  rw [h]

theorem settle_source (s : Swarm) : s.settle.source = s.source := by rw [settle_eq]

theorem turn_source (s : Swarm) (a : Turn) : (s.turn a).source = s.source := by
  cases a with
  | move m =>
    cases m with
    | join v => exact settle_source _
    | serve i =>
      show (s.serve i).source = s.source
      unfold serve
      split
      · rfl
      · dsimp only
        split
        · rfl
        · exact settle_source _
    | work i =>
      show (s.work i).source = s.source
      unfold work
      split
      · rfl
      · exact settle_source _
  | abort =>
    show (if s.transfer.phase.isFinal then _ else s : Swarm).source = s.source
    split
    · exact settle_source _
    · rfl
  | dismiss i =>
    show (if s.transfer.phase.isFinal then _ else s : Swarm).source = s.source
    split
    · rfl
    · rfl

theorem turn_abort {s : Swarm} (h : s.transfer.phase.isFinal = false) : s.turn .abort = s :=
  if_neg (by simp [h])

theorem turn_dismiss {s : Swarm} (h : s.transfer.phase.isFinal = false) (i : Nat) : s.turn (.dismiss i) = s :=
  if_neg (by simp [h])

/-! ## Before the first server -/

/-- Nobody joined yet. -/
structure Unjoined (w : Scene) (s : Swarm) : Prop where
  vacant : Transfer.Vacant w s.transfer
  servers : s.servers = []
  links : s.transfer.links.size = 0
  tasks : s.tasks = []
  delivered : s.delivered = s.transfer.sent.size
  jobs : s.transfer.outbox.jobs = []

theorem Unjoined.turn {w : Scene} {s : Swarm} (h : Unjoined w s) {a : Turn} (ha : ∀ v, a ≠ .move (.join v)) :
    s.turn a = s := by
  cases a with
  | move m =>
    cases m with
    | join v => exact absurd rfl (ha v)
    | serve i =>
      apply serve_silent
      intro v hv
      rw [h.servers] at hv
      exact nomatch hv
    | work i => exact work_none (by rw [h.tasks]; rfl)
  | abort => exact turn_abort h.vacant.grounded.isOpen
  | dismiss i => exact turn_dismiss h.vacant.grounded.isOpen i

theorem Unjoined.peers {w : Scene} {s : Swarm} (h : Unjoined w s) :
    s.transfer.Peers s.delivered (namesOf s.servers) (inboxOf s.servers) := by
  have hnobody : ∀ {P : Share → Prop}, ∀ q ∈ s.transfer.shares, P q := by
    intro P q hq
    rw [h.vacant.shares] at hq
    exact absurd hq List.not_mem_nil
  refine ⟨Nat.le_of_eq h.delivered, fun link hlt => ?_, ?_, hnobody, ?_, ?_, hnobody, hnobody, fun link _ => ?_⟩
  · rw [h.links] at hlt
    exact absurd hlt (Nat.not_lt_zero link)
  · rw [h.servers, h.links]
    rfl
  · rw [h.vacant.shares]
    exact List.nodup_nil
  · rw [h.vacant.shares]
    exact List.nodup_nil
  · rw [h.servers, h.delivered, Transfer.unread_size]
    rfl

/-! ## After the end -/

/-- A transfer that is over takes an answer without a change, except that a peer may leave. -/
theorem receive_final {t : Transfer} (h : t.phase.isFinal) (v : Server) (reply : Reply) :
    ∃ shares, (receive t v reply).1 = { t with shares } := by
  cases reply with
  | ready stream =>
    refine ⟨t.shares, ?_⟩
    unfold receive Transfer.peerReady
    by_cases hid : t.isAttached v.id
    · simp [hid, h]
    · simp [hid]
  | chunk offset bytes =>
    refine ⟨t.shares, ?_⟩
    unfold receive Transfer.receiveChunk
    simp [h]
  | signature s =>
    refine ⟨t.shares, ?_⟩
    unfold receive Transfer.receiveSignature
    simp [h]
  | leave =>
    unfold receive Transfer.removePeer
    cases t.share? v.id with
    | none => exact ⟨t.shares, rfl⟩
    | some s => exact ⟨t.shares.eraseP (·.id == v.id), by simp [h]⟩
  | stop => exact ⟨t.shares, rfl⟩

end Swarm

namespace Transfer

theorem join_final {t : Transfer} (h : t.phase.isFinal) (id : String) (caps : Capabilities) :
    t.join id caps = t.connected id := by
  unfold join addPeer
  rw [if_pos (by simpa [connect] using h)]
  rfl

theorem Finished.congr {w : Scene} {t u : Transfer} (h : Finished w t) (phase : u.phase = t.phase)
    (released : u.released = t.released) (disk : u.disk = t.disk) (mismatches : u.mismatches = t.mismatches)
    (metrics : u.metrics = t.metrics) : Finished w u := by
  refine ⟨phase.trans h.phase, released ▸ h.released, disk ▸ h.read, mismatches.trans h.mismatches,
    metrics ▸ h.counted, ?_⟩
  rw [got, metrics]
  exact h.got_eq

/-- What was released is not released again. -/
theorem Finished.abort {w : Scene} {t : Transfer} (h : Finished w t) : Finished w t.abort ∧
    t.abort.outbox.jobs = t.outbox.jobs := by
  have hfinal : t.phase.isFinal := by rw [h.phase]; rfl
  unfold Transfer.abort
  split
  · exact ⟨h, rfl⟩
  · rw [tellAll_eq]
    dsimp only
    rw [if_pos hfinal]
    unfold release
    dsimp only
    rw [if_pos h.released]
    exact ⟨h.congr rfl rfl rfl rfl rfl, rfl⟩

end Transfer

namespace Swarm

/-- The file is there, and no job is under way. -/
structure Done (w : Scene) (s : Swarm) : Prop where
  finished : Transfer.Finished w s.transfer
  tasks : s.tasks = []
  jobs : s.transfer.outbox.jobs = []

section Done

variable {w : Scene} {s : Swarm}

theorem Done.settle (hf : Transfer.Finished w s.transfer) (hjobs : s.transfer.outbox.jobs = [])
    (htasks : s.tasks = []) : Done w s.settle := by
  rw [settle_eq]
  refine ⟨hf.congr rfl rfl rfl rfl rfl, ?_, rfl⟩
  show s.tasks ++ s.transfer.outbox.jobs.map Task.ofJob = []
  rw [htasks, hjobs]
  rfl

theorem Done.turn (h : Done w s) (a : Turn) : Done w (s.turn a) := by
  obtain ⟨hf, htasks, hjobs⟩ := h
  have hfinal : s.transfer.phase.isFinal := by rw [hf.phase]; rfl
  cases a with
  | move m =>
    cases m with
    | join v =>
      show Done w (s.join v).1
      rw [join_eq, Transfer.join_final hfinal]
      exact Done.settle (hf.congr rfl rfl rfl rfl rfl) hjobs htasks
    | serve i =>
      show Done w (s.serve i)
      cases hv : s.servers[i]? with
      | none =>
        rw [serve_silent fun v hv' => nomatch hv.symm.trans hv']
        exact ⟨hf, htasks, hjobs⟩
      | some v =>
        cases ha : v.answer? s.transfer.disk s.source with
        | none =>
          rw [serve_none fun u hu => Option.some.inj (hv.symm.trans hu) ▸ ha]
          exact ⟨hf, htasks, hjobs⟩
        | some r =>
          obtain ⟨v', reply⟩ := r
          obtain ⟨shares, hsame⟩ := receive_final hfinal v' reply
          rw [serve_eq hv ha, answered, hsame]
          exact Done.settle (hf.congr rfl rfl rfl rfl rfl) hjobs htasks
    | work i =>
      show Done w (s.work i)
      rw [work_none (by rw [htasks]; rfl)]
      exact ⟨hf, htasks, hjobs⟩
  | abort =>
    obtain ⟨hf', hjobs'⟩ := hf.abort
    unfold Swarm.turn
    rw [if_pos hfinal]
    exact Done.settle hf' (hjobs'.trans hjobs) htasks
  | dismiss i =>
    show Done w (if s.transfer.phase.isFinal then _ else s)
    rw [if_pos hfinal]
    exact ⟨hf, htasks, hjobs⟩

end Done

end Swarm

end FileSwarm
