import FileSwarm.Proofs.Swarm.Serving
import FileSwarm.Proofs.Swarm.Turns
import FileSwarm.Proofs.Transfer.Streams

/-!
# Swarms of one server that streams

A server that answers no range requests is told once where to start and sends the file piece by piece.
Nobody else is let in.

* `Streaming` : the invariant, kept by every turn (`Streaming.turn`);
* `Unjoined.play` : so it holds in every run that a streaming server is the first to join;
* `Streaming.idle` : when nothing is left to do, the transfer is done.
-/

namespace FileSwarm

namespace Swarm

theorem settle_quiet {s : Swarm} (h : s.delivered = s.transfer.sent.size) :
    s.settle = { s with
      transfer := { s.transfer with outbox := .empty }
      heard := s.heard ++ s.transfer.outbox.notices.toArray
      tasks := s.tasks ++ s.transfer.outbox.jobs.map Task.ofJob } := by
  have hdrop : s.transfer.sent.toList.drop s.delivered = [] := by
    rw [h, ← Array.length_toList, List.drop_length]
  have hservers : s.servers.map (·.hearAll s.now (s.transfer.sent.toList.drop s.delivered)) = s.servers := by
    rw [hdrop]
    refine List.map_id'' (fun v => ?_) s.servers
    unfold Server.hearAll
    split
    · rfl
    · simp
  rw [settle_eq, hservers, ← h]

/-- The first server streams from offset `a` on, or was told to; the others were told nothing. -/
structure Streams (w : Scene) (s : Swarm) (v : Server) (others : List Server) (q : Share) (m : PartMap) (a : Nat) :
    Prop where
  flows : s.transfer.Flows w q m a
  servers : s.servers = v :: others
  id : q.id = v.id
  caps : v.caps.partRequests = false
  place : v.inbox.map (·.2) = [.file 0] ∧ v.stream.isEmpty ∧ a = 0 ∨
    v.inbox = [] ∧ v.stream = ⟨a, w.original.size - a⟩
  others : ∀ v ∈ others, v.isIdle
  tasks : s.tasks = []
  delivered : s.delivered = s.transfer.sent.size
  jobs : s.transfer.outbox.jobs = []

/-- Between two turns after the first server joined: it streams, or the file is there. -/
inductive Streaming (w : Scene) (s : Swarm) : Prop
  | streams {v : Server} {others : List Server} {q : Share} {m : PartMap} {a : Nat} (h : s.Streams w v others q m a)
  | done (h : Done w s)

section Streaming

variable {w : Scene} {s : Swarm} {v : Server} {others : List Server} {q : Share} {m : PartMap} {a : Nat}

theorem Streams.settle (h : s.Streams w v others q m a) : Streaming w s.settle := by
  rw [settle_quiet h.delivered]
  refine .streams ⟨h.flows.enter h.flows.grounded.isOpen .empty, h.servers, h.id, h.caps, h.place, h.others, ?_,
    h.delivered, rfl⟩
  show s.tasks ++ s.transfer.outbox.jobs.map Task.ofJob = []
  rw [h.tasks, h.jobs]
  rfl

theorem Streams.join (h : s.Streams w v others q m a) {x : Server} (hx : Fresh x) : Streaming w (s.join x).1 := by
  rw [join_eq, h.flows.join]
  refine Streams.settle ⟨h.flows.connected x.id, congrArg (· ++ _) h.servers, h.id, h.caps, h.place, fun y hy => ?_,
    h.tasks, h.delivered, h.jobs⟩
  rcases List.mem_append.1 hy with hy | hy
  · exact h.others y hy
  · obtain rfl := List.mem_singleton.1 hy
    show (x.stream.isEmpty && x.inbox.isEmpty) = true
    rw [hx.stream, hx.inbox]
    rfl

theorem Streams.start (h : s.Streams w v others q m 0) {k : Nat} (hfile : s.transfer.disk.HasFile s.source k w.original)
    (hinbox : v.inbox.map (·.2) = [.file 0]) (hstream : v.stream.isEmpty) : Streaming w (s.serve 0) := by
  have hv : s.servers[0]? = some v := by rw [h.servers]; rfl
  have hset : ∀ x, s.servers.set 0 x = x :: others := fun x => by rw [h.servers]; rfl
  obtain ⟨⟨time, c⟩, rest, hcons, hc, hrest⟩ := List.map_eq_cons_iff.1 hinbox
  obtain rfl : c = .file 0 := hc
  obtain rfl := List.map_eq_nil_iff.1 hrest
  have hbegin : v.reply s.transfer.disk s.source (.file 0) = .ready (.ofBounds 0 w.original.size) :=
    Server.beginning_stream h.caps hfile 0
  have hanswer : v.answer? s.transfer.disk s.source =
      some ({ v with inbox := [] }, .ready (.ofBounds 0 w.original.size)) := by
    rw [Server.answer?_call hstream hcons, hbegin]
  obtain ⟨u, hready, hflows, hsent, hjobs⟩ := h.flows.peerReady
  have hreceive : receive s.transfer { v with inbox := [] } (.ready (.ofBounds 0 w.original.size)) =
      (u, { v with inbox := [], stream := .ofBounds 0 w.original.size }) := by
    unfold receive
    dsimp only
    rw [← h.id, hready]
  rw [serve_eq hv hanswer, answered, hreceive]
  refine Streams.settle ⟨hflows, hset _, h.id, h.caps, .inr ⟨rfl, rfl⟩, h.others, h.tasks, ?_, hjobs.trans h.jobs⟩
  show s.delivered = u.sent.size
  rw [h.delivered, hsent]

/-- What the streaming server says next is the piece from `a` on. -/
theorem Streams.answer_eq (h : s.Streams w v others q m a) {k : Nat}
    (hfile : s.transfer.disk.HasFile s.source k w.original) (hstream : v.stream = ⟨a, w.original.size - a⟩) :
    v.nextPiece.start = a ∧ 0 < v.nextPiece.length ∧ v.nextPiece.stop ≤ w.original.size ∧
      v.answer? s.transfer.disk s.source = some ({ v with stream := .ofBounds v.nextPiece.stop w.original.size },
        .chunk v.nextPiece.start (w.original.extract v.nextPiece.start v.nextPiece.stop)) := by
  have hmissing := h.flows.missing
  have hsome : ¬ v.stream.isEmpty := by
    rw [hstream, ByteRange.isEmpty, beq_iff_eq]
    show ¬ w.original.size - a = 0
    omega
  have hpiece : v.nextPiece = ⟨a, min (w.original.size - a) (max v.piece 1)⟩ := by
    rw [Server.nextPiece, hstream]
    rfl
  have hstop : v.nextPiece.stop ≤ w.original.size := by
    rw [hpiece]
    show a + min (w.original.size - a) (max v.piece 1) ≤ _
    omega
  have hend : v.stream.stop = w.original.size := by
    rw [hstream]
    show a + (w.original.size - a) = _
    omega
  refine ⟨by rw [hpiece], ?_, hstop, ?_⟩
  · rw [hpiece]
    show 0 < min (w.original.size - a) (max v.piece 1)
    omega
  · rw [Server.answer?, if_neg hsome, Server.chunk_eq hfile w.size_le hstop, hend]

theorem Streams.piece (h : s.Streams w v others q m a) {k : Nat} (hfile : s.transfer.disk.HasFile s.source k w.original)
    (hinbox : v.inbox = []) (hstream : v.stream = ⟨a, w.original.size - a⟩) : Streaming w (s.serve 0) := by
  have hv : s.servers[0]? = some v := by rw [h.servers]; rfl
  have hset : ∀ x, s.servers.set 0 x = x :: others := fun x => by rw [h.servers]; rfl
  obtain ⟨hstart, hpos, hstop, hanswer⟩ := h.answer_eq hfile hstream
  obtain ⟨u, hchunk, hout⟩ := h.flows.receiveChunk h.jobs hstart hpos hstop
  have hreceive : receive s.transfer { v with stream := .ofBounds v.nextPiece.stop w.original.size }
      (.chunk v.nextPiece.start (w.original.extract v.nextPiece.start v.nextPiece.stop)) =
      (u, { v with stream := .ofBounds v.nextPiece.stop w.original.size }) := by
    unfold receive
    dsimp only
    rw [← h.id, hchunk]
  rw [serve_eq hv hanswer, answered, hreceive]
  rcases hout with ⟨hflows, hsent, hjobs⟩ | ⟨-, hfinished, hjobs⟩
  · refine Streams.settle ⟨hflows, hset _, h.id, h.caps, .inr ⟨hinbox, rfl⟩, h.others, h.tasks, ?_, hjobs⟩
    show s.delivered = u.sent.size
    rw [h.delivered, hsent]
  · exact .done (Done.settle hfinished hjobs h.tasks)

theorem Streams.serve (h : s.Streams w v others q m a) (hsource : Sourced w s) (i : Nat) : Streaming w (s.serve i) := by
  obtain ⟨k, hk, hfile⟩ := hsource
  have hfile : s.transfer.disk.HasFile s.source k w.original := hfile.alike h.flows.grounded.written.alike hk
  cases i with
  | succ i =>
    rw [serve_silent]
    · exact .streams h
    · intro x hx
      rw [h.servers] at hx
      exact h.others x (List.mem_of_getElem? hx)
  | zero =>
    rcases h.place with ⟨hinbox, hstream, rfl⟩ | ⟨hinbox, hstream⟩
    · exact h.start hfile hinbox hstream
    · exact h.piece hfile hinbox hstream

theorem Unjoined.stream (h : Unjoined w s) (hv : Fresh v) (hcaps : v.caps = .streaming) : Streaming w (s.join v).1 := by
  have hjoin : s.transfer.join v.id v.caps = s.transfer.join v.id .streaming := by rw [hcaps]
  rw [join_eq, hjoin]
  rcases h.vacant.stream h.jobs v.id with ⟨hfinished, hnone⟩ | ⟨q, m, hflows, hid, hsent, hnone⟩
  · exact .done (Done.settle hfinished hnone h.tasks)
  · rw [settle_eq]
    have hcalls : (s.transfer.join v.id .streaming).sent.toList.drop s.delivered =
        [(s.transfer.links.size, .file 0)] := by
      rw [hsent, h.delivered, Array.toList_push]
      exact List.drop_left' Array.length_toList
    refine .streams (v := { v with link := s.transfer.links.size, inbox := [(s.now, .file 0)] })
      ⟨hflows.enter hflows.grounded.isOpen .empty, ?_, hid, by show v.caps.partRequests = false; rw [hcaps]; rfl,
        .inl ⟨rfl, hv.stream, rfl⟩, fun x hx => absurd hx List.not_mem_nil, ?_, rfl, rfl⟩
    · show (s.servers ++ [{ v with link := s.transfer.links.size }]).map (Server.hearAll s.now
        ((s.transfer.join v.id .streaming).sent.toList.drop s.delivered)) = _
      rw [hcalls, h.servers]
      show [Server.hearAll _ _ _] = _
      unfold Server.hearAll
      rw [if_neg (by simp [hv.at_work])]
      simp [hv.inbox]
    · show s.tasks ++ (s.transfer.join v.id .streaming).outbox.jobs.map Task.ofJob = []
      rw [h.tasks, hnone]
      rfl

theorem Streaming.turn (h : Streaming w s) (hsource : Sourced w s) (a : Turn)
    (hjoin : ∀ x, a = .move (.join x) → Fresh x) : Streaming w (s.turn a) := by
  cases h with
  | done hdone => exact .done (hdone.turn a)
  | streams hs =>
    cases a with
    | move m =>
      cases m with
      | join x => exact hs.join (hjoin x rfl)
      | serve i => exact hs.serve hsource i
      | work i =>
        have hsame : s.turn (.move (.work i)) = s := work_none (by rw [hs.tasks]; rfl)
        rw [hsame]
        exact .streams hs
    | abort =>
      rw [turn_abort hs.flows.grounded.isOpen]
      exact .streams hs
    | dismiss i =>
      rw [turn_dismiss hs.flows.grounded.isOpen i]
      exact .streams hs

theorem Streaming.play (h : Streaming w s) (hsource : Sourced w s) (turns : List Turn)
    (hjoin : ∀ x ∈ joiners turns, Fresh x) : Streaming w (s.play turns) := by
  induction turns generalizing s with
  | nil => exact h
  | cons a turns ih =>
    rw [play_cons]
    refine ih (h.turn hsource a fun x hx => hjoin x (mem_joiners_cons.2 (.inl hx))) ?_
      fun x hx => hjoin x (mem_joiners_cons.2 (.inr hx))
    rw [Sourced, turn_source]
    exact hsource

/-- With nothing left to do, the stream came to its end. -/
theorem Streaming.idle (h : Streaming w s) (hidle : s.isIdle) : Transfer.Finished w s.transfer := by
  rw [isIdle, Bool.and_eq_true] at hidle
  cases h with
  | done hdone => exact hdone.finished
  | @streams v others q m a hs =>
    have hv := List.all_eq_true.1 hidle.2 v (by rw [hs.servers]; exact List.mem_cons_self)
    rw [Server.isIdle, Bool.and_eq_true] at hv
    rcases hs.place with ⟨hinbox, -, -⟩ | ⟨-, hstream⟩
    · rw [List.isEmpty_iff.1 hv.2] at hinbox
      cases hinbox
    · have hmissing := hs.flows.missing
      have hempty := hv.1
      rw [hstream, ByteRange.isEmpty, beq_iff_eq] at hempty
      change w.original.size - a = 0 at hempty
      omega

theorem Unjoined.play (h : Unjoined w s) (hsource : Sourced w s) {turns : List Turn} {rest : List Server}
    (hturns : joiners turns = v :: rest) (hcaps : v.caps = .streaming) (hjoin : ∀ x ∈ joiners turns, Fresh x) :
    Streaming w (s.play turns) := by
  induction turns with
  | nil => exact nomatch hturns
  | cons a turns ih =>
    by_cases ha : ∃ x, a = .move (.join x)
    · obtain ⟨x, rfl⟩ := ha
      obtain ⟨rfl, -⟩ := List.cons.inj (show x :: joiners turns = v :: rest from hturns)
      rw [play_cons]
      refine (h.stream (hjoin x (mem_joiners_cons.2 (.inl rfl))) hcaps).play ?_ turns
        fun y hy => hjoin y (mem_joiners_cons.2 (.inr hy))
      show Sourced w (s.turn (.move (.join x)))
      rw [Sourced, turn_source]
      exact hsource
    · have hnot : ∀ x, a ≠ .move (.join x) := fun x hx => ha ⟨x, hx⟩
      rw [play_cons, h.turn hnot]
      refine ih ?_ fun x hx => hjoin x (mem_joiners_cons.2 (.inr hx))
      rw [← hturns, joiners_cons hnot]

end Streaming

end Swarm

end FileSwarm
