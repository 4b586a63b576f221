import FileSwarm.Swarm.Server
import FileSwarm.Transfer.Work

/-!
# Swarms: a transfer with its servers

A swarm is a transfer, the servers that joined it and the jobs its workers do. What the transfer says
goes into the servers' inboxes at once, and every answer of a server and every step of a job is a move
of its own, so that they may come in any order.

* `Swarm.join` : a server joins;
* `Move`, `Swarm.step` : a server answers, or a job goes on;
* `Swarm.isIdle` : no move is left;
* `Swarm.run` : moves in the order of the time they take, those of workers first.
-/

namespace FileSwarm

structure Swarm where
  transfer : Transfer
  /-- The file that the servers have. -/
  source : String
  servers : List Server
  /-- Jobs under way. -/
  tasks : List Task
  /-- Notices of the transfer. -/
  heard : Array Notice
  /-- How many calls of the transfer have reached the inboxes. -/
  delivered : Nat
  /-- Milliseconds since the start. -/
  now : Nat

namespace Swarm

/-- Calls reach the inboxes. -/
def deliver (s : Swarm) : Swarm :=
  let calls := (s.transfer.sent.extract s.delivered s.transfer.sent.size).toList
  { s with
    delivered := s.transfer.sent.size
    servers := calls.foldl (fun l (link, c) =>
      l.map fun v => if v.link = link && !v.retired then v.hear s.now c else v) s.servers }

/-- Hand out what an operation left: notices, jobs and calls. -/
def settle (s : Swarm) : Swarm :=
  let (t, out) := s.transfer.takeOutbox
  { s with
    transfer := t
    heard := s.heard ++ out.notices.toArray
    tasks := s.tasks ++ out.jobs.map Task.ofJob }.deliver

/-- A transfer without servers. -/
def ofTransfer (t : Transfer) (source : String) : Swarm :=
  settle ⟨t, source, [], [], #[], 0, 0⟩

/-- A server joins, unless the transfer turns it down; then nobody talks to it. -/
def join (s : Swarm) (v : Server) : Swarm × Option TransferError :=
  let (t, link) := s.transfer.connect (.accepting v.id none)
  let v : Server := { v with link }
  let (t, refused) := t.addPeer v.share
  ({ s with transfer := t, servers := s.servers ++ [v] }.settle, refused)

/-- What an answer of a server does to the transfer and to the server. -/
def receive (t : Transfer) (v : Server) : Reply → Transfer × Server
  | .ready stream =>
    match t.peerReady v.id with
    | (t, none) => (t, { v with stream })
    | (t, some _) => (t, v.retire)
  | .chunk offset bytes =>
    match t.receiveChunk v.id offset bytes with
    | .ok t => (t, v)
    | .error _ => (t, v.retire)
  | .signature s => (t.receiveSignature s, v)
  | .leave => ((t.removePeer v.id).1, v.retire)
  | .stop => (t, v.retire)

/-- The server at a position says what it says next. -/
def serve (s : Swarm) (i : Nat) : Swarm :=
  match s.servers[i]? with
  | none => s
  | some v =>
    let now := v.due?.getD s.now
    match v.answer? s.transfer.disk s.source with
    | none => s
    | some (v, reply) =>
      let (t, v) := receive s.transfer v reply
      { s with transfer := t, servers := s.servers.set i { v with free := now }, now }.settle

/-- The job at a position goes on. -/
def work (s : Swarm) (i : Nat) : Swarm :=
  match s.tasks[i]? with
  | none => s
  | some task =>
    let (t, rest) := Task.step s.transfer task
    { s with transfer := t, tasks := s.tasks.take i ++ rest.toList ++ s.tasks.drop (i + 1) }.settle

/-- What can happen in a swarm. -/
inductive Move where
  | join (v : Server)
  | serve (i : Nat)
  | work (i : Nat)

def step (s : Swarm) : Move → Swarm
  | .join v => (s.join v).1
  | .serve i => s.serve i
  | .work i => s.work i

/-- Whether nothing is left to do. -/
def isIdle (s : Swarm) : Bool := s.tasks.isEmpty && s.servers.all (·.isIdle)

/-- Whether the transfer is over or has nobody to go on with. -/
def isOver (s : Swarm) : Bool := s.transfer.phase.isFinal || s.transfer.shares.isEmpty

/-! ## A run in time -/

/-- The server that says something first, with its position; of two the one that joined first. -/
def firstDue? (s : Swarm) : Option (Nat × Nat) :=
  s.servers.zipIdx.foldl (fun best (v, i) =>
    match v.due?, best with
    | none, _ => best
    | some time, none => some (time, i)
    | some time, some (least, j) => if time < least then some (time, i) else some (least, j)) none

/-- The move that comes next, and when. Jobs take no time. -/
def next? (s : Swarm) : Option (Nat × Move) :=
  if s.tasks.isEmpty then s.firstDue?.map fun (time, i) => (time, .serve i)
  else some (s.now, .work 0)

/-- Moves one after another until none is left or the next one is too late; at most `limit`. -/
def runFor : (limit : Nat) → (deadline : Option Nat) → Swarm → Swarm
  | 0, _, s => s
  | limit + 1, deadline, s =>
    match s.next? with
    | none => s
    | some (time, move) =>
      if deadline.any (· < time) then s else runFor limit deadline (s.step move)

/-- More moves than anyone waits for. -/
def patience : Nat := 1000000000000

/-- A run to its end, or to a deadline in milliseconds. -/
def run (s : Swarm) (deadline : Option Nat) : Swarm := runFor patience deadline s

end Swarm

end FileSwarm
