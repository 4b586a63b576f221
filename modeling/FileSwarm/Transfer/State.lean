import FileSwarm.Disk.Basic
import FileSwarm.Metrics
import FileSwarm.PartMap
import FileSwarm.Peer.Share
import FileSwarm.Settings.Tuning
import FileSwarm.Tally
import FileSwarm.Transfer.Breakage
import FileSwarm.Transfer.Target

/-!
# The state of a transfer

A `Transfer` is one file on its way from any number of peers. Everything it can touch is in it: the
disk, the links to its peers with all it said over them, the counters, and the notices and jobs it
has for others (`Outbox`), which are delivered between two operations.

* `Link`, `Call` : how a peer answers range requests, and what it can be told;
* `Notice`, `Job` : what listeners hear, and what workers do;
* `Transfer.create` : a transfer without peers;
* `Transfer.isCurrent` : whether the result of a job started at an epoch still counts.
-/

namespace FileSwarm

/-- What a peer is told. -/
inductive Call where
  | file (offset : Nat)
  | range (r : ByteRange) (accepted : Bool)
  | signature
  | abort
deriving DecidableEq, Repr, Inhabited

/-- A connection to a peer, which answers range request number `k` by `answers k`. -/
structure Link where
  id : String
  answers : Nat → Bool
  asked : Nat

instance : Inhabited Link := ⟨⟨"", fun _ => false, 0⟩⟩

namespace Link

def answer (l : Link) : Bool := l.answers l.asked

/-- A peer that accepts everything, or a number of requests. -/
def accepting (id : String) : Option Nat → Link
  | none => ⟨id, fun _ => true, 0⟩
  | some n => ⟨id, fun k => k < n, 0⟩

/-- From now on accept everything, or so many requests more. -/
def allow (l : Link) : Option Nat → Link
  | none => { l with answers := fun _ => true }
  | some n => { l with answers := fun k => k < l.asked + n }

end Link

/-- What a listener hears. -/
inductive Notice where
  | phaseChanged (old new : Phase)
  | progress (stage : Phase) (percent : Nat)
  | completed
  | broken (why : Breakage)
deriving DecidableEq, Repr, Inhabited

/-- What workers do, with the epoch of the transfer at which they were told: look for blocks in the
local copy and copy them, or hash the temp file. -/
inductive Job where
  | matchAndCopy (epoch : Nat) (signature : Signature) (candidate : String) (temp : Handle)
  | verify (epoch : Nat) (digest : Digest)
deriving DecidableEq

def Job.epoch : Job → Nat
  | matchAndCopy epoch .. => epoch
  | verify epoch _ => epoch

/-- Notices and jobs not yet handed out, the oldest first. -/
structure Outbox where
  notices : List Notice
  jobs : List Job
deriving DecidableEq

def Outbox.empty : Outbox := ⟨[], []⟩

/-- One file on its way. -/
structure Transfer where
  target : Target
  tuning : Tuning
  admission : Admission
  /-- The file is large enough and there is a local copy. -/
  delta : Bool
  phase : Phase
  /-- The attached peers in the order they joined. -/
  shares : List Share
  /-- What is needed; unknown while the local copy is looked at. -/
  parts : Option PartMap
  signature : Option Signature
  /-- The peer that was asked for the signature. -/
  owing : Option String
  tally : Tally
  temp : Option Handle
  /-- Goes up whenever the results of jobs under way lose their meaning. -/
  epoch : Nat
  /-- Wrong hashes in a row. -/
  mismatches : Nat
  released : Bool
  aborted : Bool
  /-- One past the peer that took the last range. -/
  cursor : Nat
  disk : Disk
  links : Array Link
  /-- All calls, with the number of the link. -/
  sent : Array (Nat × Call)
  metrics : Metrics
  outbox : Outbox

namespace Transfer

/-- A transfer without peers, its temp file made. Delta-sync is planned if the file is large enough
and there is a local copy which is not the temp file. -/
def create (target : Target) (tuning : Tuning) (admission : Admission) (disk : Disk) :
    Except TransferError Transfer × Disk :=
  match disk.openTemp target.temp with
  | (.error cause, disk) => (.error (.tempFile target.temp cause), disk)
  | (.ok temp, disk) =>
    let delta := tuning.minDelta ≤ target.size &&
      target.candidate.any fun c => !Path.same c target.temp && disk.isFile c
    let t : Transfer := {
      target, tuning, admission, delta
      phase := .initial
      shares := []
      parts := if delta then none else some (PartMap.blank target.size)
      signature := none
      owing := none
      tally := Tally.start 0 target.size
      temp := some temp
      epoch := 0
      mismatches := 0
      released := false
      aborted := false
      cursor := 0
      disk
      links := #[]
      sent := #[]
      metrics := Metrics.zero
      outbox := .empty }
    (.ok t, disk)

/-- Whether the transfer works by range requests: whether its first peer answers them. -/
def byParts (t : Transfer) : Bool := t.shares.head?.any (·.caps.partRequests)

def share? (t : Transfer) (id : String) : Option Share := t.shares.find? (·.id == id)

def isAttached (t : Transfer) (id : String) : Bool := t.shares.any (·.id == id)

/-- Whether the result of a job started at `epoch` still counts. -/
def isCurrent (t : Transfer) (epoch : Nat) : Bool := t.epoch == epoch && !t.phase.isFinal

/-- Change the share of one peer. -/
def updateShare (t : Transfer) (id : String) (f : Share → Share) : Transfer :=
  { t with shares := t.shares.map fun s => if s.id == id then f s else s }

def notify (t : Transfer) (n : Notice) : Transfer :=
  { t with outbox := { t.outbox with notices := t.outbox.notices ++ [n] } }

def queueJob (t : Transfer) (j : Job) : Transfer :=
  { t with outbox := { t.outbox with jobs := t.outbox.jobs ++ [j] } }

/-- Enter a phase; nothing happens if it is the present one. -/
def setPhase (t : Transfer) (next : Phase) : Transfer :=
  if t.phase = next then t else { t with phase := next }.notify (.phaseChanged t.phase next)

/-- Tell a peer something. -/
def tell (t : Transfer) (link : Nat) (c : Call) : Transfer := { t with sent := t.sent.push (link, c) }

/-- Tell every attached peer something. -/
def tellAll (t : Transfer) (c : Call) : Transfer :=
  t.shares.foldl (fun t s => t.tell s.link c) t

/-- Ask a peer for a range, and hear its answer. -/
def askRange (t : Transfer) (link : Nat) (r : ByteRange) : Transfer × Bool :=
  let l := t.links.getD link default
  ({ t with links := t.links.setIfInBounds link { l with asked := l.asked + 1 } }.tell link
    (.range r l.answer), l.answer)

/-- The transfer with its outbox emptied, and what was in it. -/
def takeOutbox (t : Transfer) : Transfer × Outbox := ({ t with outbox := .empty }, t.outbox)

/-- A connection to one more peer, and its number. -/
def connect (t : Transfer) (l : Link) : Transfer × Nat :=
  ({ t with links := t.links.push l }, t.links.size)

end Transfer

end FileSwarm
