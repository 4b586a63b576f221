import FileSwarm.ByteCount
import FileSwarm.CommandLine.Invocation
import FileSwarm.CommandLine.Shell
import FileSwarm.Swarm.Basic

/-!
# The command that fetches a file

The file is fetched from servers in this process that have the reference. What stands where the file
goes is the local copy, unless another one is named or none is wanted. A transfer that has not ended
when the time is over is given up: its temp file is taken away. When the file is complete it takes the
place of the target.

* `Swarm.giveUp` : what is done when the time is over;
* `Watch`, `Watch.next` : how the command waits, one look at the transfer after another;
* `deadline` : when the time is over;
* `fetch` : the transfer from its beginning until it is over or given up;
* `runSync` : the command.
-/

namespace FileSwarm

/-- The transfer is aborted and its temp file taken away. -/
def Swarm.giveUp (s : Swarm) : Swarm :=
  { s with transfer := s.transfer.abortAndCleanUp }.settle

namespace CommandLine

open Shell

/-- How often it is looked whether the time is over, in milliseconds. -/
def pollInterval : Nat := 100

/-- When a transfer is given up, in milliseconds: it is looked at once at least. -/
def deadline (a : SyncArguments) : Nat := max pollInterval (1000 * a.timeout)

/-- What is to be fetched. -/
def targetOf (a : SyncArguments) (size : Nat) (modified : Stamp) : Target :=
  let t := Target.ofPath a.target size modified
  if a.noDelta then { t with candidate := none }
  else
    match a.candidate with
    | some path => { t with candidate := some path }
    | none => t

/-- The servers, of which one is enough if it streams. -/
def serversOf (a : SyncArguments) : List Server :=
  let caps : Capabilities := if a.streaming then .streaming else .full
  (List.range (if a.streaming then 1 else a.servers)).map fun i =>
    { Server.fresh s!"peer-{i + 1}" caps with latency := a.latency }

/-- All servers join. -/
def joinAll (s : Swarm) (servers : List Server) : Except TransferError Swarm :=
  servers.foldlM (fun s v =>
    match s.join v with
    | (s, none) => .ok s
    | (_, some e) => .error e) s

/-- Where the command is while it waits for the end. The transfer goes on between any two of these. -/
inductive Watch where
  /-- It is about to look whether the transfer is over. -/
  | looking
  /-- The transfer was not over. -/
  | undecided
  /-- It is about to give the transfer up. -/
  | leaving
  /-- It is about to read what the transfer came to. -/
  | reading
  | done (phase : Phase)
deriving DecidableEq, Repr, Inhabited

namespace Watch

/-- Where it is next, with the transfer in a phase. `late` says whether the time is over or the user
interrupts. -/
def next (phase : Phase) (late : Bool) : Watch → Watch
  | looking => if phase.isFinal then reading else undecided
  | undecided => if late then leaving else looking
  | leaving => reading
  | reading => done phase
  | done result => done result

/-- Whether its next step is to give up. -/
def givesUp : Watch → Bool
  | leaving => true
  | _ => false

end Watch

/-- Steps of the watch with nothing in between, when the time is over. -/
def watchFor : Nat → Swarm × Watch → Swarm × Watch
  | 0, s => s
  | steps + 1, (s, w) =>
    let s := if w.givesUp then s.giveUp else s
    watchFor steps (s, w.next s.transfer.phase true)

/-- The transfer, ended or given up: it is looked at, given up if it is not over, and its phase is read. -/
def await (a : SyncArguments) (s : Swarm) : Swarm :=
  (watchFor 4 (s.run (some (deadline a)), .looking)).1

/-- What was done, for people. -/
def report (t : Transfer) (destination : String) : Shell Unit := do
  let m := t.metrics
  let ratio ← orFail .fault m.reuseRatio
  let share := Decimal.fixed 0 (ratio * 100.0)
  say "Transfer complete"
  say "─────────────────"
  say s!"  File:      {destination}"
  say s!"  Size:      {ByteCount.text t.target.size}"
  say s!"  Received:  {ByteCount.text m.bytesReceived.toNat} in {m.chunksReceived} chunks"
  say s!"  Reused:    {ByteCount.text m.bytesReused.toNat} ({share}%)"
  say s!"  Requests:  {m.partRequests}"

/-- The transfer as it is when nobody waits for it any more. -/
def fetch (tuning : Tuning) (a : SyncArguments) : Shell Transfer := do
  if a.servers = 0 then throw .noServers
  let size ← ask (.access a.reference) (·.size a.reference)
  let modified := ((← get).disk.stamp? a.reference).getD ⟨0, 0⟩
  let tuning := tuning.override a.maxChunk a.maxRequests a.selection
  let t ← changeBy .transfer (Transfer.create (targetOf a size modified) tuning .swarming)
  let s ← orFail .transfer (joinAll (.ofTransfer t a.reference) (serversOf a))
  let t := (await a s).transfer
  modify fun c => { c with disk := t.disk }
  return t

def runSync (tuning : Tuning) (a : SyncArguments) : Shell Unit := do
  let t ← fetch tuning a
  match t.phase with
  | .completed =>
    if a.keepTemp then report t t.target.temp
    else
      change (.access a.target) (·.rename t.target.temp a.target)
      report t a.target
  | .broken => throw .broken
  | phase => throw (.stopped phase)

end CommandLine

end FileSwarm
