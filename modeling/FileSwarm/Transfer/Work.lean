import FileSwarm.Delta.Copying
import FileSwarm.Delta.Reading
import FileSwarm.Transfer.Members

/-!
# Jobs: what workers do beside the transfer

A job reads and writes files while the transfer goes on, and hands in results between two operations.
A result counts only if the transfer is still at the epoch at which the job was told
(`Transfer.isCurrent`). `Task` is a job at one of its steps: a step of work or one of handing in.

* `Transfer.acceptMatches`, `acceptCopy`, `acceptVerdict`, `acceptCrash` : handing in;
* `Transfer.bench` : work on the transfer's own disk, with nobody to listen; a job whose epoch is over
  is asked to stop;
* `Task.step` : one step.
-/

namespace FileSwarm

namespace Transfer

/-- Apply a result, if it still counts. -/
def accept (t : Transfer) (epoch : Nat) (f : Transfer → Transfer) : Transfer :=
  if t.isCurrent epoch then f t else t

/-- The local copy was searched: go on with copying, or break. -/
def acceptMatches (t : Transfer) (epoch : Nat) : Except Failure (List BlockMatch) → Transfer
  | .ok _ => t.accept epoch (·.setPhase .copying)
  | .error f => t.accept epoch (·.finishDelta (.error f))

def acceptCopy (t : Transfer) (epoch : Nat) (r : Except Failure PartMap) : Transfer :=
  t.accept epoch (·.finishDelta r)

def acceptVerdict (t : Transfer) (epoch : Nat) (r : Except Failure Bool) : Transfer :=
  t.accept epoch (·.finishVerify r)

/-- A job ended in a fault. -/
def acceptCrash (t : Transfer) (epoch : Nat) (message : String) : Transfer :=
  t.accept epoch (·.breakDown (.crashed message))

/-- Work on the transfer's disk. -/
def bench (epoch : Nat) : Bench Transfer where
  disk t := t.disk
  putDisk d t := { t with disk := d }
  listen _ t := (t.epoch == epoch, t)

end Transfer

/-- A job at one of its steps. -/
inductive Task where
  | search (epoch : Nat) (s : Signature) (candidate : String) (temp : Handle)
  | searched (epoch : Nat) (s : Signature) (candidate : String) (temp : Handle)
      (found : Except Failure (List BlockMatch))
  | copy (epoch : Nat) (s : Signature) (candidate : String) (temp : Handle) (found : List BlockMatch)
  | copied (epoch : Nat) (result : Except Failure PartMap)
  | hash (epoch : Nat) (digest : Digest)
  | hashed (epoch : Nat) (result : Except Failure Bool)

namespace Task

/-- A job that has not begun. -/
def ofJob : Job → Task
  | .matchAndCopy epoch s candidate temp => search epoch s candidate temp
  | .verify epoch digest => hash epoch digest

/-- One step of work or of handing in; the task after it, unless it is done. -/
def step (t : Transfer) : Task → Transfer × Option Task
  | search epoch s candidate temp =>
    let (found, t) := ((Transfer.bench epoch).findMatches candidate s).run.run t
    (t, some (searched epoch s candidate temp found))
  | searched epoch s candidate temp found =>
    (t.acceptMatches epoch found,
      match found with
      | .ok l => if t.isCurrent epoch then some (copy epoch s candidate temp l) else none
      | .error _ => none)
  | copy epoch s candidate temp found =>
    let (result, t) :=
      ((Transfer.bench epoch).copyMatches candidate t.target.temp temp s found).run.run t
    (t, some (copied epoch result))
  | copied epoch result => (t.acceptCopy epoch result, none)
  | hash epoch digest =>
    let (result, t) := ((Transfer.bench epoch).verifyFile t.target.temp digest).run.run t
    (t, some (hashed epoch result))
  | hashed epoch result => (t.acceptVerdict epoch result, none)

end Task

end FileSwarm
