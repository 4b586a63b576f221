import FileSwarm.Transfer.State

/-!
# How a transfer ends

A transfer ends completed, broken or aborted, once. Then it gives back what it held (`release`) and
stamps the temp file with the time of change the file has at its peers.
-/

namespace FileSwarm.Transfer

/-- Let go of the part map, the signature and the temp file. Jobs under way lose their meaning each
time, the rest happens once. -/
def release (t : Transfer) : Transfer :=
  let t : Transfer := { t with epoch := t.epoch + 1 }
  if t.released then t
  else
    { t with
      released := true
      parts := none
      signature := none
      owing := none
      temp := none
      disk := (t.disk.setStamp t.target.temp t.target.modified).toOption.getD t.disk }

/-- The file is there. -/
def complete (t : Transfer) : Transfer :=
  if t.phase.isFinal then t
  else
    let t := t.setPhase .completed
    let t : Transfer := { t with metrics := t.metrics.complete }
    t.release.notify .completed

/-- The transfer cannot go on. -/
def breakDown (t : Transfer) (why : Breakage) : Transfer :=
  if t.phase.isFinal then t
  else
    let t := t.setPhase .broken
    let t : Transfer := { t with metrics := t.metrics.breakDown, shares := t.shares.map Share.markBroken }
    (t.tellAll .abort).release.notify (.broken why)

/-- The caller ends the transfer. -/
def breakByCaller (t : Transfer) : Transfer := t.breakDown .byCaller

/-- The caller wants no more of it; a second time nothing happens. -/
def abort (t : Transfer) : Transfer :=
  if t.aborted then t
  else
    let t : Transfer := { t with aborted := true }.tellAll .abort
    let t := if t.phase.isFinal then t else t.setPhase .aborted
    t.release

/-- Abort, and take the temp file away. -/
def abortAndCleanUp (t : Transfer) : Transfer :=
  let t := t.abort
  { t with disk := (t.disk.remove t.target.temp).toOption.getD t.disk }

end FileSwarm.Transfer
