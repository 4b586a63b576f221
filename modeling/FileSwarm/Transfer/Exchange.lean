import FileSwarm.Transfer.Ending
import FileSwarm.Transfer.Schedule

/-!
# Signatures and what follows from them

A transfer with delta-sync planned has no part map at first. It asks one peer for a signature of the
file; while it waits it holds to that peer (`owing`). If no attached peer can ever deliver one it
fetches the whole file.

* `ensureSignature` : some peer owes the signature, or the whole file is needed;
* `receiveSignature` : a peer delivered one;
* `finishDelta` : the local copy was matched and copied, or that failed;
* `checkComplete`, `finishVerify` : the file is assembled, and whether its hash is right.
-/

namespace FileSwarm.Transfer

/-- All of the file is needed. -/
def fetchAll (t : Transfer) : Transfer :=
  { t with
    parts := some (PartMap.blank t.target.size)
    tally := Tally.start 0 t.target.size }.setPhase .downloading

/-- Ask the first peer that can deliver a signature now; if none ever can, do without. -/
def askSignature (t : Transfer) : Transfer :=
  match t.shares.find? fun s => s.started && !s.broken && s.caps.supportsDelta with
  | some s =>
    let t := t.tell s.link .signature
    { t with metrics := t.metrics.askSignature, owing := some s.id }.setPhase .requestingSignature
  | none =>
    if t.shares.any fun s => !s.broken && s.caps.supportsDelta then t else t.fetchAll

/-- See to it that a peer owes the signature if one is still wanted. -/
def ensureSignature (t : Transfer) : Transfer :=
  if !t.delta || t.parts.isSome || t.signature.isSome || t.phase.isFinal then t
  else
    match t.owing with
    | none => t.askSignature
    | some id =>
      if (t.share? id).any (!·.broken) then t else { t with owing := none }.askSignature

/-- A signature came, from whomever. Only the first one counts, and it must fit the file. -/
def receiveSignature (t : Transfer) (s : Signature) : Transfer :=
  if t.phase.isFinal || t.signature.isSome then t
  else if s.fileLength.toNat ≠ t.target.size then
    t.breakDown (.failure (.lengthMismatch t.target.size s.fileLength.toNat))
  else
    match s.flaw? with
    | some flaw => t.breakDown (.failure (.invalid flaw))
    | none =>
      let t : Transfer := { t with signature := some s, owing := none }
      if t.parts.isSome then t
      else
        match t.target.candidate, t.temp with
        | none, _ => t.fetchAll.sendRequests
        | some _, none => t
        | some candidate, some temp =>
          (t.setPhase .matching).queueJob (.matchAndCopy t.epoch s candidate temp)

/-- The file is assembled: compare its hash with the signature's, if there is one. -/
def checkComplete (t : Transfer) : Transfer :=
  let t := t.setPhase .verifying
  match t.signature with
  | some s => t.queueJob (.verify t.epoch s.digest)
  | none => t.complete

/-- The local copy was looked at: what it had is available, all else needed. -/
def finishDelta (t : Transfer) : Except Failure PartMap → Transfer
  | .error f => t.breakDown (.failure f)
  | .ok parts =>
    let reused := parts.count parts.range .available
    let t : Transfer := { t with
      metrics := t.metrics.reuse reused
      tally := Tally.start reused t.target.size
      parts := some parts }
    if parts.isComplete then t.checkComplete else (t.setPhase .downloading).sendRequests

/-- The temp file was hashed. A wrong hash means to fetch everything again, or the end if it was wrong
too often. -/
def finishVerify (t : Transfer) : Except Failure Bool → Transfer
  | .error f => t.breakDown (.failure f)
  | .ok true => { t with mismatches := 0 }.complete
  | .ok false =>
    let t : Transfer := { t with mismatches := t.mismatches + 1, metrics := t.metrics.mismatch }
    if t.tuning.maxMismatches ≤ t.mismatches then t.breakDown (.mismatches t.mismatches)
    else
      let t : Transfer := { t with
        shares := t.shares.map Share.takePending
        parts := some (PartMap.blank t.target.size)
        tally := t.tally.reset }
      (t.setPhase .downloading).sendRequests

end FileSwarm.Transfer
