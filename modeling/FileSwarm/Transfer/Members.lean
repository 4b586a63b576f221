import FileSwarm.Transfer.Exchange

/-!
# Peers come and go, and send data

* `addPeer`, `peerReady`, `removePeer` : a peer joins, says that it takes requests, leaves;
* `receiveChunk` : bytes came from a peer.

After each of them the transfer asks for whatever it can ask for.
-/

namespace FileSwarm.Transfer

/-- Let a peer join, unless the transfer is over. It is told where to start, which matters to one that
streams. -/
def addPeer (t : Transfer) (s : Share) : Transfer × Option TransferError :=
  if t.phase.isFinal then (t, none)
  else if t.isAttached s.id then (t, some (.duplicate s.id))
  else
    match t.admission.refusal? t.shares.length t.byParts s.caps with
    | some reason => (t, some (.refused s.id reason))
    | none =>
      let s := s.withBudget t.tuning.maxRequests
      let offset := ((t.parts.bind (·.first? .needed)).map (·.start)).getD 0
      let t := t.tell s.link (.file offset)
      let t : Transfer := { t with shares := t.shares ++ [s] }
      if t.target.size = 0 then (t.complete, none)
      else
        let t := if t.phase = .initial && t.parts.isSome then t.setPhase .downloading else t
        (t.ensureSignature.sendRequests, none)

/-- A peer takes requests from now on. -/
def peerReady (t : Transfer) (id : String) : Transfer × Option TransferError :=
  if !t.isAttached id then (t, some (.unknown id))
  else if t.phase.isFinal then (t, none)
  else ((t.updateShare id Share.start).ensureSignature.sendRequests, none)

/-- The bytes of a range that were asked for and did not come are needed again. -/
def revert (m : PartMap) (r : ByteRange) : PartMap :=
  ((m.parts.filter (·.2 = .pending)).filterMap fun p => p.1.inter? r).foldl
    (fun m r => m.set r .needed) m

/-- A peer leaves. What it owes is needed again. -/
def removePeer (t : Transfer) (id : String) : Transfer × Option TransferError :=
  match t.share? id with
  | none => (t, some (.unknown id))
  | some s =>
    let t : Transfer := { t with shares := t.shares.eraseP (·.id == id) }
    if t.phase.isFinal then (t, none)
    else
      let t : Transfer := { t with
        metrics := t.metrics.lose
        parts := t.parts.map fun m => s.pending.foldl revert m
        owing := if t.owing = some id then none else t.owing }
      (t.ensureSignature.sendRequests, none)

/-- Bytes that are in the temp file now count as there. -/
def creditChunk (t : Transfer) (id : String) (r : ByteRange) (m : PartMap) : Transfer :=
  let m := m.set r .available
  let t : Transfer := { t.updateShare id (·.receive r) with
    tally := t.tally.add r.length
    metrics := t.metrics.chunk r.length
    parts := some m }
  if m.isComplete then t.checkComplete else t.sendRequests

/-- Bytes came from a peer. They are of no interest if the transfer is over, the peer is not attached,
they do not lie in the file or it is not known yet what is needed. An end past the last offset is a
fault. -/
def receiveChunk (t : Transfer) (id : String) (offset : Nat) (bytes : ByteArray) :
    Except Fault Transfer :=
  let r : ByteRange := ⟨offset, bytes.size⟩
  if t.phase.isFinal || !t.isAttached id || r.isEmpty then .ok t
  else do
    let stop ← r.stop?
    if t.target.size < stop then return t
    match t.parts, t.temp with
    | some m, some temp =>
      match t.disk.writeAt temp offset bytes with
      | .error cause => return t.breakDown (.failure (.write t.target.temp cause))
      | .ok disk => return { t with disk }.creditChunk id r m
    | _, _ => return t

end FileSwarm.Transfer
