import FileSwarm.Decimal
import FileSwarm.Offset

/-!
# Counters of what transfers did

Each counter starts over at zero after `2^64 - 1`. `Metrics.text` is a summary of four lines.
-/

namespace FileSwarm

structure Metrics where
  chunksReceived : UInt64
  bytesReceived : UInt64
  bytesReused : UInt64
  partRequests : UInt64
  signatureRequests : UInt64
  sourcesLost : UInt64
  mismatches : UInt64
  completed : UInt64
  broken : UInt64
deriving DecidableEq, Repr, Inhabited

namespace Metrics

def zero : Metrics := ⟨0, 0, 0, 0, 0, 0, 0, 0, 0⟩

/-- A chunk of `n` bytes came. -/
def chunk (m : Metrics) (n : Nat) : Metrics :=
  { m with chunksReceived := m.chunksReceived + 1, bytesReceived := m.bytesReceived + n.toUInt64 }

/-- `n` bytes of a local copy were of use. -/
def reuse (m : Metrics) (n : Nat) : Metrics := { m with bytesReused := m.bytesReused + n.toUInt64 }

/-- A range was asked for. -/
def askPart (m : Metrics) : Metrics := { m with partRequests := m.partRequests + 1 }

/-- A signature was asked for. -/
def askSignature (m : Metrics) : Metrics := { m with signatureRequests := m.signatureRequests + 1 }

/-- A peer left. -/
def lose (m : Metrics) : Metrics := { m with sourcesLost := m.sourcesLost + 1 }

/-- An assembled file had the wrong hash. -/
def mismatch (m : Metrics) : Metrics := { m with mismatches := m.mismatches + 1 }

/-- A transfer was completed. -/
def complete (m : Metrics) : Metrics := { m with completed := m.completed + 1 }

/-- A transfer broke. -/
def breakDown (m : Metrics) : Metrics := { m with broken := m.broken + 1 }

/-- The reused bytes among those received and reused; a fault if these are too many to count. -/
def reuseRatio (m : Metrics) : Except Fault Float :=
  (addChecked m.bytesReceived.toNat m.bytesReused.toNat).map fun total =>
    if total = 0 then 0.0 else m.bytesReused.toFloat / total.toUInt64.toFloat

/-- The summary, with the bytes received in a second on the average. -/
def text (m : Metrics) (rate : Float) : Except Fault String := do
  let ratio ← m.reuseRatio
  let speed := Decimal.fixed 1 (rate / 1024.0)
  let share := Decimal.fixed 1 (ratio * 100.0)
  return "\n".intercalate [
    s!"received: {m.bytesReceived} bytes in {m.chunksReceived} chunks ({speed} KB/s)",
    s!"reused:   {m.bytesReused} bytes ({share}%)",
    s!"requests: {m.partRequests} parts, {m.signatureRequests} records",
    s!"outcome:  {m.completed} completed, {m.broken} broken, " ++
      s!"{m.mismatches} verification failures, {m.sourcesLost} sources lost"]

end Metrics

end FileSwarm
