import FileSwarm.Transfer.State

/-!
# What can be asked of a transfer
-/

namespace FileSwarm.Transfer

/-- The share of the file that is there, in percent. -/
def percent (t : Transfer) : Float := if t.phase = .completed then 100.0 else t.tally.percent

def counts? (t : Transfer) : Option PartCounts := t.parts.map (·.counts)

/-- How many peers take requests. -/
def startedCount (t : Transfer) : Nat := t.shares.countP (·.started)

/-- All open requests. -/
def pendingCount (t : Transfer) : Nat := sumOf (t.shares.map (·.pending.length))

/-- The open requests of a peer. -/
def pendingOf? (t : Transfer) (id : String) : Option (List ByteRange) := (t.share? id).map (·.pending)

def hasSignature (t : Transfer) : Bool := t.signature.isSome

end FileSwarm.Transfer
