import FileSwarm.Peer.Selection
import FileSwarm.Signature.Basic

/-!
# Tuning: the numbers a transfer works with

The `with...` functions keep the numbers a transfer could not live with at zero at one.
-/

namespace FileSwarm

structure Tuning where
  /-- The longest range asked of a peer at once. -/
  maxChunk : Nat
  /-- The smallest file for which a local copy is looked at. -/
  minDelta : Nat
  /-- Open requests per peer. -/
  maxRequests : Nat
  /-- The block length of signatures; by default it depends on the file. -/
  blockLength : Option Nat
  selection : Selection
  /-- Mismatching hashes in a row after which a transfer breaks. -/
  maxMismatches : Nat
  /-- Worker threads, one per processor if zero. -/
  workers : Nat
deriving DecidableEq, Repr

namespace Tuning

def defaultMaxChunk : Nat := 32768

def standard : Tuning where
  maxChunk := defaultMaxChunk
  minDelta := 8000
  maxRequests := 15
  blockLength := none
  selection := .firstEligible
  maxMismatches := 3
  workers := 0

instance : Inhabited Tuning := ⟨standard⟩

def withMaxChunk (t : Tuning) (n : Nat) : Tuning := { t with maxChunk := max n 1 }

def withMinDelta (t : Tuning) (n : Nat) : Tuning := { t with minDelta := n }

def withMaxRequests (t : Tuning) (n : Nat) : Tuning := { t with maxRequests := max n 1 }

def withBlockLength (t : Tuning) (n : Nat) : Tuning := { t with blockLength := some (max n 1) }

def withSelection (t : Tuning) (s : Selection) : Tuning := { t with selection := s }

def withMaxMismatches (t : Tuning) (n : Nat) : Tuning := { t with maxMismatches := max n 1 }

def withWorkers (t : Tuning) (n : Nat) : Tuning := { t with workers := n }

/-- The tuning with some of its numbers replaced for one run. -/
def override (t : Tuning) (maxChunk maxRequests : Option Nat) (selection : Option Selection) : Tuning :=
  let t := maxChunk.elim t t.withMaxChunk
  let t := maxRequests.elim t t.withMaxRequests
  selection.elim t t.withSelection

/-- The block length for a file. -/
def blockLengthFor (t : Tuning) (fileLength : Nat) : Nat :=
  t.blockLength.getD (Signature.defaultBlockLength fileLength)

end Tuning

end FileSwarm
