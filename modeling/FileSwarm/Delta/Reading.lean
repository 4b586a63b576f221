import FileSwarm.Delta.Bench
import FileSwarm.Signature.Builder

/-!
# Reading whole files: signatures and hashes
-/

namespace FileSwarm.Bench

variable {σ : Type} (b : Bench σ)

/-- The signature of a file. -/
def signFile (path : String) (blockLength : Nat) : Work σ Signature := do
  let h ← b.ask path (·.openFile path)
  let total ← b.ask path fun d => .ok (d.sizeOf h)
  let builder ← b.eachPiece path h total Signature.Builder.update
    (Signature.Builder.start blockLength) 0
  return builder.finish

/-- The hash of a file. -/
def hashFile (path : String) : Work σ Digest := do
  let h ← b.ask path (·.openFile path)
  let total ← b.ask path fun d => .ok (d.sizeOf h)
  let content ← b.eachPiece path h total (· ++ ·) ByteArray.empty 0
  return Sha256.digest content

/-- Whether a file has a given hash. -/
def verifyFile (path : String) (expected : Digest) : Work σ Bool := do
  return (← b.hashFile path) == expected

end FileSwarm.Bench
