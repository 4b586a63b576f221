import FileSwarm.Delta.Matching
import FileSwarm.PartMap

/-!
# Copying: matched blocks into the temp file

`copyMatches` gives the temp file its final length and copies every block that has a match of the
right length, from its first such match. What it copied is available in the part map it returns, all
else needed.
-/

namespace FileSwarm.Bench

variable {σ : Type} (b : Bench σ)

/-- Copy the matches still to be looked at; `done` of `total` were. -/
def copyEach (source : String) (origin : Handle) (target : String) (into : Handle) (s : Signature)
    (total : Nat) : (done : Nat) → PartMap → List BlockMatch → Work σ PartMap
  | _, parts, [] => return parts
  | done, parts, m :: rest => do
    let block := s.blockRange m.index
    if block.length ≠ m.place.length ∨ parts.count block .available = block.length then
      copyEach source origin target into s total (done + 1) parts rest
    else
      let bytes ← b.ask source (·.readExact origin m.place.start block.length)
      b.change target (·.writeAt into block.start bytes)
      b.report (percentOf (done + 1) total)
      copyEach source origin target into s total (done + 1) (parts.set block .available) rest

/-- Copy matched blocks from `source` into the temp file `into`, which has the path `target`. -/
def copyMatches (source target : String) (into : Handle) (s : Signature)
    (matched : List BlockMatch) : Work σ PartMap := do
  b.change target (·.setLength into s.fileLength.toNat)
  let parts := PartMap.blank s.fileLength.toNat
  if matched.isEmpty then
    b.report 100
    return parts
  else
    let origin ← b.ask source (·.openFile source)
    let parts ← b.copyEach source origin target into s matched.length 0 parts matched
    b.report 100
    return parts

end FileSwarm.Bench
