import FileSwarm.Tally
import FileSwarm.Delta.Failure
import FileSwarm.Disk.Basic

/-!
# Passes over files

A pass reads files piece by piece and reports how far it is. Between two pieces the listener may do
anything to the state the pass runs in, the disk included, and may ask it to stop. `Bench` says how
a pass sees such a state: where its disk is, what reporting a percentage does, and how much a read
gives, which may be less than was asked for.

* `Work σ` : a pass over a state `σ`, which the state outlives if the pass fails;
* `Bench.quiet`, `Work.on` : passes over a disk alone, with nobody to listen;
* `Bench.report` : tell the listener, and fail with `cancelled` if it says no;
* `Bench.eachPiece` : read a file to its end and fold a function over the pieces.
-/

namespace FileSwarm

/-- A pass over a state, with a result or a failure. -/
abbrev Work (σ α : Type) := ExceptT Failure (StateM σ) α

/-- The largest piece read at once. -/
def Bench.pieceSize : Nat := 65536

/-- A state with a disk in it, and its listener. -/
structure Bench (σ : Type) where
  disk : σ → Disk
  putDisk : Disk → σ → σ
  /-- Hear a percentage; `false` asks the pass to stop. -/
  listen : Nat → σ → Bool × σ
  /-- How many bytes a read at an offset may give. -/
  granted : Nat → Nat := fun _ => Bench.pieceSize

/-- A disk alone. -/
def Bench.quiet : Bench Disk where
  disk d := d
  putDisk d _ := d
  listen _ d := (true, d)

/-- The result of a pass that does not change the disk. -/
def Work.on (d : Disk) (w : Work Disk α) : Except Failure α := (w.run.run d).1

namespace Bench

variable {σ : Type} (b : Bench σ)

/-- How many bytes a read at `offset` gives, if the file has them: at least one. -/
def readSize (offset : Nat) : Nat := max 1 (min (b.granted offset) pieceSize)

theorem readSize_pos (offset : Nat) : 0 < b.readSize offset := Nat.le_max_left _ _

/-- Ask the disk, whose failure is a failed read of `path`. -/
def ask (path : String) (f : Disk → Except Cause α) : Work σ α := do
  match f (b.disk (← get)) with
  | .ok a => return a
  | .error cause => throw (.ofRead path cause)

/-- Change the disk, whose failure is a failed write of `path`. -/
def change (path : String) (f : Disk → Except Cause Disk) : Work σ Unit := do
  match f (b.disk (← get)) with
  | .ok d => modify (b.putDisk d)
  | .error cause => throw (.write path cause)

/-- Tell the listener how far the pass is. -/
def report (percent : Nat) : Work σ Unit := do
  let (go, s) := b.listen percent (← get)
  set s
  unless go do throw .cancelled

/-- Fold `f` over the pieces of an open file from `offset` on. Every piece is reported. A file has fewer
than `seekLimit` bytes, so the reading ends. -/
def eachPiece (path : String) (file : Handle) (total : Nat) (f : β → ByteArray → β) (acc : β)
    (offset : Nat) : Work σ β := do
  let piece ← b.ask path (·.readAt file offset (b.readSize offset))
  if _h : offset < Disk.seekLimit ∧ 0 < piece.size then
    b.report (percentOf (offset + piece.size) total)
    eachPiece path file total f (f acc piece) (offset + piece.size)
  else return acc
termination_by Disk.seekLimit - offset
decreasing_by omega

end Bench

end FileSwarm
