import Std.Data.HashSet
import FileSwarm.Delta.Matching

/-!
# Plans: what a local copy is good for

A `Plan` counts the blocks of a file that a local copy has, each once however often it was found, and
the bytes that can be reused or have to be fetched.
-/

namespace FileSwarm

structure Plan where
  blocks : Nat
  matched : Nat
  reusable : Nat
  fetch : Nat
deriving DecidableEq, Repr

namespace Plan

/-- The blocks that were found. -/
def found (l : List BlockMatch) : Std.HashSet UInt64 := l.foldl (fun s m => s.insert m.index) ∅

/-- The plan of a signature and what matches it; a fault if the blocks found have more bytes than the
file. -/
def ofMatches (s : Signature) (l : List BlockMatch) : Except Fault Plan := do
  let indexes := (found l).toList
  let reusable ← sumChecked (indexes.map fun i => (s.blockRange i).length)
  let fetch ← subChecked s.fileLength.toNat reusable
  return ⟨s.blocks.length, indexes.length, reusable, fetch⟩

/-- The reusable bytes in percent; all of an empty file. -/
def percent (p : Plan) (fileLength : Nat) : Float :=
  if fileLength = 0 then 100.0
  else p.reusable.toUInt64.toFloat * 100.0 / fileLength.toUInt64.toFloat

end Plan

end FileSwarm
