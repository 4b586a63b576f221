/-!
# Runs of characters

A set of characters beyond ASCII is a list of numbers: where its runs begin, and where they are
over, in turns.

* `inRuns` : whether a character is in one of the runs.
-/

namespace FileSwarm.Text

/-- A character is in a run if an odd number of bounds were passed up to it. -/
def inRuns (bounds : List Nat) (c : Char) : Bool :=
  0x80 ≤ c.toNat && bounds.countP (· ≤ c.toNat) % 2 = 1

end FileSwarm.Text
