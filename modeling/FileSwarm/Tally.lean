import FileSwarm.Offset

/-!
# Tallies: how far a transfer is

* `percentOf` : whole percents of a stage, as reported to listeners;
* `Tally` : bytes transferred so far, starting from those that were there before.
-/

namespace FileSwarm

/-- Whole percents of `done` out of `total`; an empty total is done. -/
def percentOf (done total : Nat) : Nat :=
  if total = 0 then 100 else min done total * 100 / total

theorem percentOf_le (done total : Nat) : percentOf done total ≤ 100 := by
  unfold percentOf
  split
  · exact Nat.le_refl _
  · exact Nat.div_le_of_le_mul (Nat.mul_le_mul_right 100 (Nat.min_le_right done total))

/-- Bytes transferred out of `total`, of which `initial` were there at the start. -/
structure Tally where
  initial : Nat
  transferred : Nat
  total : Nat
deriving DecidableEq, Repr, Inhabited

namespace Tally

def start (initial total : Nat) : Tally := ⟨initial, initial, total⟩

/-- Count `n` more bytes. -/
def add (t : Tally) (n : Nat) : Tally := { t with transferred := addCapped t.transferred n }

/-- Start over from nothing. -/
def reset (t : Tally) : Tally := { t with initial := 0, transferred := 0 }

/-- Whether bytes arrived since the start. -/
def isMoving (t : Tally) : Bool := t.initial < t.transferred

/-- The share of the total, in percent; an empty total is done. -/
def percent (t : Tally) : Float :=
  if t.total = 0 then 100.0
  else (min t.transferred t.total).toUInt64.toFloat / t.total.toUInt64.toFloat * 100.0

end Tally

end FileSwarm
