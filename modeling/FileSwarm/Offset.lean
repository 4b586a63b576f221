/-!
# Offsets: 64-bit arithmetic and its faults

* `maxOffset` : the largest offset or length a file can have;
* `Fault` : why an operation stopped without an answer (`Fault.text` is its wording);
* `addChecked`, `subChecked`, `mulChecked` : sums, differences and products that must stay offsets;
* `addCapped`, `mulCapped` : sums and products that stay at `maxOffset` when they would pass it.

Offsets are plain numbers; only the operations named here know the bound.
-/

namespace FileSwarm

/-- The largest offset, `2^64 - 1`. -/
def maxOffset : Nat := 18446744073709551615

/-- Why an operation stopped without an answer: an offset left the 64-bit range, or a listener
called back by the operation raised a message of its own. -/
inductive Fault where
  | addOverflow
  | subOverflow
  | mulOverflow
  | raised (message : String)
deriving DecidableEq, Repr, Inhabited

namespace Fault

def text : Fault → String
  | addOverflow => "attempt to add with overflow"
  | subOverflow => "attempt to subtract with overflow"
  | mulOverflow => "attempt to multiply with overflow"
  | raised message => message

end Fault

/-- The sum, or a fault if it is no offset. -/
def addChecked (a b : Nat) : Except Fault Nat :=
  if a + b ≤ maxOffset then .ok (a + b) else .error .addOverflow

/-- The difference, or a fault if it would be negative. -/
def subChecked (a b : Nat) : Except Fault Nat :=
  if b ≤ a then .ok (a - b) else .error .subOverflow

/-- The product, or a fault if it is no offset. -/
def mulChecked (a b : Nat) : Except Fault Nat :=
  if a * b ≤ maxOffset then .ok (a * b) else .error .mulOverflow

/-- The sum of a list. -/
def sumOf (l : List Nat) : Nat := l.foldr (· + ·) 0

/-- The sum of a list, or a fault if some partial sum is no offset. -/
def sumChecked (l : List Nat) : Except Fault Nat :=
  l.foldlM addChecked 0

/-- The sum, or `maxOffset` if that is less. -/
def addCapped (a b : Nat) : Nat := min (a + b) maxOffset

/-- The product, or `maxOffset` if that is less. -/
def mulCapped (a b : Nat) : Nat := min (a * b) maxOffset

theorem addChecked_eq_ok {a b : Nat} (h : a + b ≤ maxOffset) : addChecked a b = .ok (a + b) :=
  if_pos h

theorem subChecked_eq_ok {a b : Nat} (h : b ≤ a) : subChecked a b = .ok (a - b) :=
  if_pos h

theorem mulChecked_eq_ok {a b : Nat} (h : a * b ≤ maxOffset) : mulChecked a b = .ok (a * b) :=
  if_pos h

end FileSwarm
