import FileSwarm.Decimal

/-!
# The fewest digits that stand for a double

The size of a finite double is a whole number of units, the unit being the least double above zero,
`2 ^ -1074`. A decimal `d * 10 ^ j` stands for the double that is nearest to it.

* `gap` : how far the next double is; `lowest`, `highest` : the ends of what is read as a double, in
  quarters of a unit;
* `nearest` : the double nearest to a quotient, halves to the even one;
* `readsBack` : whether a decimal stands for a double;
* `fewest` : of the decimals that stand for a double one with the fewest digits, the nearest of them,
  and the higher of two that are as near;
* `shortest` : its text, without an exponent.
-/

namespace FileSwarm.Decimal

/-- The units in one. -/
def unitsInOne : Nat := 1 <<< 1074

/-- How many units the double after one of this size is away. -/
def gap (units : Nat) : Nat := 1 <<< (units.log2 - 52)

/-- The units of the double nearest to `num / den`. -/
def nearest (num den : Nat) : Nat :=
  let exact := num * unitsInOne
  let step := gap (exact / den)
  step * divRound exact (den * step)

/-- The first size that is no double. -/
def beyondAll : Nat := 1 <<< 2098

/-- Whether the double below is half as far away as the one above. -/
def isNarrow (units : Nat) : Bool := 1 < gap units && units = gap units <<< 52

/-- The lower end of what is nearest to a double, in quarters of a unit. -/
def lowest (units : Nat) : Nat := 4 * units - (if isNarrow units then gap units else 2 * gap units)

/-- The upper end. -/
def highest (units : Nat) : Nat := 4 * units + 2 * gap units

/-- The ends are read as the even one of the two doubles. -/
def hasEnds (units : Nat) : Bool := units / gap units % 2 = 0

/-- Whether `d * 10 ^ j` is read as a double. -/
def readsBack (units : Nat) (j : Int) (d : Nat) : Bool :=
  let point := 4 * d * unitsInOne * tenTo j.toNat
  let low := lowest units * tenTo (-j).toNat
  let high := highest units * tenTo (-j).toNat
  if hasEnds units then low ≤ point && point ≤ high else low < point && point < high

/-- The decimals with steps of `10 ^ j` next to a double, if they stand for it: of two the nearer. -/
def neighbour? (units : Nat) (j : Int) : Option Nat :=
  let num := units * tenTo (-j).toNat
  let den := unitsInOne * tenTo j.toNat
  let below := num / den
  match readsBack units j below, readsBack units j (below + 1) with
  | true, true => some (if 2 * num < (2 * below + 1) * den then below else below + 1)
  | true, false => some below
  | false, true => some (below + 1)
  | false, false => none

/-- How many digits a number has. -/
def width (n : Nat) : Nat := (toString n).length

/-- The power of ten just above a double, or the double itself. -/
def leading (units : Nat) : Int :=
  if unitsInOne ≤ units then width (units / unitsInOne) else 1 - (width (unitsInOne / units) : Int)

/-- Search steps of fewer and fewer tens; with more digits than any needs, the double as it is. -/
def search (units : Nat) : Nat → Int → Nat × Int
  | 0, _ => (units * (tenTo 1074 >>> 1074), -1074)
  | tries + 1, j =>
    match neighbour? units j with
    | some d => (d, j)
    | none => search units tries (j - 1)

/-- A decimal with the fewest digits. -/
def fewest (units : Nat) : Nat × Int :=
  if units = 0 then (0, 0) else search units 20 (leading units)

/-- The text of a double's size. -/
def shortest (units : Nat) : String :=
  let (d, j) := fewest units
  ofScaled (-j).toNat (d * tenTo j.toNat)

end FileSwarm.Decimal
