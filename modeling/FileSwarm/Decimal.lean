/-!
# Decimal text with a fixed number of places

A double stands for a dyadic number exactly; its text is the nearest number with so many decimal
places, and of two that are as near the one with the even last digit.

* `divRound` : a quotient rounded to the nearest whole number, halves to the even one;
* `Dyadic.ofFloat?` : the number a finite double stands for;
* `fixed` : the text.
-/

namespace FileSwarm.Decimal

/-- `num / den`, rounded to the nearest whole number; a half goes to the even neighbour. -/
def divRound (num den : Nat) : Nat :=
  let q := num / den
  let twice := 2 * (num % den)
  if twice < den then q
  else if den < twice then q + 1
  else q + q % 2

/-- The number `mantissa * 2 ^ up / 2 ^ down`, with its sign. -/
structure Dyadic where
  negative : Bool
  mantissa : Nat
  up : Nat
  down : Nat
deriving DecidableEq, Repr

/-- The highest digit of a mantissa, which is not stored. -/
def hiddenBit : Nat := 1 <<< 52

/-- The number of a bit pattern; none for infinities and those that are no numbers. -/
def Dyadic.ofBits? (b : Nat) : Option Dyadic :=
  let negative := (b >>> 63) % 2 = 1
  let exponent := (b >>> 52) % 2048
  let fraction := b % hiddenBit
  if exponent = 2047 then none
  else if exponent = 0 then some ⟨negative, fraction, 0, 1074⟩
  else some ⟨negative, fraction + hiddenBit, exponent - 1075, 1075 - exponent⟩

/-- The power of ten. -/
def tenTo : Nat → Nat
  | 0 => 1
  | n + 1 => 10 * tenTo n

/-- The number times `10 ^ places`, rounded. -/
def Dyadic.scaled (x : Dyadic) (places : Nat) : Nat :=
  divRound ((x.mantissa <<< x.up) * tenTo places) (1 <<< x.down)

/-- Digits to the width of `width`, zeros in front. -/
def padded (width n : Nat) : String :=
  let digits := toString n
  String.ofList (List.replicate (width - digits.length) '0') ++ digits

/-- The text of `n / 10 ^ places`. -/
def ofScaled (places n : Nat) : String :=
  if places = 0 then toString n
  else s!"{n / tenTo places}.{padded places (n % tenTo places)}"

/-- A double with so many places. -/
def fixed (places : Nat) (x : Float) : String :=
  match Dyadic.ofBits? x.toBits.toNat with
  | some d => (if d.negative then "-" else "") ++ ofScaled places (d.scaled places)
  | none => if x.isNaN then "NaN" else if x < 0.0 then "-inf" else "inf"

end FileSwarm.Decimal
