import FileSwarm.Decimal.Shortest
import FileSwarm.Text

/-!
# Decimal numerals of doubles

Digits with at most one point among them, then perhaps `e` and a power of ten, or a name for an
infinity or for what is no number; a sign may stand before each.

* `Double` : what a numeral stands for;
* `Double.ofText?` : reads a numeral, to the nearest double;
* `Double.text` : the fewest digits that stand for it;
* `Double.rank` : doubles as whole numbers in the same order.
-/

namespace FileSwarm.Decimal

/-- What a numeral stands for. -/
inductive Double where
  | finite (negative : Bool) (units : Nat)
  | infinite (negative : Bool)
  | noNumber
deriving DecidableEq, Repr

namespace Double

/-- The number that digits denote. -/
def ofDigits (digits : List Char) : Nat := digits.foldl (fun n c => 10 * n + (c.toNat - 48)) 0

/-- A power of ten, with its sign. -/
def exponent? (cs : List Char) : Option Int :=
  let number (digits : List Char) : Option Int :=
    if digits ≠ [] && digits.all Char.isDigit then some (ofDigits digits : Int) else none
  match cs with
  | '-' :: rest => (number rest).map (- ·)
  | '+' :: rest => number rest
  | _ => number cs

/-- A numeral without a sign, as a whole number and the power of ten it is to be multiplied with. -/
def scientific? (cs : List Char) : Option (Nat × Int) :=
  let whole := cs.takeWhile Char.isDigit
  let afterWhole := cs.dropWhile Char.isDigit
  let pointed := afterWhole.head? = some '.'
  let places := if pointed then (afterWhole.drop 1).takeWhile Char.isDigit else []
  let rest := if pointed then (afterWhole.drop 1).dropWhile Char.isDigit else afterWhole
  let digits := whole ++ places
  let number (exponent : Int) := (ofDigits digits, exponent - places.length)
  if digits = [] then none
  else match rest with
    | [] => some (number 0)
    | c :: power => if c = 'e' || c = 'E' then (exponent? power).map number else none

/-- The double nearest to `n * 10 ^ j`. -/
def ofScientific (negative : Bool) (n : Nat) (j : Int) : Double :=
  if n = 0 || width n + j < -330 then finite negative 0
  else if 310 < width n + j then infinite negative
  else
    let units := nearest (n * tenTo j.toNat) (tenTo (-j).toNat)
    if units < beyondAll then finite negative units else infinite negative

/-- The double of a numeral without a sign. -/
def ofUnsigned? (negative : Bool) (cs : List Char) : Option Double :=
  match scientific? cs with
  | some (n, j) => some (ofScientific negative n j)
  | none =>
    let name := Text.lower (String.ofList cs)
    if name = "inf" || name = "infinity" then some (infinite negative)
    else if name = "nan" then some noNumber
    else none

/-- The double that a numeral stands for. -/
def ofText? (text : String) : Option Double :=
  match text.toList with
  | '-' :: rest => ofUnsigned? true rest
  | '+' :: rest => ofUnsigned? false rest
  | cs => ofUnsigned? false cs

def signText (negative : Bool) : String := if negative then "-" else ""

def text : Double → String
  | finite negative units => signText negative ++ shortest units
  | infinite negative => signText negative ++ "inf"
  | noNumber => "NaN"

/-- Where a double stands among all; what is no number comes last. -/
def rank : Double → Int
  | finite negative units => if negative then -(units : Int) else units
  | infinite negative => if negative then -(beyondAll : Int) else beyondAll
  | noNumber => beyondAll + 1

end Double

end FileSwarm.Decimal
