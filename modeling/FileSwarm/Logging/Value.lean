import FileSwarm.Decimal.Numeral
import FileSwarm.Logging.Pattern
import FileSwarm.Offset
import FileSwarm.Text

/-!
# Values of fields

A condition on a field compares with a truth value, a number, or a pattern.

* `Value.ofText?` : reads a value, as the first kind of these that the text fits;
* `Value.text` : how it is shown: numbers by their digits alone, patterns as they were written;
* `Value.order` : the kinds one after another, and within each its own order.
-/

namespace FileSwarm.Logging

/-- Numbers by size. -/
def numberOrder (a b : Int) : Ordering := compareOfLessAndEq a b

/-- Texts by their first different character. -/
def textOrder (a b : String) : Ordering := compareOfLessAndEq a b

/-- What a field is compared with. -/
inductive Value where
  | truth (b : Bool)
  | count (n : Nat)
  | integer (n : Int)
  | double (d : Decimal.Double)
  | pattern (text : String)
deriving DecidableEq, Repr

namespace Value

/-- A truth value by its name. -/
def truth? (text : String) : Option Bool :=
  if text = "true" then some true else if text = "false" then some false else none

/-- The greatest size of an integer below zero. -/
def maxBelow : Nat := 1 <<< 63

/-- An integer that is written with a minus sign. -/
def belowZero? (text : String) : Option Int :=
  match text.toList with
  | '-' :: c :: rest => ((Text.readDigits maxBelow (c :: rest) 0).toOption).map fun n => -(n : Int)
  | _ => none

/-- The value that a text denotes. -/
def ofText? (text : String) : Option Value :=
  (truth? text).map truth <|>
  ((Text.readNumber maxOffset text).toOption).map count <|>
  (belowZero? text).map integer <|>
  (Decimal.Double.ofText? text).map double <|>
  (if Pattern.isPattern text then some (pattern text) else none)

def text : Value → String
  | truth b => if b then "true" else "false"
  | count n => toString n
  | integer n => toString n
  | double d => d.text
  | pattern text => text

/-- The place of a kind among the kinds. -/
def kind : Value → Nat
  | truth _ => 0
  | double _ => 1
  | count _ => 2
  | integer _ => 3
  | pattern _ => 4

def order (a b : Value) : Ordering :=
  match a, b with
  | truth x, truth y => numberOrder x.toNat y.toNat
  | double x, double y => numberOrder x.rank y.rank
  | count x, count y => numberOrder x y
  | integer x, integer y => numberOrder x y
  | pattern x, pattern y => textOrder x y
  | _, _ => numberOrder a.kind b.kind

end Value

end FileSwarm.Logging
