/-!
# Text: blanks and letters

* `isBlank` : the characters with the Unicode property `White_Space`;
* `dropBlank`, `dropBlankEnd`, `trim` : without blanks at the start, at the end, at both;
* `lower` : with the letters `A` to `Z` in lower case;
* `readNumber` : decimal digits as a number up to a limit.
-/

namespace FileSwarm.Text

/-- The characters with the Unicode property `White_Space`. -/
def isBlank (c : Char) : Bool :=
  let n := c.toNat
  (9 ≤ n && n ≤ 13) || n == 0x20 || n == 0x85 || n == 0xA0 || n == 0x1680 ||
    (0x2000 ≤ n && n ≤ 0x200A) || n == 0x2028 || n == 0x2029 || n == 0x202F || n == 0x205F ||
    n == 0x3000

/-- Without the blanks it starts with. -/
def dropBlank (s : List Char) : List Char := s.dropWhile isBlank

/-- Without the blanks it ends with. -/
def dropBlankEnd (s : List Char) : List Char := (dropBlank s.reverse).reverse

def trimChars (s : List Char) : List Char := dropBlankEnd (dropBlank s)

/-- Without blanks at both ends. -/
def trim (s : String) : String := String.ofList (trimChars s.toList)

/-- With `A` to `Z` in lower case. -/
def lower (s : String) : String := s.map Char.toLower

/-! ## Numbers -/

/-- Why a text is no number. -/
inductive NumberError where
  | empty
  | invalidDigit
  | tooLarge
deriving DecidableEq, Repr, Inhabited

def NumberError.text : NumberError → String
  | empty => "cannot parse integer from empty string"
  | invalidDigit => "invalid digit found in string"
  | tooLarge => "number too large to fit in target type"

/-- Read digits, which may follow one plus sign, as a number up to `limit`. A wrong digit counts
only if it comes before the digit that passes the limit. -/
def readDigits (limit : Nat) : List Char → Nat → Except NumberError Nat
  | [], n => .ok n
  | c :: rest, n =>
    if c.isDigit then
      let n := 10 * n + (c.toNat - 48)
      if n ≤ limit then readDigits limit rest n else .error .tooLarge
    else .error .invalidDigit

/-- The number that a text denotes: digits, a plus sign before them allowed. -/
def readNumber (limit : Nat) (s : String) : Except NumberError Nat :=
  match s.toList with
  | [] => .error .empty
  | ['+'] => .error .invalidDigit
  | '+' :: rest => readDigits limit rest 0
  | cs => readDigits limit cs 0

end FileSwarm.Text
