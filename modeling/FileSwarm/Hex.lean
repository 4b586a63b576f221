/-!
# Hexadecimal text of bytes

Two lower-case digits a byte.
-/

namespace FileSwarm.Hex

/-- The digit of a number below 16. -/
def digit (n : Nat) : Char :=
  if n < 10 then Char.ofNat (48 + n) else Char.ofNat (87 + n)

def ofByte (s : String) (b : UInt8) : String :=
  (s.push (digit (b.toNat / 16))).push (digit (b.toNat % 16))

def ofBytes (b : ByteArray) : String := b.foldl ofByte ""

/-- `n` in exactly `width` digits, the high ones dropped if they do not fit. -/
def ofNat : (width : Nat) → Nat → List Char
  | 0, _ => []
  | width + 1, n => ofNat width (n / 16) ++ [digit (n % 16)]

/-- The value of a digit of either case. -/
def value? (c : Char) : Option Nat :=
  if '0' ≤ c ∧ c ≤ '9' then some (c.toNat - 48)
  else if 'a' ≤ c ∧ c ≤ 'f' then some (c.toNat - 87)
  else if 'A' ≤ c ∧ c ≤ 'F' then some (c.toNat - 55)
  else none

/-- The number that digits of either case denote. -/
def toNat? (s : List Char) : Option Nat :=
  s.foldlM (fun n c => (value? c).map (16 * n + ·)) 0

end FileSwarm.Hex
