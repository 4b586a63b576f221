import FileSwarm.Decimal

/-!
# Byte counts for people

Bytes up to 1023 as they are, anything more in the largest unit, of a thousand and twenty-four of the
one before, in which it is at least one, with one decimal place. Beyond terabytes there is no unit.
-/

namespace FileSwarm.ByteCount

/-- Units above the byte. -/
def units : List String := ["KB", "MB", "GB", "TB"]

/-- A value of 1024 or more of the unit before those left. -/
def scale (value : Float) : List String → String
  | [] => Decimal.fixed 1 value
  | [unit] => s!"{Decimal.fixed 1 (value / 1024.0)} {unit}"
  | unit :: rest =>
    let value := value / 1024.0
    if value < 1024.0 then s!"{Decimal.fixed 1 value} {unit}" else scale value rest

/-- The text of a byte count. -/
def text (n : Nat) : String :=
  let value := n.toUInt64.toFloat
  if value < 1024.0 then s!"{n} B" else scale value units

end FileSwarm.ByteCount
