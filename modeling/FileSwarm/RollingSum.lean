import FileSwarm.Offset

/-!
# Rolling sums

A weak checksum of a window of bytes which follows the window by one byte in constant time. Modulo
65521, `low` is one more than the sum of the bytes and `high` the sum of all values `low` took on
the way, so a byte which leaves a window of `w` bytes takes itself off `low` and `w` times itself,
and one, off `high`.

* `ofSlice`, `ofBytes` : the sum of a window, from scratch;
* `roll` : the sum after one byte left and one entered;
* `value` : both halves in 32 bits;
* `roll?` : `roll` on 64-bit numbers, a fault if one of its steps leaves them.
-/

namespace FileSwarm

/-- The sum of a window of `width` bytes. -/
structure RollingSum where
  low : Nat
  high : Nat
  width : Nat
deriving DecidableEq, Repr, Inhabited

namespace RollingSum

/-- The largest prime below `2^16`. -/
def modulus : Nat := 65521

/-- The sum of no bytes. -/
def empty : RollingSum := ⟨1, 0, 0⟩

/-- One more byte in the window. -/
@[inline] def push (s : RollingSum) (b : UInt8) : RollingSum :=
  let low := (s.low + b.toNat) % modulus
  ⟨low, (s.high + low) % modulus, s.width + 1⟩

/-- The sum of the bytes from `start` to `stop`. -/
def ofSlice (b : ByteArray) (start stop : Nat) : RollingSum := b.foldl push empty start stop

def ofBytes (b : ByteArray) : RollingSum := b.foldl push empty

/-- The window moves by one: `leaving` was its first byte, `entering` becomes its last. -/
def roll (s : RollingSum) (leaving entering : UInt8) : RollingSum :=
  let low := (s.low + modulus - leaving.toNat + entering.toNat) % modulus
  let gone := (s.width % modulus * leaving.toNat + 1) % modulus
  ⟨low, (s.high + modulus - gone + low) % modulus, s.width⟩

/-- `high` above `low`, 16 bits each. -/
def value (s : RollingSum) : UInt32 := (s.high * 65536 + s.low).toUInt32

/-! ## On 64-bit numbers -/

/-- `roll` one step after the other. The modulus is added before something is taken away. -/
def roll? (s : RollingSum) (leaving entering : UInt8) : Except Fault RollingSum := do
  let low ← subChecked (← addChecked s.low modulus) leaving.toNat
  let low := (← addChecked low entering.toNat) % modulus
  let gone := (← addChecked (← mulChecked (s.width % modulus) leaving.toNat) 1) % modulus
  let high ← subChecked (← addChecked s.high modulus) gone
  return ⟨low, (← addChecked high low) % modulus, s.width⟩

end RollingSum

/-- The weak checksum of a block. -/
def weakSum (b : ByteArray) : UInt32 := (RollingSum.ofBytes b).value

end FileSwarm
