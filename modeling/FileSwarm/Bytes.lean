/-!
# Byte strings: single bytes and little-endian numbers

* `byteAt` : the byte at an offset, zero past the end;
* `putLittle`, `takeLittle` : a number as some bytes, the low ones first, and back;
* `zeros` : a run of zero bytes.
-/

namespace FileSwarm.Bytes

/-- The byte at an offset, zero past the end. -/
@[inline] def byteAt (b : ByteArray) (i : Nat) : UInt8 :=
  if h : i < b.size then b[i] else 0

/-- Append the low `width` bytes of `n`, the lowest first. -/
def putLittle (b : ByteArray) : (width n : Nat) → ByteArray
  | 0, _ => b
  | width + 1, n => putLittle (b.push n.toUInt8) width (n / 256)

/-- The number in the `width` bytes at `start`, the lowest first. -/
def takeLittle (b : ByteArray) (start : Nat) : (width : Nat) → Nat
  | 0 => 0
  | width + 1 => (byteAt b start).toNat + 256 * takeLittle b (start + 1) width

/-- `n` zero bytes. -/
def zeros (n : Nat) : ByteArray := ⟨Array.replicate n 0⟩

end FileSwarm.Bytes
