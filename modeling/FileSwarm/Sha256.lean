import FileSwarm.Bytes

/-!
# SHA-256

`Sha256.digest` is the hash of FIPS 180-4 on byte strings.

* `pad` : the message, one bit, zeros, and the message length in bits, in 64-byte blocks;
* `schedule` : the 64 words of a block;
* `rounds` : one round for each word, from the working variables `a` to `h`;
* `compress` : the state after one more block.
-/

namespace FileSwarm

/-- A SHA-256 value: 32 bytes. -/
abbrev Digest := Vector UInt8 32

namespace Digest

def bytes (d : Digest) : ByteArray := ⟨d.toArray⟩

/-- The 32 bytes at `start`; bytes past the end are zero. -/
def ofBytesAt (b : ByteArray) (start : Nat) : Digest :=
  Vector.ofFn fun i => Bytes.byteAt b (start + i)

end Digest

namespace Sha256

/-- The eight words between two blocks. -/
structure State where
  a : UInt32
  b : UInt32
  c : UInt32
  d : UInt32
  e : UInt32
  f : UInt32
  g : UInt32
  h : UInt32
deriving DecidableEq

def start : State :=
  ⟨0x6a09e667, 0xbb67ae85, 0x3c6ef372, 0xa54ff53a, 0x510e527f, 0x9b05688c, 0x1f83d9ab, 0x5be0cd19⟩

/-- One constant a round: the first 32 bits of the fractional parts of the cube roots of the first
64 primes. -/
def constants : Array UInt32 := #[
  0x428a2f98, 0x71374491, 0xb5c0fbcf, 0xe9b5dba5, 0x3956c25b, 0x59f111f1, 0x923f82a4, 0xab1c5ed5,
  0xd807aa98, 0x12835b01, 0x243185be, 0x550c7dc3, 0x72be5d74, 0x80deb1fe, 0x9bdc06a7, 0xc19bf174,
  0xe49b69c1, 0xefbe4786, 0x0fc19dc6, 0x240ca1cc, 0x2de92c6f, 0x4a7484aa, 0x5cb0a9dc, 0x76f988da,
  0x983e5152, 0xa831c66d, 0xb00327c8, 0xbf597fc7, 0xc6e00bf3, 0xd5a79147, 0x06ca6351, 0x14292967,
  0x27b70a85, 0x2e1b2138, 0x4d2c6dfc, 0x53380d13, 0x650a7354, 0x766a0abb, 0x81c2c92e, 0x92722c85,
  0xa2bfe8a1, 0xa81a664b, 0xc24b8b70, 0xc76c51a3, 0xd192e819, 0xd6990624, 0xf40e3585, 0x106aa070,
  0x19a4c116, 0x1e376c08, 0x2748774c, 0x34b0bcb5, 0x391c0cb3, 0x4ed8aa4a, 0x5b9cca4f, 0x682e6ff3,
  0x748f82ee, 0x78a5636f, 0x84c87814, 0x8cc70208, 0x90befffa, 0xa4506ceb, 0xbef9a3f7, 0xc67178f2]

@[inline] def rotate (x : UInt32) (n : UInt32) : UInt32 := (x >>> n) ||| (x <<< (32 - n))

/-- The big-endian word at byte `i`. -/
@[inline] def wordAt (m : ByteArray) (i : Nat) : UInt32 :=
  ((Bytes.byteAt m i).toUInt32 <<< 24) ||| ((Bytes.byteAt m (i + 1)).toUInt32 <<< 16) |||
    ((Bytes.byteAt m (i + 2)).toUInt32 <<< 8) ||| (Bytes.byteAt m (i + 3)).toUInt32

/-- The message, the byte `0x80`, zeros, and the length in bits as eight bytes. -/
def pad (m : ByteArray) : ByteArray :=
  let zeros := (119 - m.size % 64) % 64
  let bits := m.size.toUInt64 * 8
  let tail := (List.range zeros).foldl (fun (b : ByteArray) _ => b.push 0) (ByteArray.empty.push 0x80)
  let tail := [56, 48, 40, 32, 24, 16, 8, 0].foldl
    (fun (b : ByteArray) (s : UInt64) => b.push (bits >>> s).toUInt8) tail
  m ++ tail

/-- `n` more words after the sixteen of the block, each from four earlier ones. -/
def extend : Nat → Array UInt32 → Array UInt32
  | 0, w => w
  | n + 1, w =>
    let i := w.size
    let x := w.getD (i - 15) 0
    let y := w.getD (i - 2) 0
    let s := rotate x 7 ^^^ rotate x 18 ^^^ (x >>> 3)
    let t := rotate y 17 ^^^ rotate y 19 ^^^ (y >>> 10)
    extend n (w.push (w.getD (i - 16) 0 + s + w.getD (i - 7) 0 + t))

def load (m : ByteArray) : Nat → Nat → Array UInt32 → Array UInt32
  | _, 0, w => w
  | i, n + 1, w => load m (i + 4) n (w.push (wordAt m i))

/-- The 64 words of the block at byte `i`. -/
def schedule (m : ByteArray) (i : Nat) : Array UInt32 :=
  extend 48 (load m i 16 (Array.mkEmpty 64))

/-- `n` rounds from round `t` on. -/
def rounds (w : Array UInt32) : (n t : Nat) → (a b c d e f g h : UInt32) → State
  | 0, _, a, b, c, d, e, f, g, h => ⟨a, b, c, d, e, f, g, h⟩
  | n + 1, t, a, b, c, d, e, f, g, h =>
    let s := rotate e 6 ^^^ rotate e 11 ^^^ rotate e 25
    let choice := (e &&& f) ^^^ (~~~e &&& g)
    let x := h + s + choice + constants.getD t 0 + w.getD t 0
    let r := rotate a 2 ^^^ rotate a 13 ^^^ rotate a 22
    let majority := (a &&& b) ^^^ (a &&& c) ^^^ (b &&& c)
    rounds w n (t + 1) (x + r + majority) a b c (d + x) e f g

/-- The state after the block at byte `i`. -/
def compress (m : ByteArray) (i : Nat) (s : State) : State :=
  let r := rounds (schedule m i) 64 0 s.a s.b s.c s.d s.e s.f s.g s.h
  ⟨s.a + r.a, s.b + r.b, s.c + r.c, s.d + r.d, s.e + r.e, s.f + r.f, s.g + r.g, s.h + r.h⟩

/-- The state after `n` blocks from byte `i` on. -/
def blocks (m : ByteArray) : (n i : Nat) → State → State
  | 0, _, s => s
  | n + 1, i, s => blocks m n (i + 64) (compress m i s)

/-- The state as bytes, the high ones first. -/
def State.digest (s : State) : Digest :=
  let word (w : UInt32) (i : Nat) : UInt8 := (w >>> (24 - 8 * i).toUInt32).toUInt8
  Vector.ofFn fun i =>
    word (match i.val / 4 with
      | 0 => s.a
      | 1 => s.b
      | 2 => s.c
      | 3 => s.d
      | 4 => s.e
      | 5 => s.f
      | 6 => s.g
      | _ => s.h) (i.val % 4)

/-- The hash of a byte string. -/
def digest (m : ByteArray) : Digest :=
  let p := pad m
  (blocks p (p.size / 64) 0 start).digest

end Sha256

end FileSwarm
