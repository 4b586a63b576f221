import FileSwarm.Bytes
import FileSwarm.Delta.Failure

/-!
# Signatures as bytes

All numbers are little-endian: the file's length, the block length and the number of blocks with
eight bytes each, for every block its index (eight), weak sum (four) and strong hash (32), and last
the hash of the file. Bytes after that are not looked at.

* `encode`, `decode` : `decode` also refuses a signature that has a flaw.
-/

namespace FileSwarm.Signature

/-- The bytes before the blocks. -/
def headerSize : Nat := 24

/-- The bytes of one block. -/
def blockSize : Nat := 44

/-- The bytes of a hash. -/
def hashSize : Nat := 32

/-- The size of a signature with `count` blocks. -/
def encodedSize (count : Nat) : Nat := headerSize + blockSize * count + hashSize

def encodeBlock (out : ByteArray) (b : Block) : ByteArray :=
  Bytes.putLittle (Bytes.putLittle out 8 b.index.toNat) 4 b.weak.toNat ++ b.strong.bytes

def encode (s : Signature) : ByteArray :=
  let out := Bytes.putLittle ByteArray.empty 8 s.fileLength.toNat
  let out := Bytes.putLittle out 8 s.blockLength.toNat
  let out := Bytes.putLittle out 8 s.blocks.length
  s.blocks.foldl encodeBlock out ++ s.digest.bytes

/-- The block at byte `start`. -/
def blockAt (b : ByteArray) (start : Nat) : Block where
  index := (Bytes.takeLittle b start 8).toUInt64
  weak := (Bytes.takeLittle b (start + 8) 4).toUInt32
  strong := Digest.ofBytesAt b (start + 12)

/-- The signature at the start of a byte string that is long enough for it. -/
def parse (b : ByteArray) (count : Nat) : Signature where
  fileLength := (Bytes.takeLittle b 0 8).toUInt64
  blockLength := (Bytes.takeLittle b 8 8).toUInt64
  blocks := (List.range count).map fun i => blockAt b (headerSize + blockSize * i)
  digest := Digest.ofBytesAt b (headerSize + blockSize * count)

def decode (b : ByteArray) : Except Failure Signature :=
  let count := Bytes.takeLittle b 16 8
  if b.size < headerSize ∨ b.size < encodedSize count then .error .truncated
  else
    let s := parse b count
    match s.flaw? with
    | some flaw => .error (.invalid flaw)
    | none => .ok s

end FileSwarm.Signature
