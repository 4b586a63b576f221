import Std.Data.HashMap
import FileSwarm.Delta.Bench
import FileSwarm.RollingSum

/-!
# Matching: which blocks a local file already has

A window of one block's length moves over the local file. Where the weak sum of the window is that
of some full-length blocks, their strong hashes are compared with the window's; a hit takes the
window to the byte after it, a miss moves it by one byte. The last block, if it is shorter, is looked
for at the end of the file only.

* `Table` : the full-length blocks by weak sum;
* `Scanner` : the bytes that were read and not let go yet. Whoever looks at them shows that they are
  there;
* `ensure` : read on until enough bytes are there, or to the end of the file;
* `windows`, `slide` : the loop over the windows whose sum is made from scratch, and the loop in it that
  rolls the sum along;
* `findMatches` : all matches, by local offset and then by block;
* `plainScan` : the same list without a table, a rolling sum or pieces.
-/

namespace FileSwarm

/-- Bytes of the local file that are those of a block. -/
structure BlockMatch where
  place : ByteRange
  index : UInt64
deriving DecidableEq, Repr, Inhabited

namespace BlockMatch

/-- By local offset, then by block. -/
def le (a b : BlockMatch) : Bool :=
  a.place.start < b.place.start || (a.place.start == b.place.start && a.index ≤ b.index)

end BlockMatch

namespace Signature

/-- The blocks that have the full length. -/
def fullBlocks (s : Signature) : List Block :=
  s.blocks.filter fun b => (s.blockRange b.index).length == s.blockLength.toNat

/-- Those of some blocks whose checksums are a window's. -/
def hits (blocks : List Block) (window : ByteArray) : List Block :=
  let weak := weakSum window
  let strong := Sha256.digest window
  blocks.filter fun b => b.weak == weak && b.strong == strong

end Signature

/-- Blocks by weak sum, each list in file order. -/
abbrev Table := Std.HashMap UInt32 (List Block)

namespace Table

def ofBlocks (blocks : List Block) : Table :=
  blocks.foldr (fun b t => t.alter b.weak fun l => some (b :: l.getD [])) ∅

end Table

/-- The bytes of the file that were read and not let go yet; they begin at offset `base`. -/
structure Scanner where
  buffer : ByteArray
  base : Nat
  eof : Bool

namespace Scanner

def start : Scanner := ⟨ByteArray.empty, 0, false⟩

/-- How far the file was read. -/
def read (s : Scanner) : Nat := s.base + s.buffer.size

/-- What was read next. Nothing is what is read at the end. -/
def append (s : Scanner) (piece : ByteArray) : Scanner :=
  { s with buffer := s.buffer ++ piece, eof := piece.size == 0 }

/-- Let the bytes before `pos` go once there are enough of them. The window is at the second place then. -/
def compact (s : Scanner) (pos : Nat) (_h : pos ≤ s.buffer.size) : Scanner × Nat :=
  if Bench.pieceSize ≤ pos then
    ({ s with buffer := s.buffer.extract pos s.buffer.size, base := s.base + pos }, 0)
  else (s, pos)

theorem base_compact (s : Scanner) {pos : Nat} (h : pos ≤ s.buffer.size) :
    (s.compact pos h).1.base + (s.compact pos h).2 = s.base + pos := by
  unfold compact
  split <;> rfl

theorem size_compact (s : Scanner) {pos : Nat} (h : pos ≤ s.buffer.size) :
    (s.compact pos h).1.buffer.size + pos = s.buffer.size + (s.compact pos h).2 := by
  unfold compact
  split
  · rw [ByteArray.size_extract]
    omega
  · rfl

theorem fits_compact (s : Scanner) {pos width : Nat} (h : pos ≤ s.buffer.size)
    (hfit : pos + width ≤ s.buffer.size) : (s.compact pos h).2 + width ≤ (s.compact pos h).1.buffer.size := by
  have := s.size_compact h
  omega

/-- A scanner that holds its first `length` bytes, and begins where another one did. -/
structure Loaded (base length : Nat) where
  scanner : Scanner
  base_eq : scanner.base = base
  length_le : length ≤ scanner.buffer.size

/-- The rolling sum of the window at `pos`, from scratch. -/
def sumAt (s : Scanner) (pos width : Nat) (_h : pos + width ≤ s.buffer.size) : RollingSum :=
  RollingSum.ofSlice s.buffer pos (pos + width)

/-- The blocks that the window at `pos`, of rolling sum `sum`, has the bytes of. -/
def windowHits (s : Scanner) (table : Table) (pos width : Nat) (_h : pos + width ≤ s.buffer.size)
    (sum : RollingSum) : List Block :=
  match table[sum.value]? with
  | none => []
  | some blocks =>
    let strong := Sha256.digest (s.buffer.extract pos (pos + width))
    blocks.filter (·.strong == strong)

end Scanner

namespace Bench

variable {σ : Type} (b : Bench σ)

/-- Read on until `length` bytes are there; none at the end of the file. Every read is reported, the one
at the end too, but 100 is kept for the very end. -/
def ensure (path : String) (file : Handle) (total length : Nat) (s : Scanner) :
    Work σ (Option (Scanner.Loaded s.base length)) :=
  if hlength : length ≤ s.buffer.size then return some ⟨s, rfl, hlength⟩
  else if _heof : s.eof then return none
  else do
    let piece ← b.ask path (·.readAt file s.read (b.readSize s.read))
    b.report (min (percentOf (s.append piece).read total) 99)
    ensure path file total length (s.append piece)
termination_by length - s.buffer.size + if s.eof then 0 else 1
decreasing_by
  simp only [Scanner.append, ByteArray.size_append, _heof]
  by_cases hpiece : piece.size = 0
  · simp [hpiece]
  · simp [hpiece]
    omega

mutual

/-- From the window at `pos` on, the rolling sum of which is not known. -/
def windows (path : String) (file : Handle) (total : Nat) (table : Table) (width : Nat) (s : Scanner)
    (pos : Nat) (found : Array BlockMatch) : Work σ (Array BlockMatch) := do
  match ← b.ensure path file total (pos + width) s with
  | none => return found
  | some u =>
    slide path file total table width u.scanner pos u.length_le
      (u.scanner.sumAt pos width u.length_le) found
termination_by (Disk.seekLimit - (s.base + pos), 1)
decreasing_by
  rw [u.base_eq]
  exact Prod.Lex.right _ (by decide)

/-- From the window at `pos` on, of rolling sum `sum`. A file has fewer than `seekLimit` bytes, so the
window gets to its end. -/
def slide (path : String) (file : Handle) (total : Nat) (table : Table) (width : Nat) (s : Scanner)
    (pos : Nat) (hfit : pos + width ≤ s.buffer.size) (sum : RollingSum) (found : Array BlockMatch) :
    Work σ (Array BlockMatch) := do
  if _h : s.base + pos < Disk.seekLimit then
    match s.windowHits table pos width hfit sum with
    | [] =>
      match ← b.ensure path file total (pos + width + 1) s with
      | none => return found
      | some u =>
        have hmore : pos + width + 1 ≤ u.scanner.buffer.size := u.length_le
        have hpos : pos + 1 ≤ u.scanner.buffer.size := by omega
        let next := u.scanner.compact (pos + 1) hpos
        slide path file total table width next.1 next.2 (u.scanner.fits_compact hpos (by omega))
          (sum.roll u.scanner.buffer[pos] u.scanner.buffer[pos + width]) found
    | hits =>
      let found := hits.foldl (fun f x => f.push ⟨⟨s.base + pos, width⟩, x.index⟩) found
      if _hwidth : 0 < width then
        let next := s.compact (pos + width) hfit
        windows path file total table width next.1 next.2 found
      else return found
  else return found
termination_by (Disk.seekLimit - (s.base + pos), 0)
decreasing_by
  · have hplace := u.scanner.base_compact hpos
    rw [u.base_eq] at hplace
    exact Prod.Lex.left _ _ (by omega)
  · have hplace := s.base_compact hfit
    exact Prod.Lex.left _ _ (by omega)

end

/-- The match of the last block with the end of the file, if that block is shorter than the others. -/
def matchTail (path : String) (h : Handle) (total : Nat) (s : Signature) :
    Work σ (Option BlockMatch) := do
  match s.blocks.getLast? with
  | none => return none
  | some last =>
    let length := (s.blockRange last.index).length
    if length = s.blockLength.toNat ∨ total < length then return none
    let bytes ← b.ask path (·.readExact h (total - length) length)
    if last.weak == weakSum bytes && last.strong == Sha256.digest bytes then
      return some ⟨⟨total - length, length⟩, last.index⟩
    else return none

/-- All places where the file at `path` has a block of `s`. -/
def findMatches (path : String) (s : Signature) : Work σ (List BlockMatch) := do
  let h ← b.ask path (·.openFile path)
  let total ← b.ask path fun d => .ok (d.sizeOf h)
  let full := s.fullBlocks
  let found ←
    if full.isEmpty || total < s.blockLength.toNat then pure #[]
    else b.windows path h total (Table.ofBlocks full) s.blockLength.toNat Scanner.start 0 #[]
  let tail ← b.matchTail path h total s
  b.report 100
  return (found.toList ++ tail.toList).mergeSort BlockMatch.le

end Bench

/-! ## The plain scan -/

/-- The matches of the blocks with windows of `width` bytes from `pos` on: at a hit the window moves
on by its width, otherwise by one. -/
def plainWindows (blocks : List Block) (width : Nat) (content : ByteArray) (pos : Nat) :
    List BlockMatch :=
  if _h : 0 < width ∧ pos + width ≤ content.size then
    match Signature.hits blocks (content.extract pos (pos + width)) with
    | [] => plainWindows blocks width content (pos + 1)
    | hits =>
      hits.map (fun b => ⟨⟨pos, width⟩, b.index⟩) ++
        plainWindows blocks width content (pos + width)
  else []
termination_by content.size - pos
decreasing_by all_goals omega

/-- The match of a shorter last block with the last bytes. -/
def plainTail (s : Signature) (content : ByteArray) : List BlockMatch :=
  match s.blocks.getLast? with
  | none => []
  | some last =>
    let length := (s.blockRange last.index).length
    if length = s.blockLength.toNat ∨ content.size < length then []
    else
      (Signature.hits [last] (content.extract (content.size - length) content.size)).map
        fun b => ⟨⟨content.size - length, length⟩, b.index⟩

/-- All places where a byte string has a block of a signature. -/
def plainScan (s : Signature) (content : ByteArray) : List BlockMatch :=
  (plainWindows s.fullBlocks s.blockLength.toNat content 0 ++ plainTail s content).mergeSort
    BlockMatch.le

end FileSwarm
