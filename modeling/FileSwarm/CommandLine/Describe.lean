import FileSwarm.ByteCount
import FileSwarm.CommandLine.Invocation
import FileSwarm.CommandLine.Shell
import FileSwarm.CommandLine.Summary
import FileSwarm.Delta.Plan
import FileSwarm.Delta.Reading
import FileSwarm.Signature.Codec

/-!
# Commands that describe files: signatures and plans
-/

namespace FileSwarm.CommandLine

open Shell

/-- A pass over the disk as it is. -/
def pass (w : Work Disk α) : Shell α := do
  orFail .failure (w.on (← get).disk)

/-- The signature of a file, with a given block length or one that fits the file. -/
def signatureOf (tuning : Tuning) (path : String) (blockLength : Option Nat) : Shell Signature := do
  let size ← ask (.access path) (·.size path)
  pass (Bench.quiet.signFile path (blockLength.getD (tuning.blockLengthFor size)))

def runSign (tuning : Tuning) (a : SignArguments) : Shell Unit := do
  let s ← signatureOf tuning a.file a.blockLength
  match s.flaw? with
  | some flaw => throw (.failure (.invalid flaw))
  | none =>
    if let some output := a.output then
      change (.access output) (·.write output s.encode)
    let length := s.fileLength.toNat
    let digest := Hex.ofBytes s.digest.bytes
    if a.json then
      say (summary [("file", .text a.file), ("file_length", .number length),
        ("part_length", .number s.blockLength.toNat), ("blocks", .number s.blocks.length),
        ("sha256", .text digest)])
    else
      say s!"File:        {a.file}"
      say s!"Size:        {ByteCount.text length} ({length} bytes)"
      say s!"Block size:  {ByteCount.text s.blockLength.toNat}"
      say s!"Blocks:      {s.blocks.length}"
      say s!"SHA-256:     {digest}"
      if let some output := a.output then
        say s!"Record:      {output}"

/-- The plan for a file that is to be fetched, and the signature it is made from. -/
def planOf (tuning : Tuning) (a : PlanArguments) : Shell (Signature × Plan) := do
  let s ← signatureOf tuning a.reference a.blockLength
  let matched ← pass (Bench.quiet.findMatches a.localCopy s)
  let p ← orFail .fault (Plan.ofMatches s matched)
  return (s, p)

def runPlan (tuning : Tuning) (a : PlanArguments) : Shell Unit := do
  let (s, p) ← planOf tuning a
  let length := s.fileLength.toNat
  if a.json then
    say (summary [("reference", .text a.reference), ("local", .text a.localCopy),
      ("part_length", .number s.blockLength.toNat), ("blocks", .number p.blocks),
      ("matched_blocks", .number p.matched), ("reusable_bytes", .number p.reusable),
      ("fetch_bytes", .number p.fetch)])
  else
    let percent := Decimal.fixed 1 (p.percent length)
    say s!"Reference:   {a.reference} ({ByteCount.text length})"
    say s!"Local copy:  {a.localCopy}"
    say s!"Block size:  {ByteCount.text s.blockLength.toNat}"
    say s!"Matched:     {p.matched} of {p.blocks} blocks"
    say s!"Reusable:    {ByteCount.text p.reusable} ({percent}%)"
    say s!"To fetch:    {ByteCount.text p.fetch}"

end FileSwarm.CommandLine
