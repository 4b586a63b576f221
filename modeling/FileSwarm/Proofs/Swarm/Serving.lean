import FileSwarm.Proofs.Delta.Passes
import FileSwarm.Swarm.Server

/-!
# What servers say

A server that has a file `D` answers every call with what it was asked for, and never leaves.

* `chunk_eq`, `sign_eq` : answers with bytes and with a signature;
* `beginning_parts`, `beginning_stream` : the answer to where to start.
-/

namespace FileSwarm

namespace Server

variable {d : Disk} {path : String} {k : Nat} {D : ByteArray}

theorem chunk_eq (hf : d.HasFile path k D) (hlim : D.size ≤ Disk.sizeLimit) {r : ByteRange} (hr : r.stop ≤ D.size) :
    chunk d path r = .chunk r.start (D.extract r.start r.stop) := by
  have hread : d.readExact ⟨k, false⟩ r.start r.length = .ok (D.extract r.start (r.start + r.length)) :=
    Disk.readExact_eq hf.bytes hr hlim
  simp only [chunk, hf.leads.openFile, Except.bind, hread]
  rfl

theorem sign_eq (s : Server) (hf : d.HasFile path k D) (hlim : D.size ≤ Disk.sizeLimit) :
    s.sign d path = .signature (Signature.describe
      (Signature.clampLength (s.blockLength.getD (Signature.defaultBlockLength D.size))) D) := by
  have hsigned := Bench.signFile_quiet hf hlim (s.blockLength.getD (Signature.defaultBlockLength D.size))
  unfold sign
  rw [hf.size]
  simp only [Except.mapError, bind, Except.bind, hsigned]

/-- A server that streams nothing answers the first call it was told. -/
theorem answer?_call {s : Server} (hs : s.stream.isEmpty) {time : Nat} {c : Call} {rest : List (Nat × Call)}
    (h : s.inbox = (time, c) :: rest) (d : Disk) (path : String) :
    s.answer? d path = some ({ s with inbox := rest }, s.reply d path c) := by
  rw [answer?, if_pos hs, h]

/-- A peer that answers range requests streams nothing. -/
theorem beginning_parts {s : Server} (hs : s.caps.partRequests) (hf : d.HasFile path k D) (offset : Nat) :
    s.beginning d path offset = .ready ⟨offset, 0⟩ := by
  unfold beginning
  rw [hf.leads.openFile]
  dsimp only
  rw [if_pos hs]

theorem beginning_stream {s : Server} (hs : s.caps.partRequests = false) (hf : d.HasFile path k D) (offset : Nat) :
    s.beginning d path offset = .ready (.ofBounds offset D.size) := by
  unfold beginning
  rw [hf.leads.openFile]
  dsimp only
  rw [if_neg (by simp [hs]), Disk.sizeOf_eq hf.leads.plain, hf.content]

end Server

end FileSwarm
