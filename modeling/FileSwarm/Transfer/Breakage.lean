import FileSwarm.Delta.Failure
import FileSwarm.Peer.Admission
import FileSwarm.Transfer.Phase

/-!
# What breaks a transfer, and what its callers did wrong
-/

namespace FileSwarm

/-- What broke a transfer. -/
inductive Breakage where
  | failure (f : Failure)
  | mismatches (attempts : Nat)
  | byCaller
  | crashed (message : String)
deriving DecidableEq, Repr, Inhabited

namespace Breakage

def problem : Breakage → Problem
  | failure (.notFound _) => .fileNotFound
  | failure (.read ..) | failure (.write ..) => .inputOutput
  | failure _ => .general
  | mismatches _ => .verificationFailed
  | byCaller => .brokenDownload
  | crashed _ => .general

def text : Breakage → String
  | failure f => f.text
  | mismatches attempts => s!"digest mismatch after {attempts} attempts"
  | byCaller => "broken by caller"
  | crashed message => s!"worker job panicked: {message}"

end Breakage

/-- Why a call on a transfer was turned down. -/
inductive TransferError where
  | duplicate (id : String)
  | refused (id : String) (reason : Refusal)
  | unknown (id : String)
  | tempFile (path : String) (cause : Cause)
deriving DecidableEq, Repr, Inhabited

namespace TransferError

def text : TransferError → String
  | duplicate id => s!"source {id} is already attached"
  | refused id reason => s!"source {id} refused: {reason.text}"
  | unknown id => s!"unknown source {id}"
  | tempFile path cause => s!"failed to open temp file {path}: {cause.text}"

end TransferError

end FileSwarm
