import FileSwarm.Disk.Cause
import FileSwarm.Signature.Basic

/-!
# How delta-sync fails
-/

namespace FileSwarm

/-- Why a pass over files or a signature did not succeed. -/
inductive Failure where
  | notFound (path : String)
  | read (path : String) (cause : Cause)
  | write (path : String) (cause : Cause)
  | lengthMismatch (expected actual : Nat)
  | invalid (flaw : Flaw)
  | truncated
  | cancelled
deriving DecidableEq, Repr, Inhabited

namespace Failure

/-- A failed read; a missing file is a failure of its own. -/
def ofRead (path : String) : Cause → Failure
  | .notFound => notFound path
  | cause => read path cause

def text : Failure → String
  | notFound path => s!"file not found: {path}"
  | read path cause => s!"failed to read {path}: {cause.text}"
  | write path cause => s!"failed to write {path}: {cause.text}"
  | lengthMismatch expected actual =>
    s!"signature record length mismatch: expected {expected} bytes, record has {actual}"
  | invalid flaw => s!"invalid signature record: {flaw.text}"
  | truncated => "record encoding error: io error: unexpected end of file"
  | cancelled => "operation cancelled"

end Failure

end FileSwarm
