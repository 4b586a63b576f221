/-!
# Phases of a transfer, and what can go wrong
-/

namespace FileSwarm

/-- Where a transfer is. The three stages of delta-sync come before the download; the last three
phases are final. -/
inductive Phase where
  | initial
  | requestingSignature
  | matching
  | copying
  | downloading
  | verifying
  | completed
  | broken
  | aborted
deriving DecidableEq, Repr, Inhabited

namespace Phase

def text : Phase → String
  | initial => "initial"
  | requestingSignature => "requesting record"
  | matching => "matching"
  | copying => "copying"
  | downloading => "downloading"
  | verifying => "verifying"
  | completed => "completed"
  | broken => "broken"
  | aborted => "aborted"

/-- Whether the phase is final. -/
def isFinal : Phase → Bool
  | completed | broken | aborted => true
  | _ => false

/-- Whether the local copy is being looked at. -/
def isDelta : Phase → Bool
  | requestingSignature | matching | copying => true
  | _ => false

/-- Every phase, in the order a transfer may go through them. -/
def all : List Phase :=
  [initial, requestingSignature, matching, copying, downloading, verifying, completed, broken, aborted]

end Phase

/-- Why a transfer broke. -/
inductive Problem where
  | fileNotFound
  | inputOutput
  | general
  | brokenDownload
  | verificationFailed
deriving DecidableEq, Repr, Inhabited

namespace Problem

def text : Problem → String
  | fileNotFound => "file not found"
  | inputOutput => "I/O error"
  | general => "general failure"
  | brokenDownload => "download broken"
  | verificationFailed => "verification failed"

def all : List Problem := [fileNotFound, inputOutput, general, brokenDownload, verificationFailed]

end Problem

end FileSwarm
