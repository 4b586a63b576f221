/-!
# What a peer can do
-/

namespace FileSwarm

/-- What a peer offers: answering requests for single ranges, sending a signature of its file, and
sharing the transfer with other peers. -/
structure Capabilities where
  partRequests : Bool
  deltaSync : Bool
  swarming : Bool
deriving DecidableEq, Repr, Inhabited

namespace Capabilities

def full : Capabilities := ⟨true, true, true⟩

/-- A peer that only sends the whole file from some offset on. -/
def streaming : Capabilities := ⟨false, false, false⟩

/-- A signature is of use only if single ranges can be requested after it. -/
def supportsDelta (c : Capabilities) : Bool := c.partRequests && c.deltaSync

end Capabilities

end FileSwarm
