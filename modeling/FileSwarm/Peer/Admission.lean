import FileSwarm.Peer.Capabilities

/-!
# Admission: which peers may join a transfer

`Admission.single` takes a first peer and no second one; `Admission.swarming` takes any number, as long as
the transfer works by range requests and every newcomer after the first answers them and shares. A program
may have a rule of its own (`Admission.ruled`).
-/

namespace FileSwarm

/-- Why a peer may not join. -/
inductive Refusal where
  | occupied
  | streamInProgress
  | noPartRequests
  | notSwarming
  /-- The reason of a rule that a program has for itself. -/
  | forbidden (reason : String)
deriving DecidableEq, Repr, Inhabited

def Refusal.text : Refusal → String
  | occupied => "transfer already has a source"
  | streamInProgress => "existing source streams the whole file"
  | noPartRequests => "source does not accept range requests"
  | notSwarming => "source does not support swarming"
  | forbidden reason => reason

/-- The rule for a transfer. A rule of its own says why a newcomer is refused, if it is. -/
inductive Admission where
  | single
  | swarming
  | ruled (rule : Nat → Bool → Capabilities → Option String)
deriving Inhabited

/-- Why a newcomer is refused, if it is. There are `attached` peers, and `byParts` says whether they
are sent range requests (of no meaning without peers). -/
def Admission.refusal? (a : Admission) (attached : Nat) (byParts : Bool) (c : Capabilities) :
    Option Refusal :=
  match a with
  | single => if attached = 0 then none else some .occupied
  | swarming =>
    if attached = 0 then none
    else if !byParts then some .streamInProgress
    else if !c.partRequests then some .noPartRequests
    else if !c.swarming then some .notSwarming
    else none
  | ruled rule => (rule attached byParts c).map .forbidden

end FileSwarm
