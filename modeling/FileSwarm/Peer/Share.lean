import FileSwarm.ByteRange
import FileSwarm.Peer.Capabilities

/-!
# Shares: what one peer owes a transfer

A `Share` holds the ranges a peer was asked for and has not delivered, no more than its budget.

* `canRequest`, `request` : a range is asked of a peer that has started, is not broken, answers range
  requests and has budget left; it is owed if the peer accepts;
* `receive` : bytes that arrived are owed no longer, wherever they lie in the ranges asked for;
* `takePending` : nothing is owed any more.
-/

namespace FileSwarm

/-- One peer's share of a transfer. Messages to the peer go over the link with number `link`. -/
structure Share where
  id : String
  caps : Capabilities
  link : Nat
  pending : List ByteRange
  started : Bool
  broken : Bool
  budget : Nat
deriving DecidableEq, Repr, Inhabited

namespace Share

/-- Open requests a peer may have if nothing else is said. -/
def defaultBudget : Nat := 15

def fresh (id : String) (caps : Capabilities) (link : Nat) : Share :=
  ⟨id, caps, link, [], false, false, defaultBudget⟩

/-- With another budget, which is one at least. -/
def withBudget (s : Share) (n : Nat) : Share := { s with budget := max n 1 }

def start (s : Share) : Share := { s with started := true }

def markBroken (s : Share) : Share := { s with broken := true }

def canRequest (s : Share) : Bool :=
  s.started && !s.broken && s.caps.partRequests && s.pending.length < s.budget

/-- Whether asking for `r` makes sense at all. -/
def mayAsk (s : Share) (r : ByteRange) : Bool := !r.isEmpty && s.canRequest

theorem mayAsk_iff {s : Share} {r : ByteRange} : s.mayAsk r ↔ 0 < r.length ∧ s.canRequest := by
  simp [mayAsk, ByteRange.isEmpty, Nat.pos_iff_ne_zero]

theorem mayAsk_of_pos {r : ByteRange} (h : 0 < r.length) (s : Share) : s.mayAsk r = s.canRequest := by
  rw [mayAsk, ByteRange.isEmpty, beq_eq_false_iff_ne.2 (Nat.ne_of_gt h)]
  rfl

/-- `r` was asked for and accepted. -/
def owe (s : Share) (r : ByteRange) : Share := { s with pending := s.pending ++ [r] }

/-- Ask for `r` where `accept` is what the peer would answer: the share after that, and whether the
range is owed now. -/
def request (s : Share) (r : ByteRange) (accept : Bool) : Share × Bool :=
  if s.mayAsk r && accept then (s.owe r, true) else (s, false)

/-- What is left of a range once the bytes of `r` arrived: the bytes before and those after it. -/
def remainder (p r : ByteRange) : List ByteRange :=
  match p.inter? r with
  | none => [p]
  | some hit =>
    [ByteRange.ofBounds p.start hit.start, ByteRange.ofBounds hit.stop p.stop].filter (!·.isEmpty)

/-- The bytes of `r` arrived. -/
def receive (s : Share) (r : ByteRange) : Share :=
  { s with pending := s.pending.flatMap fun p => remainder p r }

def takePending (s : Share) : Share := { s with pending := [] }

/-- All bytes owed. -/
def pendingBytes (s : Share) : Nat := sumOf (s.pending.map (·.length))

/-! ## On 64-bit offsets -/

/-- `receive`; an end past the last offset, where it is needed, is a fault that leaves nothing
pending. -/
def receive? (s : Share) (r : ByteRange) : Except Fault Share :=
  (s.pending.forM fun p => (p.intersects? r).map fun _ => ()).map fun _ => s.receive r

/-- `pendingBytes`, a fault if the sum is no offset. -/
def pendingBytes? (s : Share) : Except Fault Nat := sumChecked (s.pending.map (·.length))

end Share

end FileSwarm
