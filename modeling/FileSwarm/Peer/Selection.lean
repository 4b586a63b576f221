import FileSwarm.Text

/-!
# Selection: which peer is offered the next range

`Selection.order` lists the positions of all attached peers, the one to be asked first in front.
-/

namespace FileSwarm

/-- By whom a range is asked for: by the peer that joined first, in turns, or by the one with the
fewest open requests. -/
inductive Selection where
  | firstEligible
  | roundRobin
  | leastLoaded
deriving DecidableEq, Repr, Inhabited

namespace Selection

/-- The positions of the peers in the order they are asked. `loads` has the open requests of each, in
join order, and `cursor` is one past the peer that took the last range. -/
def order (s : Selection) (loads : List Nat) (cursor : Nat) : List Nat :=
  let n := loads.length
  match s with
  | firstEligible => List.range n
  | roundRobin => (List.range n).drop (cursor % n) ++ (List.range n).take (cursor % n)
  | leastLoaded => (List.range n).mergeSort fun i j => loads.getD i 0 ≤ loads.getD j 0

def name : Selection → String
  | firstEligible => "first-eligible"
  | roundRobin => "round-robin"
  | leastLoaded => "least-loaded"

/-- The selection a text names; blanks around it and the case of its letters do not matter. A text
that names none is given back as it was compared. -/
def ofName (text : String) : Except String Selection :=
  match Text.lower (Text.trim text) with
  | "first-eligible" | "first" => .ok firstEligible
  | "round-robin" => .ok roundRobin
  | "least-loaded" => .ok leastLoaded
  | other => .error other

/-- What is said of a text that names no selection. -/
def unknownText (other : String) : String :=
  s!"unknown source selection '{other}' (expected first-eligible, round-robin or least-loaded)"

end Selection

end FileSwarm
