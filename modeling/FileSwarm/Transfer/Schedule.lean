import FileSwarm.Transfer.State

/-!
# Scheduling: who is asked for what

`sendRequests` asks for needed ranges, the lowest first and none longer than the tuning allows, until
nothing is needed or nobody takes more. A range is offered to the peers in the order of the selection;
the first that takes it owes it.
-/

namespace FileSwarm.Transfer

/-- Open requests of each peer, in join order. -/
def loads (t : Transfer) : List Nat := t.shares.map (·.pending.length)

/-- Offer a range to peers by position until one takes it. -/
def offer (t : Transfer) (r : ByteRange) : List Nat → Transfer × Option Nat
  | [] => (t, none)
  | i :: rest =>
    match t.shares[i]? with
    | none => t.offer r rest
    | some s =>
      if s.mayAsk r then
        let (t, accepted) := t.askRange s.link r
        if accepted then ({ t with shares := t.shares.set i (s.owe r) }, some i)
        else t.offer r rest
      else t.offer r rest

/-- The range to be asked for next. -/
def nextRange? (t : Transfer) : Option ByteRange :=
  (t.parts.bind (·.first? .needed)).map (·.truncate t.tuning.maxChunk)

/-- Up to `n` assignments. -/
def assign : Nat → Transfer → Transfer
  | 0, t => t
  | n + 1, t =>
    match t.nextRange? with
    | none => t
    | some r =>
      match t.offer r (t.tuning.selection.order t.loads t.cursor) with
      | (t, none) => t
      | (t, some i) =>
        assign n { t with
          parts := t.parts.map (·.set r .pending)
          metrics := t.metrics.askPart
          cursor := i + 1 }

/-- How many requests more the peers' budgets allow. -/
def room (t : Transfer) : Nat := sumOf (t.shares.map fun s => s.budget - s.pending.length)

/-- Ask for what is needed. Every assignment takes one from the peers' budgets, so there are at most
as many as these allow. -/
def sendRequests (t : Transfer) : Transfer :=
  if t.phase.isFinal || !t.byParts then t else assign t.room t

end FileSwarm.Transfer
