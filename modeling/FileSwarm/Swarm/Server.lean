import FileSwarm.Delta.Reading
import FileSwarm.Peer.Share
import FileSwarm.Settings.Tuning
import FileSwarm.Transfer.State

/-!
# Servers: peers that have the whole file

A server reads one file and answers what it is told one by one, in the order it was told. It streams
if it does not answer range requests: once it was told where to start it sends everything from there
to the end of the file. A server that cannot read the file leaves.

* `Server.reply` : what it says to a call;
* `Server.answer?` : what it says next, and the server after it;
* `Server.due?` : when that is.
-/

namespace FileSwarm

/-- A peer that has the file. -/
structure Server where
  id : String
  caps : Capabilities
  /-- The number of its connection to the transfer. -/
  link : Nat
  /-- The block length of its signatures; by default it depends on the file. -/
  blockLength : Option Nat
  /-- How much it streams at once. -/
  piece : Nat
  /-- Milliseconds between a call and its answer. -/
  latency : Nat
  /-- What it was told and has not answered, each with the time it was told, the oldest first. -/
  inbox : List (Nat × Call)
  /-- What it is streaming. -/
  stream : ByteRange
  /-- When it gave its last answer. -/
  free : Nat
  /-- It answers no more. -/
  retired : Bool
deriving DecidableEq, Repr, Inhabited

/-- What a server says to the transfer. -/
inductive Reply where
  /-- It takes requests now, and is about to stream a range, which may be empty. -/
  | ready (stream : ByteRange)
  | chunk (offset : Nat) (bytes : ByteArray)
  | signature (s : Signature)
  /-- It cannot serve the file. -/
  | leave
  /-- It was told to stop. -/
  | stop

namespace Server

def fresh (id : String) (caps : Capabilities) : Server where
  id
  caps
  link := 0
  blockLength := none
  piece := Tuning.defaultMaxChunk
  latency := 0
  inbox := []
  stream := ⟨0, 0⟩
  free := 0
  retired := false

/-- The share of a server that joins. -/
def share (s : Server) : Share := .fresh s.id s.caps s.link

/-- The server is told something. -/
def hear (s : Server) (time : Nat) (c : Call) : Server := { s with inbox := s.inbox ++ [(time, c)] }

def retire (s : Server) : Server := { s with retired := true, inbox := [], stream := ⟨0, 0⟩ }

/-- The bytes of a range. -/
def chunk (d : Disk) (path : String) (r : ByteRange) : Reply :=
  match (d.openFile path).bind (d.readExact · r.start r.length) with
  | .ok bytes => .chunk r.start bytes
  | .error _ => .leave

/-- Where the file starts for a peer: all from `offset` on is streamed to one that cannot ask for
ranges. -/
def beginning (s : Server) (d : Disk) (path : String) (offset : Nat) : Reply :=
  match d.openFile path with
  | .error _ => .leave
  | .ok h => .ready (if s.caps.partRequests then ⟨offset, 0⟩ else .ofBounds offset (d.sizeOf h))

def sign (s : Server) (d : Disk) (path : String) : Reply :=
  let signed : Except Failure Signature := do
    let size ← (d.size path).mapError (.ofRead path)
    (Bench.quiet.signFile path (s.blockLength.getD (Signature.defaultBlockLength size))).on d
  match signed with
  | .ok signature => .signature signature
  | .error _ => .leave

/-- The answer to a call. -/
def reply (s : Server) (d : Disk) (path : String) : Call → Reply
  | .file offset => s.beginning d path offset
  | .range r _ => chunk d path r
  | .signature => s.sign d path
  | .abort => .stop

/-- The next piece of what is streamed; it has at least a byte. -/
def nextPiece (s : Server) : ByteRange := s.stream.truncate (max s.piece 1)

/-- What the server says next, if anything, and the server after that. -/
def answer? (s : Server) (d : Disk) (path : String) : Option (Server × Reply) :=
  if s.stream.isEmpty then
    match s.inbox with
    | [] => none
    | (_, c) :: rest => some ({ s with inbox := rest }, s.reply d path c)
  else
    some ({ s with stream := .ofBounds s.nextPiece.stop s.stream.stop }, chunk d path s.nextPiece)

/-- Whether the server has nothing to say. -/
def isIdle (s : Server) : Bool := s.stream.isEmpty && s.inbox.isEmpty

/-- When the server says something, if it has anything to say. -/
def due? (s : Server) : Option Nat :=
  if s.stream.isEmpty then s.inbox.head?.map fun (time, _) => max time s.free + s.latency
  else some s.free

end Server

end FileSwarm
