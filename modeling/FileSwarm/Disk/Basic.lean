import FileSwarm.Bytes
import FileSwarm.Disk.Cause
import FileSwarm.Disk.Path

/-!
# The disk as a value

A `Disk` is a table of nodes (files, directories, pipes) and the names under which they are found. A
`Handle` refers to a node, not to a name: what is open stays readable and writable after its name is
gone, and truncating a file under a name changes what an open handle reads.

* `walk`, `place` : the place a path leads to, step by step;
* `node?`, `isFile`, `isDirectory`, `size` : what a path leads to;
* `openFile`, `openFresh` : handles for reading, and for writing a new or emptied file;
* `seek`, `readAt`, `readExact`, `writeAt`, `setLength` : through a handle;
* `read`, `write`, `makeDirectories`, `remove`, `removeTree`, `rename`, `setStamp` : by path.

A single change that is refused leaves the disk as it is. One of several steps (`makeDirectories`)
gives the disk back also when a step is refused, with what was done before.

A time of change is kept only if it was set (`Stamp`): a file's until its content changes, a
directory's until a name is added there or taken away.
-/

namespace FileSwarm

/-- A time since 1970, the seconds possibly negative. -/
structure Stamp where
  seconds : Int
  nanos : Nat
deriving DecidableEq, Repr, Inhabited

/-- What a name leads to. -/
inductive Node where
  | file (bytes : ByteArray) (stamp : Option Stamp)
  | directory (stamp : Option Stamp)
  | pipe (stamp : Option Stamp)
deriving Inhabited

/-- The time of change, if it was set. -/
def Node.stamp? : Node → Option Stamp
  | .file _ s | .directory s | .pipe s => s

/-- The same node with another time of change. -/
def Node.withStamp (stamp : Option Stamp) : Node → Node
  | .file bytes _ => .file bytes stamp
  | .directory _ => .directory stamp
  | .pipe _ => .pipe stamp

def Node.isDirectory : Node → Bool
  | .directory _ => true
  | _ => false

/-- An open node. -/
structure Handle where
  node : Nat
  writable : Bool
deriving DecidableEq, Repr, Inhabited

/-- Nodes by number, and names from the root with the number each leads to. Relative paths start at
`here`. -/
structure Disk where
  nodes : Array Node
  names : List (List String × Nat)
  here : List String
deriving Inhabited

namespace Disk

/-- Offsets from here on cannot be named in a seek. -/
def seekLimit : Nat := 9223372036854775808

/-- Files do not grow past this, and offsets past this cannot be reached in them. -/
def sizeLimit : Nat := 17592186040320

/-- The first second that can be kept as a time of change. -/
def earliest : Int := -2147483648

/-- The last second that can be kept as a time of change. -/
def latest : Int := 15032385535

/-- What the system reports as a directory's length. -/
def directorySize : Nat := 4096

/-- Names of more bytes are refused. -/
def nameLimit : Nat := 255

/-- Path texts of so many bytes are refused. -/
def pathLimit : Nat := 4096

/-- A disk on which only the working directory and those above it exist. -/
def empty (here : List String) : Disk :=
  { nodes := Array.replicate (here.length + 1) (.directory none)
    names := (List.range (here.length + 1)).map fun i => (here.take i, i)
    here }

/-! ## Names -/

/-- The number of the node at a place. -/
def numberAt? (d : Disk) (place : List String) : Option Nat :=
  (d.names.find? (·.1 == place)).map (·.2)

def nodeAt? (d : Disk) (place : List String) : Option Node :=
  (d.numberAt? place).bind (d.nodes[·]?)

/-- One step from a place, which must be a directory. What it leads to need not exist. -/
def step (d : Disk) (place : List String) (name : String) : Except Cause (List String) :=
  match d.nodeAt? place with
  | none => .error .notFound
  | some (.directory _) =>
    if name == "." then .ok place
    else if name == ".." then .ok place.dropLast
    else if nameLimit < name.utf8ByteSize then .error .nameTooLong
    else .ok (place ++ [name])
  | some _ => .error .notDirectory

/-- Where a path's steps lead, if its text is fit for the system. -/
def walk (d : Disk) (path : String) (steps : List String) : Except Cause (List String) :=
  if path.contains (Char.ofNat 0) then .error .nulInName
  else if path == "" then .error .notFound
  else if pathLimit ≤ path.utf8ByteSize then .error .nameTooLong
  else steps.foldlM d.step (if Path.isAbsolute path then [] else d.here)

/-- The place a path stands for. What stands there need not exist, but the directory it is in does. -/
def place (d : Disk) (path : String) : Except Cause (List String) := d.walk path (Path.steps path)

/-- The directory in which a path takes its last step. -/
def placeAbove (d : Disk) (path : String) : Except Cause (List String) :=
  d.walk path ((Path.steps path).dropLast ++ ["."])

/-- The number of the node a path leads to. -/
def number (d : Disk) (path : String) : Except Cause Nat := do
  let place ← d.place path
  match d.numberAt? place with
  | none => throw .notFound
  | some n =>
    match d.nodes[n]? with
    | some node =>
      if Path.endsInSlash path && !node.isDirectory then throw .notDirectory else return n
    | none => throw .notFound

def node (d : Disk) (path : String) : Except Cause Node := do
  let n ← d.number path
  match d.nodes[n]? with
  | some node => return node
  | none => throw .notFound

def node? (d : Disk) (path : String) : Option Node := (d.node path).toOption

def isFile (d : Disk) (path : String) : Bool :=
  match d.node? path with
  | some (.file ..) => true
  | _ => false

def isDirectory (d : Disk) (path : String) : Bool := (d.node? path).any (·.isDirectory)

/-- The length that the system reports for a path. -/
def size (d : Disk) (path : String) : Except Cause Nat := do
  match ← d.node path with
  | .file bytes _ => return bytes.size
  | .directory _ => return directorySize
  | .pipe _ => return 0

/-- The time of change of what a path leads to, if it was set. -/
def stamp? (d : Disk) (path : String) : Option Stamp := (d.node? path).bind (·.stamp?)

/-- Give a node another time of change, or none that was set. -/
def stampNode (d : Disk) (n : Nat) (stamp : Option Stamp) : Disk :=
  { d with nodes := d.nodes.modify n (·.withStamp stamp) }

/-- Put other names on the disk; the directories in which the given places are have changed. -/
def putNames (d : Disk) (names : List (List String × Nat)) (changed : List (List String)) : Disk :=
  changed.foldl (fun d place =>
    ((d.numberAt? place.dropLast).map (d.stampNode · none)).getD d) { d with names }

/-- A new node under a name that is free. -/
def add (d : Disk) (place : List String) (node : Node) : Disk × Nat :=
  let n := d.nodes.size
  ({ d with nodes := d.nodes.push node }.putNames (d.names ++ [(place, n)]) [place], n)

/-! ## Handles -/

def openFile (d : Disk) (path : String) : Except Cause Handle :=
  (d.number path).map fun n => ⟨n, false⟩

/-- Open for writing: a file is emptied, a pipe stays as it is, a free name gets a new file. A path
that ends in a slash is a directory's, whatever is there. -/
def openFresh (d : Disk) (path : String) : Except Cause (Disk × Handle) := do
  if Path.endsInSlash path then
    let _ ← d.placeAbove path
    throw .isDirectory
  let place ← d.place path
  match d.numberAt? place with
  | none =>
    let (d, n) := d.add place (.file ByteArray.empty none)
    return (d, ⟨n, true⟩)
  | some n =>
    match d.nodes[n]? with
    | some (.file ..) =>
      return ({ d with nodes := d.nodes.setIfInBounds n (.file ByteArray.empty none) }, ⟨n, true⟩)
    | some (.pipe _) => return (d, ⟨n, true⟩)
    | some (.directory _) => throw .isDirectory
    | none => throw .notFound

/-- The length of what is open. -/
def sizeOf (d : Disk) (h : Handle) : Nat :=
  match d.nodes[h.node]? with
  | some (.file bytes _) => bytes.size
  | some (.directory _) => directorySize
  | _ => 0

/-- The content of what is open. -/
def contentOf (d : Disk) (h : Handle) : ByteArray :=
  match d.nodes[h.node]? with
  | some (.file bytes _) => bytes
  | _ => ByteArray.empty

/-- Up to `length` bytes from `offset` on; none at the end. -/
def readAt (d : Disk) (h : Handle) (offset length : Nat) : Except Cause ByteArray :=
  match d.nodes[h.node]? with
  | some (.file bytes _) =>
    .ok (bytes.extract offset (min (offset + length) bytes.size))
  | some (.directory _) => .error .isDirectory
  | _ => .ok ByteArray.empty

/-- Whether an offset can be reached in what is open. -/
def seek (d : Disk) (h : Handle) (offset : Nat) : Except Cause Unit :=
  match d.nodes[h.node]? with
  | some (.pipe _) => .error .illegalSeek
  | some (.file ..) => if sizeLimit < offset then .error .invalidArgument else .ok ()
  | _ => if seekLimit ≤ offset then .error .invalidArgument else .ok ()

/-- Exactly `length` bytes from `offset` on. -/
def readExact (d : Disk) (h : Handle) (offset length : Nat) : Except Cause ByteArray := do
  d.seek h offset
  if length = 0 then return ByteArray.empty
  let bytes ← d.readAt h offset length
  if bytes.size = length then return bytes else throw .shortRead

/-- Content with `new` put at `offset`, zeros before it if the content ends earlier. -/
def overlay (old : ByteArray) (offset : Nat) (new : ByteArray) : ByteArray :=
  if new.isEmpty then old
  else
    let old := if old.size < offset then old ++ Bytes.zeros (offset - old.size) else old
    new.copySlice 0 old offset new.size

/-- Put bytes at an offset. -/
def writeAt (d : Disk) (h : Handle) (offset : Nat) (new : ByteArray) : Except Cause Disk := do
  d.seek h offset
  match d.nodes[h.node]? with
  | some (.file old _) =>
    if new.isEmpty then return d
    if !h.writable then throw .badDescriptor
    if sizeLimit < offset + new.size then throw .fileTooLarge
    return { d with nodes := d.nodes.setIfInBounds h.node (.file (overlay old offset new) none) }
  | _ => throw .badDescriptor

/-- Content cut or extended by zeros to `length` bytes. -/
def resize (old : ByteArray) (length : Nat) : ByteArray :=
  if length ≤ old.size then old.extract 0 length
  else old ++ Bytes.zeros (length - old.size)

def setLength (d : Disk) (h : Handle) (length : Nat) : Except Cause Disk :=
  if seekLimit ≤ length then .error .lengthOutOfRange
  else match d.nodes[h.node]? with
    | some (.file old _) =>
      if !h.writable then .error .invalidArgument
      else if sizeLimit < length then .error .fileTooLarge
      else .ok { d with nodes := d.nodes.setIfInBounds h.node (.file (resize old length) none) }
    | _ => .error .invalidArgument

/-! ## Paths -/

/-- The whole content of a file. -/
def read (d : Disk) (path : String) : Except Cause ByteArray := do
  match ← d.node path with
  | .file bytes _ => return bytes
  | .directory _ => throw .isDirectory
  | .pipe _ => return ByteArray.empty

/-- Give a file new content; the file is made if it is not there. -/
def write (d : Disk) (path : String) (bytes : ByteArray) : Except Cause Disk := do
  let (d, h) ← d.openFresh path
  match d.nodes[h.node]? with
  | some (.file ..) => return { d with nodes := d.nodes.setIfInBounds h.node (.file bytes none) }
  | _ => return d

/-- Make one directory. -/
def makeDirectory (d : Disk) (path : String) : Except Cause Disk := do
  let place ← d.place path
  if (d.numberAt? place).isSome then throw .alreadyExists
  return (d.add place (.directory none)).1

/-- Make one directory, unless it is there. -/
def ensureDirectory (d : Disk) (path : String) : Except Cause Disk :=
  match d.makeDirectory path with
  | .ok d => .ok d
  | .error e => if d.isDirectory path then .ok d else .error e

/-- Try a single change. -/
def attempt (d : Disk) (f : Disk → Except Cause Disk) : Except Cause Unit × Disk :=
  match f d with
  | .ok d => (.ok (), d)
  | .error e => (.error e, d)

/-- Make a directory and those above it. `depth` bounds how many there are. -/
def makeDirectoriesUpTo : Nat → Disk → String → Except Cause Unit × Disk
  | 0, d, _ => (.ok (), d)
  | depth + 1, d, path =>
    if path == "" then (.ok (), d)
    else match d.makeDirectory path with
      | .ok d => (.ok (), d)
      | .error .notFound =>
        match Path.parent? path with
        | none => (.error .notFound, d)
        | some parent =>
          match makeDirectoriesUpTo depth d parent with
          | (.ok _, d) => d.attempt (·.ensureDirectory path)
          | refused => refused
      | .error e => (if d.isDirectory path then .ok () else .error e, d)

/-- Make a directory and those above it that are missing. -/
def makeDirectories (d : Disk) (path : String) : Except Cause Unit × Disk :=
  makeDirectoriesUpTo (path.length + 1) d path

/-- Take away the name of a file. -/
def remove (d : Disk) (path : String) : Except Cause Disk := do
  let place ← d.place path
  match d.nodeAt? place with
  | none => throw .notFound
  | some (.directory _) => throw .isDirectory
  | some _ =>
    if Path.endsInSlash path then throw .notDirectory
    return d.putNames (d.names.filter (·.1 != place)) [place]

/-- Take away what a path leads to and all that is below. Without a name of its own, a path keeps
what it leads to and loses only what is below. -/
def removeTree (d : Disk) (path : String) : Disk :=
  match d.number path, d.place path with
  | .ok _, .ok place =>
    let keeps (p : List String) : Bool :=
      !place.isPrefixOf p || (p == place && Path.isNameless path)
    d.putNames (d.names.filter (keeps ·.1)) [place]
  | _, _ => d

/-- Give a file another name; a file already there loses it. -/
def rename (d : Disk) (source target : String) : Except Cause Disk := do
  let _ ← d.placeAbove source
  let _ ← d.placeAbove target
  if Path.isNameless source || Path.isNameless target then throw .busy
  let old ← d.place source
  match d.numberAt? old with
  | none => throw .notFound
  | some n =>
    let new ← d.place target
    if Path.endsInSlash source || Path.endsInSlash target then throw .notDirectory
    if (d.nodeAt? new).any (·.isDirectory) then throw .isDirectory
    let kept := d.names.filter fun (p, _) => p != old && p != new
    return d.putNames (kept ++ [(new, n)]) [old, new]

/-- The time that is kept for one that was set: the nearest that can be, whole seconds at the ends. -/
def keptStamp (stamp : Stamp) : Stamp :=
  if stamp.seconds ≤ earliest then ⟨earliest, 0⟩
  else if latest ≤ stamp.seconds then ⟨latest, 0⟩
  else stamp

/-- Set the time of change. -/
def setStamp (d : Disk) (path : String) (stamp : Stamp) : Except Cause Disk :=
  (d.number path).map fun n => d.stampNode n (some (keptStamp stamp))

/-- A pipe under a name that is free. -/
def makePipe (d : Disk) (path : String) : Except Cause Disk := do
  let place ← d.place path
  return (d.add place (.pipe none)).1

end Disk

end FileSwarm
