import FileSwarm.Disk.Basic

/-!
# The file to be transferred, and the temp file it is assembled in

The temp file stands beside the file and has its name after `incompleteMark`.
-/

namespace FileSwarm

/-- What comes before the file's name in the name of its temp file. -/
def incompleteMark : String := "(incomplete) "

/-- Where the temp file of `path` is. -/
def tempPath (path : String) : String :=
  Path.withFileName path (incompleteMark ++ (Path.fileName? path).getD "")

/-- A file to be transferred: where it goes, its size and time of change at the peers, and the local
file that may have some of its bytes. -/
structure Target where
  path : String
  size : Nat
  modified : Stamp
  candidate : Option String
deriving DecidableEq, Repr, Inhabited

namespace Target

/-- A file whose local copy, if there is one, is where it goes. -/
def ofPath (path : String) (size : Nat) (modified : Stamp) : Target :=
  ⟨path, size, modified, some path⟩

/-- The file's name, or the whole path if it has none. -/
def name (t : Target) : String := (Path.fileName? t.path).getD t.path

def temp (t : Target) : String := tempPath t.path

def text (t : Target) : String := s!"{t.name} ({t.size} bytes)"

end Target

/-- Open the temp file, empty, in a directory made for it if need be. -/
def Disk.openTemp (d : Disk) (path : String) : Except Cause Handle × Disk :=
  let made : Except Cause Unit × Disk :=
    match Path.parent? path with
    | none | some "" => (.ok (), d)
    | some parent => d.makeDirectories parent
  match made with
  | (.error e, d) => (.error e, d)
  | (.ok _, d) =>
    match d.openFresh path with
    | .ok (d, h) => (.ok h, d)
    | .error e => (.error e, d)

end FileSwarm
