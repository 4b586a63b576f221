import FileSwarm.CommandLine.Run

/-!
# The program

Brings what stands at the paths of a command line from the system's disk onto a `Disk`, runs the
command there, and takes the changes back.
-/

namespace FileSwarm.CommandLine

/-- A path and those above it, the uppermost first. -/
def lineage (path : String) : List String :=
  let names := Path.split path
  ((List.range names.length).map fun i => "/".intercalate (names.take (i + 1))).filter (· ≠ "")

/-- The paths that a command reads or writes. -/
def Command.paths : Command → List String
  | sign a => a.file :: a.output.toList
  | plan a => [a.reference, a.localCopy]
  | sync a => [a.reference, a.target, tempPath a.target] ++ a.candidate.toList
  | settings _ => []

/-- Put what stands at a path, and at those above it, on the disk. -/
def bring (d : Disk) (path : String) : IO Disk := do
  let root ← IO.currentDir
  let mut d := d
  for p in lineage path do
    let place := root / p
    if ← place.isDir then
      d := (d.makeDirectory p).toOption.getD d
    else if ← place.pathExists then
      d := (d.write p (← IO.FS.readBinFile place)).toOption.getD d
      let time := (← place.metadata).modified
      d := (d.setStamp p ⟨time.sec, time.nsec.toNat⟩).toOption.getD d
  return d

/-- Make the system's disk agree with the changed one at a path, and with the directories above it. -/
def takeBack (old new : Disk) (path : String) : IO Unit := do
  let root ← IO.currentDir
  for p in lineage path do
    if new.isDirectory p && !old.isDirectory p then IO.FS.createDirAll (root / p)
  match (old.read path).toOption, (new.read path).toOption with
  | before, some after => if before != some after then IO.FS.writeBinFile (root / path) after
  | some _, none => IO.FS.removeFile (root / path)
  | none, none => return

/-- Where the user's settings are: in a directory of the environment's, or in one of its own under
the user's. -/
def findSettings : IO (Option String) := do
  let below := "swarmsync/config.ini"
  match ← IO.getEnv "XDG_CONFIG_HOME" with
  | some directory => if Path.isAbsolute directory then return some (Path.join directory below)
  | none => pure ()
  return (← IO.getEnv "HOME").map fun home => Path.join home (Path.join ".config" below)

/-- The disk as a command finds it, and the paths it may change. -/
def furnish (i : Invocation) (settingsPath : Option String) : IO (Disk × List String) := do
  let here := (Path.split (← IO.currentDir).toString).filter (· ≠ "")
  let d ← settingsPath.toList.foldlM bring (Disk.empty here)
  let logFile := (settingsPath.bind fun p => (Settings.load d p).toOption).bind (·.logFile)
  let paths := settingsPath.toList ++ (i.logFile <|> logFile).toList ++ i.command.paths
  return (← paths.foldlM bring d, paths)

end FileSwarm.CommandLine

open FileSwarm FileSwarm.CommandLine in
def main (arguments : List String) : IO UInt32 := do
  let settingsPath ← findSettings
  let (d, paths) ← match Invocation.ofArguments arguments with
    | .ok i => furnish i settingsPath
    | .error _ => pure (Disk.empty [], [])
  let o := run arguments d settingsPath
  paths.forM (takeBack d o.disk)
  IO.print o.out
  IO.eprint o.err
  return o.status.toUInt32
