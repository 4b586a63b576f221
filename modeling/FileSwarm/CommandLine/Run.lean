import FileSwarm.CommandLine.Configure
import FileSwarm.CommandLine.Describe
import FileSwarm.CommandLine.Sync

/-!
# Running a command line

`run` takes arguments, a disk and the place of the user's settings to what is said, the exit status
and the disk after it. Settings are read first, whatever the command; then the log file is made ready,
unless the command is one on settings.
-/

namespace FileSwarm.CommandLine

open Shell

/-- The name of a log file whose path has none. -/
def defaultLogName : String := "swarmsync.log"

/-- Where a log file's directory is. -/
def logDirectory (path : String) : String :=
  match Path.parent? path with
  | none | some "" => "."
  | some parent => parent

/-- Make the log file, if one is wanted, and the directory it is in. -/
def prepareLog (s : Settings) (i : Invocation) : Shell Unit := do
  let some path := i.logFile <|> s.logFile | return
  let directory := logDirectory path
  changeBy (.logDirectory directory) (·.makeDirectories directory)
  let file := Path.join directory ((Path.fileName? path).getD defaultLogName)
  unless (← get).disk.isFile file do
    change (fun cause => .fault (.raised cause.text)) (·.write file ByteArray.empty)

def perform (i : Invocation) : Shell Unit := do
  let s ← loadSettings
  match i.command with
  | .settings c => runSettings c
  | .sign a =>
    prepareLog s i
    runSign s.tuning a
  | .plan a =>
    prepareLog s i
    runPlan s.tuning a
  | .sync a =>
    prepareLog s i
    runSync s.tuning a

/-- What came of a command line. -/
structure Outcome where
  status : Nat
  out : String
  err : String
  disk : Disk

def usageText : String := "Usage: swarmsync [OPTIONS] <signature|plan|sync|config> [ARGUMENTS]\n"

def versionText : String := "swarmsync 0.1.0\n"

/-- Run a command from its beginning to its end. -/
def Invocation.run (i : Invocation) (d : Disk) (settingsPath : Option String) : Outcome :=
  match (perform i).run.run ⟨d, settingsPath, "", ""⟩ with
  | (.ok _, c) => ⟨0, c.out, c.err, c.disk⟩
  | (.error e, c) => ⟨e.status, c.out, c.err ++ s!"Error: {e.text}\n", c.disk⟩

/-- Run what the arguments ask for. -/
def run (arguments : List String) (d : Disk) (settingsPath : Option String) : Outcome :=
  match Invocation.ofArguments arguments with
  | .ok i => i.run d settingsPath
  | .error .usage => ⟨2, "", usageText, d⟩
  | .error .help => ⟨0, usageText, "", d⟩
  | .error .version => ⟨0, versionText, "", d⟩

end FileSwarm.CommandLine
