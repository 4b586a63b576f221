import FileSwarm.Delta.Failure
import FileSwarm.Disk.Basic
import FileSwarm.Settings.File
import FileSwarm.Transfer.Breakage

/-!
# What commands work on

A command reads and changes the disk, says lines on two channels, and may fail. What it said and
changed before stays.

* `CommandError` : how commands fail, with the wording and the exit status;
* `Shell` : steps of a command;
* `loadSettings` : the settings of the user, or the standard ones with a warning.
-/

namespace FileSwarm.CommandLine

/-- Why a command failed. -/
inductive CommandError where
  | settings (e : SettingsError)
  | unknownKey (text : String)
  | noServers
  | logDirectory (path : String) (cause : Cause)
  | failure (f : Failure)
  | transfer (e : TransferError)
  | access (path : String) (cause : Cause)
  | broken
  | stopped (phase : Phase)
  | fault (f : Fault)
deriving DecidableEq, Repr

namespace CommandError

def text : CommandError → String
  | settings e => e.text
  | unknownKey text =>
    s!"Unknown configuration key '{text}'. Use 'swarmsync config list' to see available keys."
  | noServers => "--peers must be at least 1"
  | logDirectory path cause =>
    s!"Failed to initialize logging: failed to create log directory {path}: {cause.text}"
  | failure f => f.text
  | transfer e => e.text
  | access path cause => s!"{path}: {cause.text}"
  | broken => "Sync failed: transfer broken, see log"
  | stopped phase => s!"Sync failed: stopped in phase {phase.text}"
  | fault f => f.text

/-- The exit status. -/
def status : CommandError → Nat
  | fault _ => 101
  | _ => 1

end CommandError

/-- What a command works on. -/
structure Console where
  disk : Disk
  /-- Where the user's settings are, if there is a place for them. -/
  settingsPath : Option String
  out : String
  err : String

abbrev Shell := ExceptT CommandError (StateM Console)

namespace Shell

/-- Say a line. -/
def say (line : String) : Shell Unit := modify fun c => { c with out := c.out ++ line ++ "\n" }

/-- Say a line on the channel for errors. -/
def warn (line : String) : Shell Unit := modify fun c => { c with err := c.err ++ line ++ "\n" }

/-- A result, or the failure of the command. -/
def orFail (wrap : ε → CommandError) : Except ε α → Shell α
  | .ok a => return a
  | .error e => throw (wrap e)

/-- Ask the disk. -/
def ask (wrap : Cause → CommandError) (f : Disk → Except Cause α) : Shell α := do
  orFail wrap (f (← get).disk)

/-- Change the disk step by step. -/
def changeBy (wrap : ε → CommandError) (f : Disk → Except ε α × Disk) : Shell α := do
  let (result, disk) := f (← get).disk
  modify fun c => { c with disk }
  orFail wrap result

/-- Change the disk in one step. -/
def change (wrap : Cause → CommandError) (f : Disk → Except Cause Disk) : Shell Unit :=
  changeBy wrap (·.attempt f)

/-- Where the user's settings are. -/
def settingsPath : Shell String := do
  match (← get).settingsPath with
  | some path => return path
  | none => throw (.settings .noDirectory)

/-- What the user's settings are, or why this cannot be said. -/
def settings? : Shell (Except SettingsError Settings) := do
  let c ← get
  match c.settingsPath with
  | some path => return Settings.load c.disk path
  | none => return .error .noDirectory

/-- The user's settings, or the standard ones with a warning. -/
def loadSettings : Shell Settings := do
  match ← settings? with
  | .ok s => return s
  | .error e =>
    warn s!"Warning: {e.text}; using default settings"
    return Settings.standard

end Shell

end FileSwarm.CommandLine
