import FileSwarm.Disk.Cause
import FileSwarm.Settings.Tuning

/-!
# Settings

The tuning of transfers and what is logged, under nine keys with two-part names (`Key`), and how
reading or changing them fails (`SettingsError`).
-/

namespace FileSwarm

/-- How much is logged. -/
inductive LogLevel where
  | trace
  | debug
  | info
  | warn
  | error
deriving DecidableEq, Repr, Inhabited

namespace LogLevel

def name : LogLevel → String
  | trace => "trace"
  | debug => "debug"
  | info => "info"
  | warn => "warn"
  | error => "error"

def all : List LogLevel := [trace, debug, info, warn, error]

/-- The level of a name in lower case. -/
def ofName? (text : String) : Option LogLevel := all.find? (·.name = text)

end LogLevel

structure Settings where
  tuning : Tuning
  level : LogLevel
  /-- Where the log goes beside standard error. -/
  logFile : Option String
deriving DecidableEq, Repr

def Settings.standard : Settings := ⟨Tuning.standard, .info, none⟩

instance : Inhabited Settings := ⟨Settings.standard⟩

/-- What can be set. -/
inductive Key where
  | maxChunk
  | minDelta
  | maxRequests
  | blockLength
  | selection
  | maxMismatches
  | workers
  | logLevel
  | logFile
deriving DecidableEq, Repr, Inhabited

namespace Key

/-- All keys, in the order they are listed and stored. -/
def all : List Key :=
  [maxChunk, minDelta, maxRequests, blockLength, selection, maxMismatches, workers, logLevel, logFile]

def sectionName : Key → String
  | logLevel | logFile => "logging"
  | _ => "transfer"

/-- The name within the section. -/
def ownName : Key → String
  | maxChunk => "max_chunk_size"
  | minDelta => "min_delta_size"
  | maxRequests => "max_requests_per_source"
  | blockLength => "part_length"
  | selection => "source_selection"
  | maxMismatches => "max_verification_failures"
  | workers => "worker_threads"
  | logLevel => "level"
  | logFile => "file"

def name (k : Key) : String := s!"{k.sectionName}.{k.ownName}"

end Key

/-- Why a text is no value for a key. -/
inductive ValueError where
  | number (e : Text.NumberError)
  | zero
  | longBlock
  | tooLarge
  | unknownSelection (other : String)
  | unknownLevel
deriving DecidableEq, Repr, Inhabited

def ValueError.text : ValueError → String
  | number e => e.text
  | zero => "must be greater than zero"
  | longBlock => "larger than the maximum block size"
  | tooLarge => "too large"
  | unknownSelection other => Selection.unknownText other
  | unknownLevel => "expected trace, debug, info, warn or error"

/-- Why settings could not be read, changed or stored. -/
inductive SettingsError where
  | noDirectory
  | access (path : String) (cause : Cause)
  | malformed (path : String)
  | unknownKey (text : String)
  | invalidValue (key : Key) (value : String) (why : ValueError)
deriving DecidableEq, Repr, Inhabited

def SettingsError.text : SettingsError → String
  | noDirectory => "could not determine the configuration directory"
  | access path cause => s!"failed to access {path}: {cause.text}"
  | malformed path => s!"failed to parse {path}: malformed text"
  | unknownKey text => s!"unknown configuration key '{text}'"
  | invalidValue key value why => s!"invalid value '{value}' for {key.name}: {why.text}"

end FileSwarm
