import FileSwarm.CommandLine.Reading
import FileSwarm.Settings.Tuning

/-!
# Invocations: what a command line asks for

* `Command` : the four commands with their arguments;
* `Invocation.ofArguments` : the command of a list of arguments, with what was said of logging. This
  may be said before and after the name of a command; what comes later counts.
-/

namespace FileSwarm.CommandLine

/-- Write the signature of a file, or say what is in it. -/
structure SignArguments where
  file : String
  blockLength : Option Nat
  json : Bool
  output : Option String
deriving DecidableEq, Repr

/-- Say what a local copy is good for. -/
structure PlanArguments where
  reference : String
  localCopy : String
  blockLength : Option Nat
  json : Bool
deriving DecidableEq, Repr

/-- Fetch a file from servers in this process. -/
structure SyncArguments where
  reference : String
  target : String
  servers : Nat
  /-- Milliseconds. -/
  latency : Nat
  candidate : Option String
  noDelta : Bool
  streaming : Bool
  selection : Option Selection
  maxChunk : Option Nat
  maxRequests : Option Nat
  /-- Seconds. -/
  timeout : Nat
  keepTemp : Bool
deriving DecidableEq, Repr

/-- Look at the settings or change them. -/
inductive SettingsCommand where
  | get (key : String)
  | set (key value : String)
  | list
  | path
deriving DecidableEq, Repr

inductive Command where
  | sign (a : SignArguments)
  | plan (a : PlanArguments)
  | sync (a : SyncArguments)
  | settings (c : SettingsCommand)
deriving DecidableEq, Repr

/-- A command, and what was said of logging beside it. -/
structure Invocation where
  command : Command
  logLevel : Option String
  logFile : Option String
deriving DecidableEq, Repr

/-! ## Values -/

def anyText (_ : String) : Bool := true

/-- Paths are not empty. -/
def isPath (s : String) : Bool := s ≠ ""

def number? (s : String) : Option Nat := (Text.readNumber maxOffset s).toOption

def isNumber (s : String) : Bool := (number? s).isSome

def isBlockLength (s : String) : Bool :=
  (number? s).any fun n => 1 ≤ n && n ≤ Signature.maxBlockLength

def selection? (s : String) : Option Selection :=
  [Selection.firstEligible, .roundRobin, .leastLoaded].find? (·.name = s)

def isSelection (s : String) : Bool := (selection? s).isSome

/-! ## Levels -/

/-- What can be said of logging, at every level. -/
def logging : List ValueOption := [⟨"log-level", none, anyText⟩, ⟨"log-file", none, isPath⟩]

/-- A level that has others below it: help is to be had on it, on those, and on help itself. -/
def branching (below : List String) (version : Bool) : Level where
  options := logging
  flags := []
  words := []
  below
  topics := [] :: (below ++ ["help"]).map fun name => [name]
  version

def signLevel : Level where
  options := logging ++
    [⟨"part-length", none, isBlockLength⟩, ⟨"output", some 'o', isPath⟩]
  flags := ["json"]
  words := [isPath]
  below := []
  topics := []
  version := false

def planLevel : Level where
  options := logging ++ [⟨"part-length", none, isBlockLength⟩]
  flags := ["json"]
  words := [isPath, isPath]
  below := []
  topics := []
  version := false

def syncLevel : Level where
  options := logging ++
    [⟨"peers", none, isNumber⟩, ⟨"latency-ms", none, isNumber⟩, ⟨"candidate", none, isPath⟩,
      ⟨"selection", none, isSelection⟩, ⟨"max-chunk-size", none, isNumber⟩,
      ⟨"max-requests", none, isNumber⟩, ⟨"timeout-secs", none, isNumber⟩]
  flags := ["no-delta", "streaming", "keep-temp"]
  words := [isPath, isPath]
  below := []
  topics := []
  version := false

def settingsLevel : Level := branching ["get", "set", "list", "path"] false

/-- The level of one of the commands on settings, which has so many words. -/
def settingsCommandLevel (words : Nat) : Level :=
  ⟨logging, [], List.replicate words anyText, [], [], false⟩

/-- The names of the commands; help on those below `config` follows its name. -/
def topLevel : Level :=
  let l := branching ["signature", "plan", "sync", "config"] true
  { l with topics := l.topics ++ settingsLevel.topics.map ("config" :: ·) }

/-! ## From what was given -/

namespace Given

def number? (g : Given) (name : String) : Option Nat := (g.value? name).bind CommandLine.number?

def word (g : Given) (i : Nat) : String := g.words.getD i ""

end Given

def sign (g : Given) : Command :=
  .sign ⟨g.word 0, g.number? "part-length", g.hasFlag "json", g.value? "output"⟩

def plan (g : Given) : Command :=
  .plan ⟨g.word 0, g.word 1, g.number? "part-length", g.hasFlag "json"⟩

/-- A local copy cannot be named and refused at once. -/
def sync (g : Given) : Except Stop Command :=
  if (g.value? "candidate").isSome && g.hasFlag "no-delta" then .error .usage
  else
    .ok (.sync {
      reference := g.word 0
      target := g.word 1
      servers := (g.number? "peers").getD 3
      latency := (g.number? "latency-ms").getD 0
      candidate := g.value? "candidate"
      noDelta := g.hasFlag "no-delta"
      streaming := g.hasFlag "streaming"
      selection := (g.value? "selection").bind selection?
      maxChunk := g.number? "max-chunk-size"
      maxRequests := g.number? "max-requests"
      timeout := (g.number? "timeout-secs").getD 3600
      keepTemp := g.hasFlag "keep-temp" })

/-- A command with what was said of logging at the levels read, the deepest first. -/
def Invocation.ofLevels (command : Command) (levels : List Given) : Invocation :=
  ⟨command, levels.findSome? (·.value? "log-level"), levels.findSome? (·.value? "log-file")⟩

/-- The command on settings that the arguments below its level ask for. -/
def settingsCommand (top : Given) (arguments : List String) : Except Stop Invocation := do
  let (above, rest) ← settingsLevel.read arguments
  match above.word 0 with
  | "get" =>
    let (g, _) ← (settingsCommandLevel 1).read rest
    return .ofLevels (.settings (.get (g.word 0))) [g, above, top]
  | "set" =>
    let (g, _) ← (settingsCommandLevel 2).read rest
    return .ofLevels (.settings (.set (g.word 0) (g.word 1))) [g, above, top]
  | "list" =>
    let (g, _) ← (settingsCommandLevel 0).read rest
    return .ofLevels (.settings .list) [g, above, top]
  | _ =>
    let (g, _) ← (settingsCommandLevel 0).read rest
    return .ofLevels (.settings .path) [g, above, top]

/-- What a list of arguments asks for. -/
def Invocation.ofArguments (arguments : List String) : Except Stop Invocation := do
  let (top, rest) ← topLevel.read arguments
  match top.word 0 with
  | "signature" =>
    let (g, _) ← signLevel.read rest
    return .ofLevels (sign g) [g, top]
  | "plan" =>
    let (g, _) ← planLevel.read rest
    return .ofLevels (plan g) [g, top]
  | "sync" =>
    let (g, _) ← syncLevel.read rest
    return .ofLevels (← sync g) [g, top]
  | _ => settingsCommand top rest

end FileSwarm.CommandLine
