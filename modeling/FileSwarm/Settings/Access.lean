import FileSwarm.Settings.Basic

/-!
# Getting and setting by key

* `Key.ofText` : the key a text names, whatever its case and the blanks around it;
* `Key.get` : a value as text, empty if it is not set;
* `Key.set` : a value from text. Blanks around it do not count, and a text that is no value for the key
  changes nothing.
-/

namespace FileSwarm.Key

def ofText (text : String) : Except SettingsError Key :=
  let wanted := Text.lower (Text.trim text)
  match all.find? (·.name = wanted) with
  | some k => .ok k
  | none => .error (.unknownKey text)

/-- The value of a key as text. -/
def get (k : Key) (s : Settings) : String :=
  match k with
  | maxChunk => toString s.tuning.maxChunk
  | minDelta => toString s.tuning.minDelta
  | maxRequests => toString s.tuning.maxRequests
  | blockLength => (s.tuning.blockLength.map toString).getD ""
  | selection => s.tuning.selection.name
  | maxMismatches => toString s.tuning.maxMismatches
  | workers => toString s.tuning.workers
  | logLevel => s.level.name
  | logFile => s.logFile.getD ""

/-- The largest number of mismatches that can be set, `2^32 - 1`. -/
def mismatchLimit : Nat := 4294967295

def readNumber (value : String) : Except ValueError Nat :=
  (Text.readNumber maxOffset value).mapError .number

def readPositive (value : String) : Except ValueError Nat := do
  let n ← readNumber value
  if n = 0 then throw .zero else return n

/-- The settings with a trimmed text as the value of a key. -/
def store (k : Key) (s : Settings) (value : String) : Except ValueError Settings :=
  match k with
  | maxChunk => do return { s with tuning.maxChunk := ← readPositive value }
  | minDelta => do return { s with tuning.minDelta := ← readNumber value }
  | maxRequests => do return { s with tuning.maxRequests := ← readPositive value }
  | blockLength =>
    if value = "" then .ok { s with tuning.blockLength := none }
    else do
      let n ← readPositive value
      if Signature.maxBlockLength < n then throw .longBlock
      return { s with tuning.blockLength := some n }
  | selection => do
    let selection ← (Selection.ofName value).mapError .unknownSelection
    return { s with tuning.selection := selection }
  | maxMismatches => do
    let n ← readPositive value
    if mismatchLimit < n then throw .tooLarge
    return { s with tuning.maxMismatches := n }
  | workers => do return { s with tuning.workers := ← readNumber value }
  | logLevel =>
    match LogLevel.ofName? (Text.lower value) with
    | some level => .ok { s with level }
    | none => .error .unknownLevel
  | logFile => .ok { s with logFile := if value = "" then none else some value }

/-- Blanks around the text do not count. A value is assigned only after its text was read and checked in full, so
with an error the settings are what they were: nothing is lost by returning either new settings or an error. -/
def set (k : Key) (s : Settings) (text : String) : Except SettingsError Settings :=
  let value := Text.trim text
  (k.store s value).mapError (.invalidValue k value)

end FileSwarm.Key
