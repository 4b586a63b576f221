import FileSwarm.Disk.Basic
import FileSwarm.Settings.Access
import FileSwarm.Settings.Ini.Reader
import FileSwarm.Settings.Ini.Writer

/-!
# The settings file

* `toIni` : all settings as INI text;
* `ofSections` : settings from sections that were read. Keys that are not there keep their standard
  value, and the first bad value, in the order of the keys, is an error;
* `load`, `save` : from and to a file. Without a file the settings are the standard ones;
* `same` : when two settings are equal.
-/

namespace FileSwarm.Settings

/-- The entries of a section. -/
def entries (s : Settings) (sectionName : String) : List (String × String) :=
  (Key.all.filter (·.sectionName = sectionName)).map fun k => (k.ownName, k.get s)

/-- The sections, in the order they are stored. -/
def sectionNames : List String := ["transfer", "logging"]

def toIni (s : Settings) : String :=
  Ini.write (sectionNames.map fun name => (name, s.entries name))

def ofSections (sections : List Ini.Section) : Except SettingsError Settings :=
  Key.all.foldlM (fun s k =>
    match Ini.lookup sections k.sectionName k.ownName with
    | some value => k.set s value
    | none => .ok s) standard

/-- Settings from the bytes of a file. -/
def ofBytes (path : String) (bytes : ByteArray) : Except SettingsError Settings :=
  match String.fromUTF8? bytes with
  | none => .error (.access path .notUtf8)
  | some text =>
    match Ini.parse text with
    | none => .error (.malformed path)
    | some sections => ofSections sections

def load (d : Disk) (path : String) : Except SettingsError Settings :=
  if (d.node? path).isNone then .ok standard
  else
    match d.read path with
    | .error cause => .error (.access path cause)
    | .ok bytes => ofBytes path bytes

/-- Store settings; the directory is made if need be. -/
def save (s : Settings) (d : Disk) (path : String) : Except SettingsError Unit × Disk :=
  let made : Except Cause Unit × Disk :=
    match Path.parent? path with
    | some parent => d.makeDirectories parent
    | none => (.ok (), d)
  let stored : Except Cause Unit × Disk :=
    match made with
    | (.ok _, d) => d.attempt (·.write path s.toIni.toUTF8)
    | refused => refused
  (stored.1.mapError (.access path), stored.2)

/-- Whether two settings say the same; of the log file the path counts, not its text. -/
def same (a b : Settings) : Bool :=
  a.tuning = b.tuning && a.level = b.level &&
    match a.logFile, b.logFile with
    | some x, some y => Path.same x y
    | x, y => x = y

end FileSwarm.Settings
