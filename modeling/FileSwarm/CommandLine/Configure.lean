import FileSwarm.CommandLine.Invocation
import FileSwarm.CommandLine.Shell

/-!
# Commands on settings

Values that are not set are shown as such. A settings file that cannot be read is no reason not to
show settings, but it is one not to change them.
-/

namespace FileSwarm.CommandLine

open Shell

def keyOf (text : String) : Shell Key :=
  orFail (fun _ => .unknownKey text) (Key.ofText text)

/-- A value as it is shown. -/
def shown (value : String) : String := if value.isEmpty then "(not set)" else value

def runGet (text : String) : Shell Unit := do
  let key ← keyOf text
  say (shown (key.get (← loadSettings)))

def runSet (text value : String) : Shell Unit := do
  let key ← keyOf text
  let s ← orFail .settings (← settings?)
  let s ← orFail .settings (key.set s value)
  let path ← settingsPath
  changeBy .settings (s.save · path)
  say s!"Set {key.name} = {value}"

/-- The lines of a section. -/
def saySection (s : Settings) (name : String) : Shell Unit := do
  say s!"[{name}]"
  for (key, value) in s.entries name do
    say s!"  {key} = {shown value}"

def runList : Shell Unit := do
  let s ← loadSettings
  say "Configuration Settings"
  say "======================"
  for name in Settings.sectionNames do
    say ""
    saySection s name

def runSettings : SettingsCommand → Shell Unit
  | .get key => runGet key
  | .set key value => runSet key value
  | .list => runList
  | .path => do say (← settingsPath)

end FileSwarm.CommandLine
