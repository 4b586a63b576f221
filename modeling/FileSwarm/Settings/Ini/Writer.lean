import FileSwarm.Hex

/-!
# Writing INI text

`[name]`, one line `key=value` an entry, and an empty line between sections. In values a backslash and
control characters are escaped; nothing is quoted.
-/

namespace FileSwarm.Ini

/-- A character of a value as it is written. -/
def escapeChar (c : Char) : List Char :=
  let n := c.toNat
  if c = '\\' then ['\\', '\\']
  else if n = 0 then ['\\', '0']
  else if n = 7 then ['\\', 'a']
  else if n = 8 then ['\\', 'b']
  else if n = 12 then ['\\', 'f']
  else if n = 11 then ['\\', 'v']
  else if c = '\n' then ['\\', 'n']
  else if c = '\t' then ['\\', 't']
  else if c = '\r' then ['\\', 'r']
  else if n < 32 ∨ n = 127 then ['\\', 'x'] ++ Hex.ofNat 4 n
  else [c]

def escape (value : List Char) : List Char := value.flatMap escapeChar

def writeEntry (e : String × String) : List Char :=
  e.1.toList ++ ['='] ++ escape e.2.toList ++ ['\n']

def writeSection (name : String) (entries : List (String × String)) : List Char :=
  ['['] ++ name.toList ++ [']', '\n'] ++ entries.flatMap writeEntry

/-- The text of some sections. -/
def write (sections : List (String × List (String × String))) : String :=
  String.ofList (List.intercalate ['\n'] (sections.map fun s => writeSection s.1 s.2))

end FileSwarm.Ini
