import FileSwarm.Hex

/-!
# Summaries as JSON

An object of texts and numbers, one to a line, under names in alphabetical order.
-/

namespace FileSwarm.CommandLine

/-- A value of a summary. -/
inductive Item where
  | text (s : String)
  | number (n : Nat)
deriving DecidableEq, Repr

/-- A character inside quotes. -/
def quotedChar (c : Char) : List Char :=
  if c = '\x22' then ['\\', '\x22']
  else if c = '\\' then ['\\', '\\']
  else if c = '\x08' then ['\\', 'b']
  else if c = '\t' then ['\\', 't']
  else if c = '\n' then ['\\', 'n']
  else if c = '\x0c' then ['\\', 'f']
  else if c = '\r' then ['\\', 'r']
  else if c.toNat < 32 then '\\' :: 'u' :: Hex.ofNat 4 c.toNat
  else [c]

/-- A text in quotes. -/
def quoted (s : String) : String :=
  String.ofList ('\x22' :: s.toList.flatMap quotedChar ++ ['\x22'])

namespace Item

def json : Item → String
  | text s => quoted s
  | number n => toString n

end Item

/-- The object of a list of names and values. -/
def summary (items : List (String × Item)) : String :=
  let sorted := items.mergeSort fun a b => a.1 ≤ b.1
  let lines := sorted.map fun (name, item) => "  " ++ quoted name ++ ": " ++ item.json
  "\x7b\n" ++ ",\n".intercalate lines ++ "\n\x7d"

end FileSwarm.CommandLine
