import FileSwarm.Hex
import FileSwarm.Text
import FileSwarm.Text.Alphanumeric

/-!
# Patterns for values

Which texts are understood as patterns. A pattern is a choice, with `|`, of sequences of characters,
`.`, places (`^`, `$`, `\A`, `\z`, edges of words), sets of characters in brackets, and groups in
parentheses; each may be repeated with `*`, `+`, `?`. Counts in braces do not occur, because a value
ends at its first closing brace; so an opening brace that stands for itself has to be escaped or in
a set. No class of characters is known that needs a table of all scripts.

* `Mode` : the settings that `(?flags)` changes, up to the end of the group they stand in;
* `Atom`, `readEscape` : what stands for one character or place, and the ways to write it;
* `readSet` : a set in brackets;
* `readOpening` : what follows an opening parenthesis;
* `State`, `step`, `read` : the rest, with the groups that are open;
* `isPattern` : whether a text is understood; it must not be nested deeper than `deepest`.

Depth counts each repetition, group and set, each choice and sequence of several, and each operator in
a set.
-/

namespace FileSwarm.Logging.Pattern

/-! ## Settings -/

/-- How a pattern is read. -/
structure Mode where
  /-- Blanks, and remarks from `#` to the end of a line, are passed over. -/
  spaced : Bool
  /-- Letters match in both cases. -/
  anyCase : Bool
  /-- It matches characters of all scripts, not only of ASCII. -/
  allScripts : Bool
deriving DecidableEq, Repr

namespace Mode

def ordinary : Mode := ⟨false, false, true⟩

/-- Set a flag; the other ones have no part in what is understood. -/
def put (m : Mode) (flag : Char) (on : Bool) : Mode :=
  if flag = 'x' then { m with spaced := on }
  else if flag = 'i' then { m with anyCase := on }
  else if flag = 'u' then { m with allScripts := on }
  else m

/-- What is left once blanks and remarks are passed over; `inRemark` if a remark has begun. -/
def passOver : (inRemark : Bool) → List Char → List Char
  | _, [] => []
  | true, c :: cs => passOver (c ≠ '\n') cs
  | false, c :: cs =>
    if Text.isBlank c then passOver false cs
    else if c = '#' then passOver true cs
    else c :: cs

/-- What is left once that which does not count is passed over. -/
def skip (m : Mode) (cs : List Char) : List Char := if m.spaced then passOver false cs else cs

/-- The character after a hyphen, by which a range is told from a lone hyphen. Of a remark only the
blanks are passed over, not its words. -/
def peek (m : Mode) (cs : List Char) : Option Char :=
  if m.spaced then
    match cs.dropWhile Text.isBlank with
    | '#' :: rest => (rest.dropWhile Text.isBlank).head?
    | rest => rest.head?
  else cs.head?

/-- Whether a character can be meant: both cases of it are known in ASCII only. -/
def knows (m : Mode) : Bool := !(m.allScripts && m.anyCase)

end Mode

/-! ## Single characters and places -/

/-- What stands for one character or one place. -/
inductive Atom where
  | char (c : Char)
  /-- A character that is written as two hexadecimal digits. -/
  | byte (c : Char)
  | any
  /-- Digits, blanks or letters, or all but them. -/
  | shorthand (negated : Bool)
  /-- An end of a line or of the text. -/
  | bound
  /-- An edge of a word, or a place that is none. -/
  | wordBound
deriving DecidableEq, Repr

namespace Atom

/-- Whether a sequence may have it. -/
def isAllowed (m : Mode) : Atom → Bool
  | char _ => m.knows
  | byte c => m.knows && (m.allScripts || c.toNat < 0x80)
  | any => m.allScripts
  | shorthand negated => !m.allScripts && !negated
  | bound => true
  | wordBound => !m.allScripts

/-- The character it is, if it is one that a set may have. -/
def member? (m : Mode) : Atom → Option Char
  | char c | byte c => if m.knows && (m.allScripts || c.toNat < 0x80) then some c else none
  | _ => none

/-- Whether a set may have it. -/
def isMember (m : Mode) : Atom → Bool
  | shorthand negated => !m.allScripts && !negated
  | a => (a.member? m).isSome

end Atom

/-- Letters that stand for control characters after a backslash. -/
def controls : List (Char × Char) :=
  [('a', '\x07'), ('f', '\x0c'), ('t', '\t'), ('n', '\n'), ('r', '\r'), ('v', '\x0b')]

/-- So many hexadecimal digits, as a number. -/
def readHex (m : Mode) : (digits number : Nat) → List Char → Option (Nat × List Char)
  | 0, n, cs => some (n, cs)
  | digits + 1, n, cs =>
    match m.skip cs with
    | c :: rest => (Hex.value? c).bind fun v => readHex m digits (16 * n + v) rest
    | [] => none

/-- The character with a number that is given in so many digits. -/
def readCode (m : Mode) (digits : Nat) (cs : List Char) : Option (Char × List Char) := do
  let (n, rest) ← readHex m digits 0 cs
  if n < 0xD800 || (0xDFFF < n && n < 0x110000) then some (Char.ofNat n, rest) else none

/-- Read what follows a backslash. Signs stand for themselves; letters only for what is listed. -/
def readEscape (m : Mode) : List Char → Option (Atom × List Char)
  | [] => none
  | c :: cs =>
    if c = 'x' then (readCode m 2 cs).map fun (x, rest) => (.byte x, rest)
    else if c = 'u' then (readCode m 4 cs).map fun (x, rest) => (.char x, rest)
    else if c = 'U' then (readCode m 8 cs).map fun (x, rest) => (.char x, rest)
    else if c ∈ ['d', 's', 'w'] then some (.shorthand false, cs)
    else if c ∈ ['D', 'S', 'W'] then some (.shorthand true, cs)
    else if c ∈ ['A', 'z'] then some (.bound, cs)
    else if c ∈ ['b', 'B', '<', '>'] then some (.wordBound, cs)
    else if c.toNat < 0x80 && !c.isAlphanum then some (.char c, cs)
    else (controls.lookup c).map fun x => (.char x, cs)

/-! ## Depth -/

/-- How deep several things together are; one alone is as deep as it is. -/
def depthOf : List Nat → Nat
  | [] => 0
  | [d] => d
  | ds => ds.foldl max 0 + 1

/-! ## Sets -/

/-- The names of sets that may stand between `[:` and `:]`. -/
def setNames : List String :=
  ["alnum", "alpha", "ascii", "blank", "cntrl", "digit", "graph", "lower", "print", "punct", "space",
    "upper", "word", "xdigit"]

/-- Read the name of a set, after its bracket, and whether it is negated. -/
def readSetName : List Char → Option (Bool × List Char)
  | ':' :: cs =>
    let negated := cs.head? = some '^'
    let cs := if negated then cs.drop 1 else cs
    match cs.dropWhile (· ≠ ':') with
    | ':' :: ']' :: rest =>
      if String.ofList (cs.takeWhile (· ≠ ':')) ∈ setNames then some (negated, rest) else none
    | _ => none
  | _ => none

/-- A set whose end is not read yet. -/
structure OpenSet where
  /-- The depths of the members since the last operator. -/
  members : List Nat
  /-- The depth of what stands before the last operator. -/
  left : Option Nat
  /-- Only hyphens were read so far. They stand for themselves there, as does a bracket that comes
  first. -/
  fresh : Bool
deriving DecidableEq, Repr

namespace OpenSet

def empty : OpenSet := ⟨[], none, true⟩

def add (s : OpenSet) (depth : Nat) : OpenSet :=
  { s with members := depth :: s.members, fresh := false }

/-- How deep its content is. -/
def depth (s : OpenSet) : Nat :=
  match s.left with
  | none => depthOf s.members
  | some l => max l (depthOf s.members) + 1

/-- What was read stands before an operator. -/
def operator (s : OpenSet) : OpenSet := ⟨[], some s.depth, false⟩

end OpenSet

/-- Read one character of a set. -/
def readMember (m : Mode) : List Char → Option (Atom × List Char)
  | [] => none
  | '\\' :: cs => readEscape m cs
  | c :: cs => some (.char c, cs)

/-- Read a member or a range of a set. -/
def readRange (m : Mode) (cs : List Char) : Option (List Char) := do
  let (first, rest) ← readMember m cs
  match m.skip rest with
  | [] => none
  | '-' :: rest =>
    if m.peek rest = some ']' || m.peek rest = some '-' then
      if first.isMember m then some ('-' :: rest) else none
    else
      let (last, rest) ← readMember m (m.skip rest)
      let a ← first.member? m
      let b ← last.member? m
      if a ≤ b then some rest else none
  | rest => if first.isMember m then some rest else none

/-- Read what opens a set, after its bracket. All but some characters would be beyond ASCII. -/
def readSetOpening (m : Mode) (cs : List Char) : Option (List Char) :=
  match m.skip cs with
  | '^' :: rest => if m.allScripts then some rest else none
  | rest => some rest

/-- Read a set up to its end, for its depth; `outer` are the sets around it. -/
def readSet (m : Mode) : (fuel : Nat) → OpenSet → (outer : List OpenSet) → List Char →
    Option (Nat × List Char)
  | 0, _, _, _ => none
  | fuel + 1, s, outer, cs =>
    match m.skip cs with
    | [] => none
    | c :: rest =>
      if s.fresh && (c = '-' || (c = ']' && s.members = [])) then
        if m.knows then readSet m fuel { s.add 0 with fresh := c = '-' } outer rest else none
      else if c = '[' then
        match readSetName rest with
        | some (negated, rest) =>
          if m.knows && (m.allScripts || !negated) then readSet m fuel (s.add 0) outer rest else none
        | none => (readSetOpening m rest).bind (readSet m fuel .empty (s :: outer))
      else if c = ']' then
        match outer with
        | [] => some (s.depth + 1, rest)
        | t :: outer => readSet m fuel (t.add (s.depth + 1)) outer rest
      else if c ∈ ['&', '-', '~'] && rest.head? = some c then
        readSet m fuel s.operator outer (rest.drop 1)
      else (readRange m (c :: rest)).bind (readSet m fuel (s.add 0) outer)

/-! ## Groups -/

/-- Read flags up to a colon or a closing parenthesis, which is returned with them; `seen` are those
before, the last first. A hyphen turns off those after it. -/
def readFlags (m : Mode) (seen : List Char) :
    List Char → Option (Mode × List Char × Char × List Char)
  | [] => none
  | c :: cs =>
    if c = ':' || c = ')' then if seen.head? = some '-' then none else some (m, seen, c, cs)
    else if c ∈ seen then none
    else if c ∈ ['i', 'm', 's', 'U', 'u', 'R', 'x', '-'] then
      readFlags (m.put c ('-' ∉ seen)) (c :: seen) cs
    else none

/-- Whether a text may be the name of a group. -/
def isGroupName : List Char → Bool
  | [] => false
  | c :: cs =>
    (c = '_' || Text.isAlphabetic c) &&
      cs.all fun c => c ∈ ['_', '.', '[', ']'] || Text.isAlphanumeric c

/-- What an opening parenthesis begins. -/
inductive Opening where
  /-- A group, with the mode inside. -/
  | group (m : Mode) (name : Option String)
  /-- A change of the mode of the group around it. -/
  | change (m : Mode)

/-- Read the name of a group. -/
def readGroupName (m : Mode) (cs : List Char) : Option (Opening × List Char) :=
  let name := cs.takeWhile (· ≠ '>')
  match cs.dropWhile (· ≠ '>') with
  | _ :: rest =>
    if isGroupName name then some (.group m (some (String.ofList name)), rest) else none
  | [] => none

/-- Read what follows an opening parenthesis. Looking ahead or behind is not understood. -/
def readOpening (m : Mode) (cs : List Char) : Option (Opening × List Char) :=
  match m.skip cs with
  | '?' :: '=' :: _ | '?' :: '!' :: _ | '?' :: '<' :: '=' :: _ | '?' :: '<' :: '!' :: _ => none
  | '?' :: 'P' :: '<' :: rest | '?' :: '<' :: rest => readGroupName m rest
  | '?' :: rest => do
    let (inside, flags, last, rest) ← readFlags m [] rest
    if last = ':' then some (.group inside none, rest)
    else if flags = [] then none
    else some (.change inside, rest)
  | rest => some (.group m none, rest)

/-! ## Sequences and choices -/

/-- A part of a sequence. -/
structure Part where
  depth : Nat
  /-- A change of mode cannot be repeated. -/
  repeatable : Bool
deriving DecidableEq, Repr

/-- A group whose end is not read yet. -/
structure OpenGroup where
  /-- The mode around it. -/
  outside : Mode
  /-- The depths of the alternatives before the last. -/
  earlier : List Nat
  /-- The parts of the last alternative, the last part first. -/
  parts : List Part
deriving DecidableEq, Repr

namespace OpenGroup

def empty (outside : Mode) : OpenGroup := ⟨outside, [], []⟩

def add (g : OpenGroup) (p : Part) : OpenGroup := { g with parts := p :: g.parts }

/-- How deep the last alternative is. -/
def lastDepth (g : OpenGroup) : Nat := depthOf (g.parts.map (·.depth))

/-- How deep its content is. -/
def depth (g : OpenGroup) : Nat := depthOf (g.lastDepth :: g.earlier)

/-- Begin another alternative. -/
def alternative (g : OpenGroup) : OpenGroup :=
  { g with earlier := g.lastDepth :: g.earlier, parts := [] }

/-- Repeat the last part. -/
def repeatLast (g : OpenGroup) : Option OpenGroup :=
  match g.parts with
  | p :: parts =>
    if p.repeatable then some { g with parts := ⟨p.depth + 1, true⟩ :: parts } else none
  | [] => none

end OpenGroup

/-- What was read so far. -/
structure State where
  mode : Mode
  /-- The names of the groups so far; no two are the same. -/
  names : List String
  group : OpenGroup
  /-- The groups around it, the inmost first. -/
  outer : List OpenGroup

namespace State

def initial : State := ⟨.ordinary, [], .empty .ordinary, []⟩

def add (s : State) (depth : Nat) : State := { s with group := s.group.add ⟨depth, true⟩ }

/-- Open a group. -/
def enter (s : State) (inside : Mode) (name : Option String) : Option State :=
  if name.any (· ∈ s.names) then none
  else some ⟨inside, name.toList ++ s.names, .empty s.mode, s.group :: s.outer⟩

/-- Close a group. -/
def leave (s : State) : Option State :=
  match s.outer with
  | [] => none
  | g :: outer =>
    some { s with mode := s.group.outside, group := g.add ⟨s.group.depth + 1, true⟩, outer }

def addAtom (s : State) (a : Atom) : Option State :=
  if a.isAllowed s.mode then some (s.add 0) else none

end State

/-- Read one part that begins with `c`, or a sign that joins parts. -/
def step (s : State) (c : Char) (rest : List Char) : Option (State × List Char) :=
  if c = '(' then do
    match ← readOpening s.mode rest with
    | (.group inside name, rest) => (s.enter inside name).map (·, rest)
    | (.change mode, rest) => some ({ s with mode, group := s.group.add ⟨0, false⟩ }, rest)
  else if c = ')' then s.leave.map (·, rest)
  else if c = '|' then some ({ s with group := s.group.alternative }, rest)
  else if c = '[' then do
    let (depth, rest) ← (readSetOpening s.mode rest).bind (readSet s.mode rest.length .empty [])
    some (s.add depth, rest)
  else if c ∈ ['?', '*', '+'] then do
    let group ← s.group.repeatLast
    some ({ s with group }, if rest.head? = some '?' then rest.drop 1 else rest)
  else if c = '\x7b' then none
  else if c = '\\' then do
    let (a, rest) ← readEscape s.mode rest
    (s.addAtom a).map (·, rest)
  else
    let a : Atom := if c = '.' then .any else if c = '^' || c = '$' then .bound else .char c
    (s.addAtom a).map (·, rest)

/-- Read a pattern; each step takes a character at least. -/
def read : (fuel : Nat) → State → List Char → Option State
  | 0, _, _ => none
  | fuel + 1, s, cs =>
    match s.mode.skip cs with
    | [] => some s
    | c :: rest => (step s c rest).bind fun (s, rest) => read fuel s rest

/-- How deep a pattern may be. -/
def deepest : Nat := 250

/-- Whether a text is understood as a pattern. -/
def isPattern (text : String) : Bool :=
  match read (text.toList.length + 1) .initial text.toList with
  | some s => s.outer = [] && s.group.depth ≤ deepest
  | none => false

end FileSwarm.Logging.Pattern
