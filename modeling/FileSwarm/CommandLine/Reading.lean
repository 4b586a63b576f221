/-!
# Reading arguments

A command line is read level by level. A level knows its options, which have values, its flags, which
have none, and either its words or the names of the levels below it. A long name follows two hyphens,
its value an equals sign or the next argument; a letter follows one hyphen, its value right after it
or in the next argument. A value that is an argument of its own does not start with a hyphen, unless
that is all it has. After two hyphens alone everything is a word. Nothing may be given twice. Where
there are levels below, the word `help` asks for help on the level whose names follow it.

* `Level` : what a level knows;
* `Level.classify` : what an argument is;
* `Level.read` : what was given at a level, and the arguments for the level below;
* `Stop` : why reading stopped.
-/

namespace FileSwarm.CommandLine

/-- Why there is no command to run. -/
inductive Stop where
  /-- The arguments make no sense. -/
  | usage
  /-- Help was asked for. -/
  | help
  /-- The version was asked for. -/
  | version
deriving DecidableEq, Repr, Inhabited

/-- An option with a value. -/
structure ValueOption where
  name : String
  letter : Option Char
  accepts : String → Bool

/-- What a level of the command line knows. -/
structure Level where
  options : List ValueOption
  flags : List String
  /-- What each word may be. -/
  words : List (String → Bool)
  below : List String
  /-- What may follow the word `help`. -/
  topics : List (List String)
  /-- Whether the version can be asked for. -/
  version : Bool

/-- What was given at a level. -/
structure Given where
  options : List (String × String)
  flags : List String
  words : List String
deriving Repr, Inhabited

/-- What an argument is. -/
inductive Argument where
  | flag (name : String)
  | option (o : ValueOption) (value : Option String)
  | word
  | wordsOnly
  | stop (why : Stop)

namespace Given

def nothing : Given := ⟨[], [], []⟩

def value? (g : Given) (name : String) : Option String := (g.options.find? (·.1 = name)).map (·.2)

def hasFlag (g : Given) (name : String) : Bool := g.flags.contains name

end Given

namespace Level

/-- An argument after two hyphens. -/
def classifyLong (l : Level) (rest : List Char) : Argument :=
  let name := String.ofList (rest.takeWhile (· ≠ '='))
  let value : Option String :=
    match rest.dropWhile (· ≠ '=') with
    | [] => none
    | _ :: value => some (String.ofList value)
  match l.options.find? (·.name = name) with
  | some o => .option o value
  | none =>
    if value.isSome then .stop .usage
    else if name ∈ l.flags then .flag name
    else if name = "help" then .stop .help
    else if name = "version" ∧ l.version then .stop .version
    else .stop .usage

/-- An argument after one hyphen. -/
def classifyLetter (l : Level) (letter : Char) (rest : List Char) : Argument :=
  match l.options.find? (·.letter = some letter) with
  | some o =>
    match rest with
    | [] => .option o none
    | '=' :: value => .option o (some (String.ofList value))
    | value => .option o (some (String.ofList value))
  | none =>
    if letter = 'h' then .stop .help
    else if letter = 'V' ∧ l.version then .stop .version
    else .stop .usage

def classify (l : Level) (argument : String) : Argument :=
  match argument.toList with
  | ['-', '-'] => .wordsOnly
  | '-' :: '-' :: rest => l.classifyLong rest
  | '-' :: letter :: rest => l.classifyLetter letter rest
  | _ => .word

def addFlag (g : Given) (name : String) : Except Stop Given :=
  if g.hasFlag name then .error .usage else .ok { g with flags := g.flags ++ [name] }

def addOption (g : Given) (o : ValueOption) (value : String) : Except Stop Given :=
  if (g.value? o.name).isSome || !o.accepts value then .error .usage
  else .ok { g with options := g.options ++ [(o.name, value)] }

def addWord (l : Level) (g : Given) (word : String) : Except Stop Given :=
  match l.words[g.words.length]? with
  | some accepts =>
    if accepts word then .ok { g with words := g.words ++ [word] } else .error .usage
  | none => .error .usage

/-- What was given, if nothing is missing. -/
def finish (l : Level) (g : Given) : Except Stop Given :=
  if g.words.length = l.words.length && l.below.isEmpty then .ok g else .error .usage

/-- Read on; at a level with others below it, up to the name of one of these. -/
def readOn (l : Level) : List String → Given → Except Stop (Given × List String)
  | [], g => (l.finish g).map fun g => (g, [])
  | a :: rest, g =>
    match l.classify a with
    | .stop why => .error why
    | .flag name => do l.readOn rest (← addFlag g name)
    | .option o (some value) => do l.readOn rest (← addOption g o value)
    | .option o none =>
      match rest with
      | value :: rest =>
        match value.toList with
        | '-' :: _ :: _ => .error .usage
        | _ => do l.readOn rest (← addOption g o value)
      | [] => .error .usage
    | .wordsOnly => do
      let g ← rest.foldlM l.addWord g
      return (← l.finish g, [])
    | .word =>
      if l.below.isEmpty then do l.readOn rest (← l.addWord g a)
      else if a ∈ l.below then .ok ({ g with words := [a] }, rest)
      else if a = "help" then .error (if rest ∈ l.topics then .help else .usage)
      else .error .usage

/-- What was given at this level, and the arguments left for the one below. -/
def read (l : Level) (arguments : List String) : Except Stop (Given × List String) :=
  l.readOn arguments Given.nothing

end Level

end FileSwarm.CommandLine
