/-!
# Path texts

A path is a text; its components stand between slashes. Empty components count for nothing, and so
does a single dot, unless it comes first.

* `components` : the components that count, a slash in front of those of an absolute path;
* `fileName?`, `parent?` : the last component, unless it is a dot, two dots or the root, and the
  text before it;
* `withFileName` : the path beside this one with another name;
* `join` : a path below this one;
* `steps` : the components that a walk along the path takes, dots among them.
-/

namespace FileSwarm.Path

/-- Whether the component at `index` counts. -/
def counts (index : Nat) (c : String) : Bool := c != "" && (c != "." || index == 0)

/-- Without the components at the end that do not count. -/
def trimEnd (parts : List String) : List String :=
  ((parts.zipIdx.reverse.dropWhile fun (c, i) => !counts i c).reverse).map (·.1)

def split (path : String) : List String := path.splitOn "/"

def isAbsolute (path : String) : Bool := path.startsWith "/"

/-- The components that count. -/
def components (path : String) : List String :=
  let names := ((split path).zipIdx.filter fun (c, i) => counts i c).map (·.1)
  if isAbsolute path then "/" :: names else names

/-- The text before the last component that counts; none for the root and the empty path. -/
def parent? (path : String) : Option String :=
  match trimEnd (split path) with
  | [] => none
  | parts =>
    match trimEnd parts.dropLast with
    | [] => some (if isAbsolute path then "/" else "")
    | before => some ("/".intercalate before)

/-- The name of what a path leads to. -/
def fileName? (path : String) : Option String :=
  match (trimEnd (split path)).getLast? with
  | some "." | some ".." | none => none
  | some name => some name

/-- The path of `name` in the directory `path`. -/
def join (path name : String) : String :=
  if isAbsolute name || path == "" then name
  else if path.endsWith "/" then path ++ name
  else path ++ "/" ++ name

/-- The path with its file name replaced; a path without one gets it as a further component. -/
def withFileName (path name : String) : String :=
  match fileName? path with
  | some _ => join ((parent? path).getD "") name
  | none => join path name

/-- Whether two texts have the same components. -/
def same (a b : String) : Bool := components a == components b

/-- The components that a walk takes: a single dot leads nowhere, but only a directory can be left by it. -/
def steps (path : String) : List String := (split path).filter (· != "")

/-- Whether the walk ends in a dot, two dots or the root, so that the path has no name of its own. -/
def isNameless (path : String) : Bool :=
  match (steps path).getLast? with
  | none | some "." | some ".." => true
  | some _ => false

/-- Whether a slash follows the last component, so that it can only be a directory. -/
def endsInSlash (path : String) : Bool := path.endsWith "/"

end FileSwarm.Path
