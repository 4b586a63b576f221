import FileSwarm.Logging.Directive

/-!
# Which log filter is used

The first that is set of two environment variables and the configured level. A filter is a list of
directives, with commas between them; what is empty between commas counts for nothing. A filter that
has not the shape of one is replaced by the level `info`.

* `directives` : the directives of a text;
* `arranged` : directives with the most specific ones first; of those that apply to the same, the
  last;
* `filterText` : how directives are shown, those that are judged without values before those that
  depend on spans. One that names only a field is both;
* `filter` : the filter in force, as it is shown.
-/

namespace FileSwarm.Logging

/-- What a filter falls back to. -/
def fallback : String := "info"

/-- The directives of a text. -/
def directives (text : String) : Except Misreading (List Directive) :=
  ((text.splitOn ",").filter (· ≠ "")).mapM Directive.ofText

/-- Put a directive where it belongs, in place of one that applies to the same. -/
def place (d : Directive) : List Directive → List Directive
  | [] => [d]
  | e :: rest =>
    match d.order e with
    | .lt => d :: e :: rest
    | .eq => d :: rest
    | .gt => e :: place d rest

/-- Directives in the order in which they are tried. -/
def arranged (ds : List Directive) : List Directive := ds.foldl (fun placed d => place d placed) []

/-- How directives are shown. -/
def filterText (ds : List Directive) : String :=
  let tried := arranged (ds.filter (·.isStatic)) ++ arranged (ds.filter (·.isDynamic))
  ",".intercalate (tried.map (·.text))

/-- The filter in force, as it is shown. -/
def filter (first second : Option String) (level : String) : Except Fault String :=
  match directives (first.getD (second.getD level)) with
  | .ok ds => .ok (filterText ds)
  | .error .shapeless => .ok fallback
  | .error (.splits fault) => .error fault

end FileSwarm.Logging
