import LayerGate.Text.Split

/-!
# Path text

Paths are text here: names with slashes between them.  Nothing in this module looks at a disk.
-/

namespace LayerGate.Path

/-- The names of a path, without empty ones and without `.`. -/
def names (path : String) : List String :=
  (Text.split '/' path).filter fun name => name ≠ "" ∧ name ≠ "."

def ofNames (names : List String) : String := "/".intercalate names

/-- The path with slashes for backslashes, without empty names and without `.`. -/
def normalized (path : String) : String :=
  ofNames (names (path.map fun c => if c = '\\' then '/' else c))

/-- What follows the last slash. -/
def lastName (path : String) : String := ((Text.split '/' path).getLast?).getD ""

/-- The text from the last dot on; `none` without a dot. -/
def fromLastDot? (cs : List Char) : Option (List Char × List Char) :=
  match cs.reverse.span (· ≠ '.') with
  | (_, []) => none
  | (after, _ :: before) => some (before.reverse, '.' :: after.reverse)

/-- The suffix of the last name: from its last dot, unless the dot is its first or last character. -/
def suffix (path : String) : String :=
  let name := (names path).getLast?.getD ""
  match fromLastDot? name.toList with
  | some (_ :: _, dot :: c :: rest) => String.ofList (dot :: c :: rest)
  | _ => ""

/-- The extension of the last name: from its last dot, unless only dots stand before it. -/
def extension (path : String) : String :=
  match fromLastDot? (lastName path).toList with
  | some (before, ext) => if before.any (· ≠ '.') then String.ofList ext else ""
  | none => ""

/-- Everything before the last slash, without the slashes that end it. -/
def parent (path : String) : String :=
  match path.toList.reverse.dropWhile (· ≠ '/') with
  | [] => ""
  | upToSlash =>
    match upToSlash.dropWhile (· = '/') with
    | [] => String.ofList upToSlash
    | names => String.ofList names.reverse

/-- `path` seen from `base`: an absolute path stays as it is. -/
def join (base path : String) : String :=
  if path.startsWith "/" ∨ base = "" then path
  else if base.endsWith "/" then base ++ path
  else base ++ "/" ++ path

/-- Takes back the name before each `..`; at the start, `..` stays in a relative path and vanishes in
an absolute one.  `done` holds the names so far, last one first. -/
def climb (absolute : Bool) : List String → List String → List String
  | done, [] => done.reverse
  | done, ".." :: rest =>
    match done with
    | [] => climb absolute (if absolute then [] else [".."]) rest
    | ".." :: _ => climb absolute (".." :: done) rest
    | _ :: before => climb absolute before rest
  | done, name :: rest => climb absolute (name :: done) rest

/-- Names behind the slashes that `path` starts with, of which there may be two but no more; `.` for
nothing at all. -/
def behindSlashes (path : String) (names : List String) : String :=
  let slashes := (path.toList.takeWhile (· = '/')).length
  let root := if slashes = 0 then "" else if slashes = 2 then "//" else "/"
  let text := root ++ ofNames names
  if text = "" then "." else text

/-- The path without empty names and without `.`. -/
def plain (path : String) : String := behindSlashes path (names path)

/-- The shortest text of the path when no name on it is a link. -/
def shortest (path : String) : String :=
  behindSlashes path (climb (path.startsWith "/") [] (names path))

end LayerGate.Path
