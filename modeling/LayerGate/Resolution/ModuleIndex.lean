import LayerGate.Order
import LayerGate.Path.ModuleName
import LayerGate.Text.Blank

/-!
# The module index

Which file an absolute module name means.  A file is named below the first source root that gives it
a name, and of two files with one name the first keeps it.
-/

namespace LayerGate

structure ModuleIndex where
  /-- Names and files, those that came first in front. -/
  entries : List (String × String)
  deriving DecidableEq, Repr

namespace ModuleIndex

/-- The name below the first root that gives one. -/
def nameBelow? (roots : List String) (file : String) : Option String :=
  roots.findSome? fun root => (Path.moduleName file root).toOption

/-- The name of a Python file. -/
def nameOf? (roots : List String) (file : String) : Option String :=
  if Path.extension file = ".py" then nameBelow? roots file else none

def ofFiles (files roots : List String) : ModuleIndex :=
  ⟨files.filterMap fun file => (nameOf? roots file).map (·, file)⟩

def file? (m : ModuleIndex) (name : String) : Option String := m.entries.lookup name

/-- Every name with its file, in the order of the names. -/
def toList (m : ModuleIndex) : List (String × String) :=
  (sortedDistinct (m.entries.map (·.1))).filterMap fun name => (m.file? name).map (name, ·)

/-- The beginnings of a list, without the empty one, shortest first. -/
def beginnings {α : Type} : List α → List (List α)
  | [] => []
  | a :: as => [a] :: (beginnings as).map (a :: ·)

/-- The name without dots at its ends. -/
def bareName (name : String) : String := String.ofList (Text.trim (· = '.') name.toList)

/-- The file of the longest beginning, cut before a dot, that is a module. -/
def longest? (m : ModuleIndex) (name : String) : Option String :=
  let bare := bareName name
  if bare = "" then none
  else (beginnings (Text.split '.' bare)).reverse.findSome? fun parts =>
    m.file? (".".intercalate parts)

end ModuleIndex

end LayerGate
