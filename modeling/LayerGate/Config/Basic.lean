import LayerGate.Config.Gate
import LayerGate.Config.Layers

/-!
# Configuration

Everything that a project may say about how it is checked.
-/

namespace LayerGate

structure Config where
  /-- Patterns of the files to analyse; without any, all files are. -/
  included : List String
  excluded : List String
  /-- The suffixes of source files, in the order in which they are tried. -/
  extensions : List String
  /-- The directories from which absolute module names are counted. -/
  sourceRoots : List String
  /-- Beginnings of specifiers, each with the directory that it stands for. -/
  aliases : List (String × String)
  nestedIgnore : Bool
  /-- Seconds for one run. -/
  timeout : Option Float
  workers : Option Int
  layers : Layers
  gate : Gate

namespace Config

def builtin : Config where
  included := []
  excluded := []
  extensions := [".py", ".js", ".jsx", ".ts", ".tsx", ".mjs", ".cjs"]
  sourceRoots := ["src", "."]
  aliases := []
  nestedIgnore := false
  timeout := none
  workers := none
  layers := Layers.builtin
  gate := Gate.builtin

/-- The rule that an extension breaks. -/
def extensionRule (ext : String) : String := "Extension '" ++ ext ++ "' must start with '.'"

/-- The first extension without a leading dot. -/
def badExtension? (c : Config) : Option String := c.extensions.find? fun e => !e.startsWith "."

/-- The file in which a project keeps its configuration. -/
def fileName : String := "layercheck.toml"

end Config

end LayerGate
