import LayerGate.Config.Schema
import LayerGate.Disk.Lookup
import LayerGate.Fault
import LayerGate.Value.Toml.Document

/-!
# Configuration files

A project's configuration is a TOML document.  Without one of its own, a project has the built-in
configuration; a document that was asked for by name has to be there.
-/

namespace LayerGate.Config

/-- The name under which complaints about a configuration are told. -/
def accountName : String := "CheckConfig"

/-- The configuration in the content of a file.  What a reader that runs out of room thought of the text
so far does not count. -/
def ofContent (m : Machine) (path : String) (content : ByteArray) : Except Fault Config := do
  let text ← (Text.Utf8.decode content).mapError .undecodableConfig
  match m.reader text, Value.Toml.read text with
  | some problem, _ => throw (.exhausted problem)
  | none, .error (.longInteger digits) => throw (.longInteger digits)
  | none, .error (.problem p left) =>
    throw (.config (.malformed path (Value.Toml.explain text (.problem p left))))
  | none, .ok document =>
    match schema document with
    | .valid c => return c
    | .invalid complaints =>
      throw (.config (.invalid path complaints (m.voice.account accountName document complaints)))

/-- The path of the file in which a project keeps its configuration. -/
def defaultPath (root : String) : String := Disk.absolute (Path.names root ++ [fileName])

/-- The configuration of the project at `root`, or the one that was asked for. -/
def load (m : Machine) (d : Disk) (root : String) (asked : Option String) : Except Fault Config := do
  let path := asked.getD (defaultPath root)
  match ← (d.find? [] path).mapError .disk with
  | some (.file content) => ofContent m path content
  | _ => if asked.isSome then throw (.config (.notFound path)) else return builtin

end LayerGate.Config
