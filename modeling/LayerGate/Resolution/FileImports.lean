import LayerGate.Import.Indented.Source
import LayerGate.Import.Web.Clause
import LayerGate.Journal
import LayerGate.Machine
import LayerGate.Resolution.Dotted
import LayerGate.Resolution.Web
import LayerGate.Text.Lines
import LayerGate.Text.Utf8

/-!
# The imports of a file

A file is decoded, its imports are extracted, and each is resolved.  A file that cannot be decoded or
is no proper source stays in the project and has no imports; one that the parser has no room for ends
the run.
-/

namespace LayerGate

/-- What one file asks for. -/
structure FileImports where
  specifiers : List String
  resolutions : List Resolution
  deriving DecidableEq, Repr

namespace FileImports

inductive Fault where
  /-- Python source with a NUL. -/
  | nulInSource
  /-- Python source that the parser has no room for. -/
  | exhausted (problem : Exhaustion)
  | disk (fault : Disk.Fault)
  deriving DecidableEq, Repr

/-- The imports in the text of a file.  What a parser that runs out of room thought of the text so far
does not count. -/
def refsOf (m : Machine) (path : String) (text : List Char) : Journal Fault (List Import.Ref) :=
  if Path.suffix path = Project.pySuffix then
    match Import.Indented.imports (String.ofList text), m.parser (String.ofList text) with
    | .error .nul, _ => throw .nulInSource
    | _, some problem => throw (.exhausted problem)
    | .ok refs, none => pure refs
    | .error (.malformed f), none => do
      Journal.note .warning ("Skipping imports of " ++ path ++ ": syntax error at line " ++
        toString f.line)
      return []
  else pure (Import.Web.imports (String.ofList text))

/-- The imports in the content of a file. -/
def refs (m : Machine) (path : String) (content : ByteArray) : Journal Fault (List Import.Ref) :=
  match Text.Utf8.decode content with
  | .ok text => refsOf m path (Text.unifyNewlines text)
  | .error _ => do
    Journal.note .warning ("Skipping " ++ path ++ ": not valid UTF-8")
    return []

def resolveRef (p : Project) (path : String) (r : Import.Ref) :
    Except Disk.Fault (List Resolution) :=
  match r.language with
  | .python => Resolution.dotted p path r
  | .javascript => Resolution.web p path r

def resolveAll (p : Project) (path : String) : List Import.Ref → Except Disk.Fault (List Resolution)
  | [] => .ok []
  | r :: rest => do return (← resolveRef p path r) ++ (← resolveAll p path rest)

/-- What a file with these references asks for. -/
def ofRefs (p : Project) (path : String) (refs : List Import.Ref) : Except Fault FileImports :=
  match resolveAll p path refs with
  | .ok resolutions => .ok ⟨(refs.map Import.Ref.specifier).eraseDups, resolutions⟩
  | .error f => .error (.disk f)

def ofContent (m : Machine) (p : Project) (path : String) (content : ByteArray) :
    Journal Fault FileImports := do
  let refs ← refs m path content
  .ofExcept id (ofRefs p path refs)

end FileImports

end LayerGate
