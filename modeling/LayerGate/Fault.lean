import LayerGate.Budget
import LayerGate.Graph.Digraph
import LayerGate.Ignore.Rule
import LayerGate.Resolution.FileImports
import LayerGate.Value.Toml.Problem

/-!
# Faults of a run

Why a run ends without a report.
-/

namespace LayerGate

/-- Why a configuration cannot be used; paths are told as they were given. -/
inductive ConfigFault where
  | notFound (path : String)
  | malformed (path : String) (problem : String)
  | invalid (path : String) (complaints : List Schema.Complaint) (account : String)
  | timeoutNotPositive
  deriving DecidableEq, Repr

def ConfigFault.message : ConfigFault → String
  | .notFound path => "Config file not found: " ++ path
  | .malformed path problem => "Invalid TOML in " ++ path ++ ": " ++ problem
  | .invalid path _ account => "Invalid config in " ++ path ++ ": " ++ account
  | .timeoutNotPositive => "--timeout must be positive"

inductive RootFault where
  | missing
  | notFolder
  deriving DecidableEq, Repr

def RootFault.reason : RootFault → String
  | .missing => "does not exist"
  | .notFolder => "not a directory"

inductive Fault where
  | root (path : String) (problem : RootFault)
  | config (problem : ConfigFault)
  | spent (problem : Budget.Spent)
  | disk (problem : Disk.Fault)
  | ignoreFile (problem : Ignore.Fault)
  | undecodableConfig (problem : Text.Utf8.Fault)
  /-- An integer of so many digits in the configuration. -/
  | longInteger (digits : Nat)
  | nulInSource
  /-- Python source or a configuration that its reader has no room for. -/
  | exhausted (problem : Exhaustion)
  /-- A wait that the platform cannot time. -/
  | hugeWait
  | nulInPath
  | linkLoop (path : String)
  | noHome
  /-- The mark was given in the place of a file. -/
  | noFileName
  /-- A count that a structured report cannot hold. -/
  | hugeCount
  | graph (problem : Digraph.Fault)

namespace Fault

def message : Fault → String
  | .root path problem => (Diagnosis.invalidRoot path problem.reason).text
  | .config problem => problem.message
  | .spent problem => problem.diagnosis.text
  | .disk problem => problem.message
  | .ignoreFile problem => problem.message
  | .undecodableConfig problem => problem.message
  | .longInteger digits => Value.Toml.longIntegerMessage digits
  | .nulInSource => "source code string cannot contain null bytes"
  | .exhausted problem => problem.message
  | .hugeWait => "timestamp too large to convert to C _PyTime_t"
  | .nulInPath => "embedded null byte"
  | .linkLoop path => "Symlink loop from " ++ Text.quoted path
  | .noHome => "Could not determine home directory."
  | .noFileName => "unhashable type: 'list'"
  | .hugeCount => "Integer exceeds 64-bit range"
  | .graph .noSuchVertex => "list index out of range"
  | .graph (.noCycleThrough v) =>
    "node " ++ toString v ++ " in a strongly connected component has no cycle"

def ofFileImports : FileImports.Fault → Fault
  | .nulInSource => .nulInSource
  | .exhausted problem => .exhausted problem
  | .disk problem => .disk problem

end Fault

end LayerGate
