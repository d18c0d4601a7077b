import LayerGate.Config.Basic
import LayerGate.Schema.Record

/-!
# The schema of a configuration

A configuration is read from the value of a document: fields that are absent have their built-in
values, and unknown keys are complained about.
-/

namespace LayerGate

open Schema Reader

def Unclassified.words : Words Unclassified :=
  [Unclassified.deny, .allow, .ignore].map fun u => (u.word, u)

namespace Config

def layerSchema : Value → Checked Layer :=
  record "LayerDef" (Layer.mk <$> required ["name"] text <*> required ["globs"] (list text))

def ruleSchema : Value → Checked Rule :=
  record "LayerRule"
    (Rule.mk <$> required ["from", "from_layer"] text <*> optional ["to"] (list text) [])

/-- The built-in rules speak of the built-in layers only: with layers of its own, a document that
says nothing about rules has none. -/
def withoutBuiltinRules : Value → Value
  | .table fields =>
    if (Fields.get? fields "layer").isSome ∧ (Fields.get? fields "rules").isNone then
      .table (fields ++ [("rules", .list [])])
    else .table fields
  | v => v

def layersSchema (v : Value) : Checked Layers :=
  (record "LayersConfig"
    (Layers.mk <$> optional ["layer"] (list layerSchema) Layers.builtinLayers
      <*> optional ["rules"] (list ruleSchema) Layers.builtinRules
      <*> optional ["unclassified"] (oneOf Unclassified.words) .deny)
    (withoutBuiltinRules v)).obeying fun l => l.fault?.map fun f => .brokenRule f.message

def gateSchema (v : Value) : Checked Gate :=
  (record "ReportConfig"
    (Gate.mk <$> optional ["severity_order"] (list (code Reason.words)) Gate.builtin.severityOrder
      <*> optional ["blocking"] (set (code Reason.words)) Gate.builtin.blocking)
    v).obeying fun g => if g.orderIsComplete then none else some (.brokenRule Gate.orderRule)

/-- More than zero; what is not a number is not. -/
def timeoutSchema : Value → Checked (Option Float) :=
  nullable fun v => (real v).obeying fun x => if x > 0 then none else some (.numberNotAbove 0)

def workersSchema : Value → Checked (Option Int) :=
  nullable fun v => (integer v).obeying fun n => if n ≥ 1 then none else some (.integerBelow 1)

def schema (v : Value) : Checked Config :=
  (record "CheckConfig"
    (Config.mk <$> optional ["include"] (list text) builtin.included
      <*> optional ["exclude"] (list text) builtin.excluded
      <*> optional ["extensions"] (list text) builtin.extensions
      <*> optional ["source_roots"] (list text) builtin.sourceRoots
      <*> optional ["aliases"] (table text) builtin.aliases
      <*> optional ["nested_gitignore"] bool builtin.nestedIgnore
      <*> optional ["timeout"] timeoutSchema builtin.timeout
      <*> optional ["workers"] workersSchema builtin.workers
      <*> optional ["layers"] layersSchema builtin.layers
      <*> optional ["report"] gateSchema builtin.gate)
    v).obeying fun c => c.badExtension?.map fun e => .brokenRule (extensionRule e)

end Config

end LayerGate
