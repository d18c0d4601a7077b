import LayerGate.Config.Reason

/-!
# The gate

In which order findings are reported, and which of them fail the verdict.
-/

namespace LayerGate

structure Gate where
  /-- Every reason once, most severe first. -/
  severityOrder : List Reason
  blocking : List Reason
  deriving DecidableEq, Repr

namespace Gate

def builtin : Gate := ⟨Reason.all, [.brokenImport, .layerBoundary, .unclassifiedModule]⟩

/-- Every reason stands in the order exactly once. -/
def orderIsComplete (g : Gate) : Bool := Reason.all.all fun r => g.severityOrder.count r = 1

def orderRule : String := "severity_order must list every reason code exactly once"

def rank (g : Gate) (r : Reason) : Nat := g.severityOrder.idxOf r

def blocks (g : Gate) (r : Reason) : Bool := g.blocking.contains r

theorem orderIsComplete_iff {g : Gate} :
    g.orderIsComplete = true ↔ ∀ r, g.severityOrder.count r = 1 := by
  simp [orderIsComplete, Reason.mem_all]

end Gate

end LayerGate
