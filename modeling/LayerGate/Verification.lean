import LayerGate.Diff.Hunk
import LayerGate.Text.Lines
import LayerGate.Text.Utf8

/-!
# Verifying a stored report

A stored report is good if a fresh run over the same project gives the very same bytes.
-/

namespace LayerGate

inductive Verification where
  | reproduced
  /-- The lines that tell how the stored report and the fresh one differ. -/
  | differs (lines : List String)
  deriving DecidableEq, Repr

namespace Verification

def displayedLines (text : List Char) : List String := (Text.displayLines text).map String.ofList

/-- Compares the report stored under `name` with a fresh one. -/
def ofStored (name : String) (stored : ByteArray) (fresh : String) : Verification :=
  if stored.data = fresh.toUTF8.data then .reproduced
  else .differs (Diff.unified name "regenerated" (displayedLines (Text.Utf8.repair stored))
    (displayedLines fresh.toList))

theorem ofStored_eq_reproduced {name : String} {stored : ByteArray} {fresh : String} :
    ofStored name stored fresh = .reproduced ↔ stored = fresh.toUTF8 := by
  rw [ByteArray.ext_iff]
  unfold ofStored
  split <;> simp_all

end Verification

end LayerGate
