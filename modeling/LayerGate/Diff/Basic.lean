/-!
# Differences

A difference of two texts is a list of runs of lines: runs that both texts share, and runs that stand
for each other.  Both texts can be read off from it.
-/

namespace LayerGate.Diff

inductive Run where
  | same (lines : List String)
  | change (old new : List String)
  deriving DecidableEq, Repr

namespace Run

def old : Run → List String
  | same lines => lines
  | change old _ => old

def new : Run → List String
  | same lines => lines
  | change _ new => new

def isChange : Run → Bool
  | same _ => false
  | change _ _ => true

end Run

def oldLines (runs : List Run) : List String := runs.flatMap Run.old

def newLines (runs : List Run) : List String := runs.flatMap Run.new

/-- The lines without a counterpart; nothing at all is no change. -/
def changed (old new : List String) : List Run :=
  if old = [] ∧ new = [] then [] else [.change old new]

theorem oldLines_changed (old new : List String) : oldLines (changed old new) = old := by
  unfold changed
  split <;> simp_all [oldLines, Run.old]

theorem newLines_changed (old new : List String) : newLines (changed old new) = new := by
  unfold changed
  split <;> simp_all [newLines, Run.new]

end LayerGate.Diff
