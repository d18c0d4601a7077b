import LayerGate.Diff.Alignment

/-!
# Hunks

A difference is shown in hunks: the changes with up to three shared lines around them.  Changes with
no more than six shared lines between them are shown together.
-/

namespace LayerGate.Diff

/-- How many shared lines are shown on each side of a change. -/
def context : Nat := 3

/-- A part of a difference and the lines that stand before it on each side. -/
structure Hunk where
  oldStart : Nat
  newStart : Nat
  runs : List Run
  deriving DecidableEq, Repr

namespace Hunk

def push (h : Hunk) (r : Run) : Hunk := { h with runs := h.runs ++ [r] }

def oldLength (h : Hunk) : Nat := (oldLines h.runs).length

def newLength (h : Hunk) : Nat := (newLines h.runs).length

/-- The hunk that starts with the last lines of a shared run. -/
def startingIn (oldStart newStart : Nat) (lines : List String) : Hunk :=
  let skipped := lines.length - context
  ⟨oldStart + skipped, newStart + skipped, [.same (lines.drop skipped)]⟩

/-- The hunk that follows `h` after a long shared run. -/
def next (h : Hunk) (lines : List String) : Hunk :=
  startingIn (h.oldStart + h.oldLength) (h.newStart + h.newLength) lines

end Hunk

/-- Adds runs to the open hunk and closes it in each long shared run. -/
def gather (hunk : Hunk) : List Run → List Hunk
  | [] => [hunk]
  | [.same lines] => [hunk.push (.same (lines.take context))]
  | .same lines :: rest =>
    if lines.length > 2 * context then
      hunk.push (.same (lines.take context)) :: gather (hunk.next lines) rest
    else gather (hunk.push (.same lines)) rest
  | .change old new :: rest => gather (hunk.push (.change old new)) rest

/-- The hunks of a difference; a hunk without a change is none. -/
def hunks (runs : List Run) : List Hunk :=
  let all := match runs with
    | .same lines :: rest => gather (.startingIn 0 0 lines) rest
    | runs => gather ⟨0, 0, []⟩ runs
  all.filter fun hunk => hunk.runs.any Run.isChange

/-! ## As text -/

/-- The lines of a hunk on one side: the first one and how many, if it is not just one.  Without any,
the line before them is given. -/
def span (start length : Nat) : String :=
  if length = 1 then toString (start + 1)
  else toString (if length = 0 then start else start + 1) ++ "," ++ toString length

def Run.text : Run → List String
  | .same lines => lines.map (" " ++ ·)
  | .change old new => old.map ("-" ++ ·) ++ new.map ("+" ++ ·)

def Hunk.text (h : Hunk) : List String :=
  ("@@ -" ++ span h.oldStart h.oldLength ++ " +" ++ span h.newStart h.newLength ++ " @@") ::
    h.runs.flatMap Run.text

/-- The difference of two texts line by line, under the names of both; nothing if no line differs. -/
def unified (oldName newName : String) (old new : List String) : List String :=
  match hunks (runs old new) with
  | [] => []
  | found => ("--- " ++ oldName) :: ("+++ " ++ newName) :: found.flatMap Hunk.text

end LayerGate.Diff
