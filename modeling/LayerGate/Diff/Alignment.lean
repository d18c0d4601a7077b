import LayerGate.Diff.Basic

/-!
# Aligning two texts

The longest block of lines that both texts hold is kept, and so on in what stands before it and in
what stands after it.  Lines that repeat too often anchor no block, though a block may grow over
them.
-/

namespace LayerGate.Diff

/-- A block of lines: where it starts in the old and in the new text, and how many lines it has. -/
structure Block where
  old : Nat
  new : Nat
  size : Nat
  deriving DecidableEq, Repr

/-- From so many lines on, a text may have lines that repeat too often. -/
def longText : Nat := 200

/-- The lines that make up more than one hundredth of a long text. -/
def frequentLines (new : List String) : List String :=
  if new.length < longText then []
  else (new.filter fun line => new.count line > new.length / 100 + 1).eraseDups

/-- For each line of the new text, how long the block is that ends there and at `line`; `before` are
these lengths for the line in front of it. -/
def blockLengths (line : String) (before : List Nat) (new : List String) : List Nat :=
  List.zipWith (fun size other => if other = line then size + 1 else 0) (0 :: before) new

/-- The longer block; of two equally long ones the first stays.  `old` and `new` are the lines at which
the other one ends. -/
def Block.orLonger (best : Block) (old new size : Nat) : Block :=
  if size > best.size then ⟨old + 1 - size, new + 1 - size, size⟩ else best

def longestFrom (frequent new : List String) (best : Block) (before : List Nat) (index : Nat) :
    List String → Block
  | [] => best
  | line :: rest =>
    let sizes :=
      if frequent.contains line then List.replicate new.length 0 else blockLengths line before new
    let best := (sizes.zipIdx).foldl (fun best (size, i) => best.orLonger index i size) best
    longestFrom frequent new best sizes (index + 1) rest

/-- How many lines two texts share at their beginning. -/
def sharedLength : List String → List String → Nat
  | a :: as, b :: bs => if a = b then sharedLength as bs + 1 else 0
  | _, _ => 0

/-- The block with all equal lines around it. -/
def Block.grown (b : Block) (old new : List String) : Block :=
  let back := sharedLength (old.take b.old).reverse (new.take b.new).reverse
  let forth := sharedLength (old.drop (b.old + b.size)) (new.drop (b.new + b.size))
  ⟨b.old - back, b.new - back, back + b.size + forth⟩

/-- The longest block of both texts: of equally long ones the first in the old text, and of those the
first in the new text. -/
def longest (frequent old new : List String) : Block :=
  (longestFrom frequent new ⟨0, 0, 0⟩ (List.replicate new.length 0) 0 old).grown old new

/-- The block is not empty and starts in the old text. -/
def Block.splits (b : Block) (old : List String) : Bool := 0 < b.size && b.old < old.length

theorem Block.splits_iff {b : Block} {old : List String} :
    b.splits old ↔ 0 < b.size ∧ b.old < old.length := by simp [splits]

/-- The difference of two texts, given the lines that anchor no block. -/
def align (frequent old new : List String) : List Run :=
  let block := longest frequent old new
  if _ : block.splits old then
    align frequent (old.take block.old) (new.take block.new) ++
      .same ((old.drop block.old).take block.size) ::
        align frequent (old.drop (block.old + block.size)) (new.drop (block.new + block.size))
  else changed old new
termination_by old.length
decreasing_by
  all_goals
    have starts : 0 < (longest frequent old new).size ∧
      (longest frequent old new).old < old.length := Block.splits_iff.1 ‹_›
    simp
    omega

/-- The difference of two texts, given by their lines. -/
def runs (old new : List String) : List Run := align (frequentLines new) old new

theorem oldLines_align (frequent old new : List String) :
    oldLines (align frequent old new) = old := by
  fun_induction align frequent old new with
  | case1 old new block h first second =>
    have split : old.take block.old ++ ((old.drop block.old).take block.size ++
        old.drop (block.old + block.size)) = old := by
      rw [← List.drop_drop, List.take_append_drop, List.take_append_drop]
    unfold oldLines at *
    rw [List.flatMap_append, List.flatMap_cons, first, second]
    exact split
  | case2 old new block h => exact oldLines_changed old new

end LayerGate.Diff
