import Mathlib.Data.List.Induction
import LayerGate.Diff.Alignment

/-!
# Blocks that two texts share

The table of block lengths holds, row by row, how many lines the texts share up to each pair of lines.
So the longest block that is read off it stands in both texts, the difference of two texts tells both of
them, and a text that is held against itself is one block.
-/

namespace LayerGate.Diff

variable {frequent old new as bs past rest before lines : List String} {line : String} {best b : Block}

/-! ## Lines shared at an end -/

/-- How many lines two texts share, read backwards from their ends and up to a frequent line. -/
def sharedRun (frequent : List String) : List String → List String → Nat
  | a :: as, b :: bs => if a = b ∧ a ∉ frequent then sharedRun frequent as bs + 1 else 0
  | _, _ => 0

theorem sharedRun_nil : sharedRun frequent as [] = 0 := by
  cases as <;> rfl

theorem sharedRun_spec (frequent as bs : List String) : ∃ run as' bs', as = run ++ as' ∧
    bs = run ++ bs' ∧ run.length = sharedRun frequent as bs := by
  induction as generalizing bs with
  | nil => exact ⟨[], [], bs, rfl, rfl, rfl⟩
  | cons a as ih =>
    cases bs with
    | nil => exact ⟨[], a :: as, [], rfl, rfl, rfl⟩
    | cons b bs =>
      rw [sharedRun]
      split
      · rename_i h
        obtain ⟨run, as', bs', has, hbs, hlength⟩ := ih bs
        exact ⟨a :: run, as', bs', by rw [has, List.cons_append], by rw [hbs, h.1, List.cons_append],
          by rw [List.length_cons, hlength]⟩
      · exact ⟨[], a :: as, b :: bs, rfl, rfl, rfl⟩

/-- A text shares most with itself. -/
theorem sharedRun_le_self (frequent as bs : List String) :
    sharedRun frequent as bs ≤ sharedRun frequent as as := by
  induction as generalizing bs with
  | nil => exact Nat.le_refl _
  | cons a as ih =>
    cases bs with
    | nil => exact Nat.zero_le _
    | cons b bs =>
      rw [sharedRun, sharedRun]
      split
      · rename_i h
        rw [if_pos ⟨rfl, h.2⟩]
        exact Nat.succ_le_succ (ih bs)
      · exact Nat.zero_le _

theorem sharedRun_comm : sharedRun frequent as bs = sharedRun frequent bs as := by
  induction as generalizing bs with
  | nil => exact sharedRun_nil.symm
  | cons a as ih =>
    cases bs with
    | nil => rfl
    | cons b bs =>
      rw [sharedRun, sharedRun, ih]
      by_cases h : a = b
      · rw [h]
      · rw [if_neg fun hab => h hab.1, if_neg fun hba => h hba.1.symm]

theorem sharedLength_eq : sharedLength as bs = sharedRun [] as bs := by
  induction as generalizing bs with
  | nil => rfl
  | cons a as ih =>
    cases bs with
    | nil => rfl
    | cons b bs => simp [sharedLength, sharedRun, ih]

theorem sharedLength_self : sharedLength lines lines = lines.length := by
  induction lines with
  | nil => rfl
  | cons line lines ih => rw [sharedLength, if_pos rfl, ih, List.length_cons]

/-! ## The table -/

/-- The row of the table below the lines `past`, the last of them first: what they share with the new
text up to each of its lines. -/
def runLengths (frequent past new : List String) : List Nat :=
  (List.range new.length).map fun j => sharedRun frequent past (new.take (j + 1)).reverse

theorem length_runLengths : (runLengths frequent past new).length = new.length := by
  rw [runLengths, List.length_map, List.length_range]

theorem getElem_runLengths {j : Nat} (h : j < (runLengths frequent past new).length) :
    (runLengths frequent past new)[j] = sharedRun frequent past (new.take (j + 1)).reverse := by
  simp only [runLengths, List.getElem_map, List.getElem_range]

theorem runLengths_nil (frequent new : List String) :
    runLengths frequent [] new = List.replicate new.length 0 := by
  rw [runLengths, List.eq_replicate_iff]
  refine ⟨by rw [List.length_map, List.length_range], fun n hn => ?_⟩
  obtain ⟨j, -, rfl⟩ := List.mem_map.1 hn
  rfl

/-- A row goes on from what stands one place before in the row above it. -/
theorem runLengths_cons : runLengths frequent (line :: past) new =
    if frequent.contains line then List.replicate new.length 0
    else blockLengths line (runLengths frequent past new) new := by
  have hlast : ∀ j (h : j < new.length), (new.take (j + 1)).reverse = new[j] :: (new.take j).reverse := by
    intro j h
    rw [List.take_succ_eq_append_getElem h, List.reverse_append]
    rfl
  split
  · rename_i hfrequent
    rw [List.contains_iff_mem] at hfrequent
    rw [runLengths, List.eq_replicate_iff]
    refine ⟨by rw [List.length_map, List.length_range], fun n hn => ?_⟩
    obtain ⟨j, hj, rfl⟩ := List.mem_map.1 hn
    rw [hlast j (List.mem_range.1 hj), sharedRun, if_neg fun h => h.2 hfrequent]
  · rename_i hfrequent
    rw [List.contains_iff_mem] at hfrequent
    refine List.ext_getElem ?_ fun j hj hj' => ?_
    · simp [length_runLengths, blockLengths]
    · have hj : j < new.length := length_runLengths ▸ hj
      have hrow : j < (0 :: runLengths frequent past new).length := by
        rw [List.length_cons, length_runLengths]
        exact Nat.lt_succ_of_lt hj
      have hbefore : (0 :: runLengths frequent past new)[j] =
          sharedRun frequent past (new.take j).reverse := by
        cases j with
        | zero => exact sharedRun_nil.symm
        | succ j => rw [List.getElem_cons_succ, getElem_runLengths]
      rw [getElem_runLengths, hlast j hj, sharedRun]
      simp only [blockLengths, List.getElem_zipWith, hbefore]
      by_cases hline : new[j] = line
      · rw [if_pos hline, if_pos ⟨hline.symm, hfrequent⟩]
      · rw [if_neg hline, if_neg fun h => hline h.1.symm]

/-! ## The longest entry -/

/-- The longest of the best block so far and of the blocks that end in one row. -/
def Block.orLongest (best : Block) (index : Nat) (sizes : List Nat) : Block :=
  sizes.zipIdx.foldl (fun best (size, i) => best.orLonger index i size) best

/-- Only the first of the longest entries takes the place of the best block. -/
theorem orLongest_spec (best : Block) (index : Nat) (sizes : List Nat) :
    best.size ≤ (best.orLongest index sizes).size ∧
    (∀ size ∈ sizes, size ≤ (best.orLongest index sizes).size) ∧
    (best.orLongest index sizes = best ∨ ∃ i size, sizes[i]? = some size ∧
      best.orLongest index sizes = ⟨index + 1 - size, i + 1 - size, size⟩ ∧ best.size < size ∧
        ∀ (j size' : Nat), j < i → sizes[j]? = some size' → size' < size) := by
  induction sizes using List.reverseRecOn with
  | nil => exact ⟨Nat.le_refl _, nofun, .inl rfl⟩
  | append_singleton sizes size ih =>
    have hstep : best.orLongest index (sizes ++ [size]) =
        (best.orLongest index sizes).orLonger index sizes.length size := by
      rw [Block.orLongest, List.zipIdx_append, List.foldl_append]
      simp [Block.orLongest]
    obtain ⟨hbest, hall, hcases⟩ := ih
    rw [hstep, Block.orLonger]
    split
    · rename_i hlonger
      refine ⟨Nat.le_of_lt (Nat.lt_of_le_of_lt hbest hlonger), fun n hn => ?_, .inr ?_⟩
      · rcases List.mem_append.1 hn with hn | hn
        · exact Nat.le_of_lt (Nat.lt_of_le_of_lt (hall n hn) hlonger)
        · exact Nat.le_of_eq (List.mem_singleton.1 hn)
      · refine ⟨sizes.length, size, List.getElem?_concat_length, rfl,
          Nat.lt_of_le_of_lt hbest hlonger, fun j n hj hn => ?_⟩
        rw [List.getElem?_append_left hj] at hn
        exact Nat.lt_of_le_of_lt (hall n (List.mem_of_getElem? hn)) hlonger
    · rename_i hnot
      refine ⟨hbest, fun n hn => ?_, hcases.imp_right ?_⟩
      · rcases List.mem_append.1 hn with hn | hn
        · exact hall n hn
        · rw [List.mem_singleton.1 hn]
          exact Nat.le_of_not_lt hnot
      · rintro ⟨i, n, hi, hblock, hlt, hfirst⟩
        obtain ⟨hi', -⟩ := List.getElem?_eq_some_iff.1 hi
        refine ⟨i, n, by rw [List.getElem?_append_left hi']; exact hi, hblock, hlt, fun j m hj hm => ?_⟩
        rw [List.getElem?_append_left (Nat.lt_trans hj hi')] at hm
        exact hfirst j m hj hm

theorem longestFrom_cons : longestFrom frequent new best (runLengths frequent past new) past.length
      (line :: rest) =
    longestFrom frequent new (best.orLongest past.length (runLengths frequent (line :: past) new))
      (runLengths frequent (line :: past) new) (line :: past).length rest := by
  rw [runLengths_cons]
  rfl

/-! ## Blocks in both texts -/

/-- The lines of the block stand in the old text and in the new one. -/
def Block.IsShared (b : Block) (old new : List String) : Prop :=
  ∃ front back front' back' lines, old = front ++ (lines ++ back) ∧ new = front' ++ (lines ++ back') ∧
    front.length = b.old ∧ front'.length = b.new ∧ lines.length = b.size

/-- The parts of a text are read off at their places. -/
theorem parts_of_eq {front lines back text : List String} (h : text = front ++ (lines ++ back)) :
    text.take front.length = front ∧ (text.drop front.length).take lines.length = lines ∧
      text.drop (front.length + lines.length) = back := by
  refine ⟨by rw [h, List.take_left], by rw [h, List.drop_left, List.take_left], ?_⟩
  rw [h, ← List.append_assoc, ← List.length_append, List.drop_left]

theorem isShared_empty (old new : List String) : Block.IsShared ⟨0, 0, 0⟩ old new :=
  ⟨[], old, [], new, [], rfl, rfl, rfl, rfl, rfl⟩

/-- An entry of the table is the length of a block that ends there. -/
theorem isShared_of_getElem?_runLengths {i size : Nat}
    (h : (runLengths frequent (line :: past) new)[i]? = some size) :
    Block.IsShared ⟨past.length + 1 - size, i + 1 - size, size⟩ (past.reverse ++ line :: rest) new := by
  obtain ⟨hi, rfl⟩ := List.getElem?_eq_some_iff.1 h
  have hnew : i < new.length := length_runLengths ▸ hi
  rw [getElem_runLengths]
  obtain ⟨run, front, front', hold, htake, hlength⟩ :=
    sharedRun_spec frequent (line :: past) (new.take (i + 1)).reverse
  have hpast : past.reverse ++ line :: rest = front.reverse ++ (run.reverse ++ rest) := by
    rw [← List.append_assoc, ← List.reverse_append, ← hold, List.reverse_cons, List.append_assoc]
    rfl
  have htaken : new.take (i + 1) = front'.reverse ++ run.reverse := by
    rw [← List.reverse_append, ← htake, List.reverse_reverse]
  refine ⟨front.reverse, rest, front'.reverse, new.drop (i + 1), run.reverse, hpast, ?_, ?_, ?_, ?_⟩
  · rw [← List.append_assoc, ← htaken, List.take_append_drop]
  · have := congrArg List.length hold
    simp only [List.length_cons, List.length_append] at this
    simp only [List.length_reverse]
    omega
  · have := congrArg List.length htake
    simp only [List.length_reverse, List.length_take, List.length_append] at this
    simp only [List.length_reverse]
    omega
  · rw [List.length_reverse, hlength]

theorem isShared_longestFrom (past rest : List String) (h : best.IsShared (past.reverse ++ rest) new) :
    (longestFrom frequent new best (runLengths frequent past new) past.length rest).IsShared
      (past.reverse ++ rest) new := by
  induction rest generalizing past best with
  | nil => exact h
  | cons line rest ih =>
    have hpast : past.reverse ++ line :: rest = (line :: past).reverse ++ rest := by
      rw [List.reverse_cons, List.append_assoc]
      rfl
    have hnext : (best.orLongest past.length (runLengths frequent (line :: past) new)).IsShared
        (past.reverse ++ line :: rest) new := by
      obtain ⟨-, -, hsame | ⟨i, size, hentry, hblock, -⟩⟩ :=
        orLongest_spec best past.length (runLengths frequent (line :: past) new)
      · rwa [hsame]
      · rw [hblock]
        exact isShared_of_getElem?_runLengths hentry
    rw [longestFrom_cons, hpast]
    exact ih (line :: past) (hpast ▸ hnext)

theorem isShared_grown (h : b.IsShared old new) : (b.grown old new).IsShared old new := by
  obtain ⟨front, back, front', back', lines, hold, hnew, hfront, hfront', hlines⟩ := h
  obtain ⟨run, as, as', has, has', hrun⟩ := sharedRun_spec [] front.reverse front'.reverse
  obtain ⟨run', bs, bs', hbs, hbs', hrun'⟩ := sharedRun_spec [] back back'
  obtain ⟨holdTake, -, holdDrop⟩ := parts_of_eq hold
  obtain ⟨hnewTake, -, hnewDrop⟩ := parts_of_eq hnew
  rw [hfront] at holdTake
  rw [hfront'] at hnewTake
  rw [hfront, hlines] at holdDrop
  rw [hfront', hlines] at hnewDrop
  have hsplit : front = as.reverse ++ run.reverse := by
    rw [← List.reverse_append, ← has, List.reverse_reverse]
  have hsplit' : front' = as'.reverse ++ run.reverse := by
    rw [← List.reverse_append, ← has', List.reverse_reverse]
  simp only [Block.grown, holdTake, hnewTake, holdDrop, hnewDrop, sharedLength_eq, ← hrun, ← hrun']
  refine ⟨as.reverse, bs, as'.reverse, bs', run.reverse ++ (lines ++ run'), ?_, ?_, ?_, ?_, ?_⟩
  · rw [hold, hsplit, hbs]
    simp only [List.append_assoc]
  · rw [hnew, hsplit', hbs']
    simp only [List.append_assoc]
  · rw [← hfront, hsplit]
    simp only [List.length_append, List.length_reverse, Nat.add_sub_cancel]
  · rw [← hfront', hsplit']
    simp only [List.length_append, List.length_reverse, Nat.add_sub_cancel]
  · rw [← hlines]
    simp only [List.length_append, List.length_reverse]
    omega

theorem isShared_longest (frequent old new : List String) :
    (longest frequent old new).IsShared old new := by
  refine isShared_grown ?_
  rw [← runLengths_nil frequent]
  exact isShared_longestFrom [] old (isShared_empty old new)

/-- The new text can be read off the difference, as the old one can. -/
theorem newLines_align (frequent old new : List String) : newLines (align frequent old new) = new := by
  fun_induction align frequent old new with
  | case1 old new block h first second =>
    obtain ⟨front, back, front', back', lines, hold, hnew, hfront, hfront', hlines⟩ :=
      isShared_longest frequent old new
    obtain ⟨-, hblock, -⟩ := parts_of_eq hold
    obtain ⟨htake, -, hdrop⟩ := parts_of_eq hnew
    rw [hfront, hlines] at hblock
    rw [hfront'] at htake
    rw [hfront', hlines] at hdrop
    unfold newLines at *
    rw [List.flatMap_append, List.flatMap_cons, first, second, Run.new, hblock, htake, hdrop]
    exact hnew.symm
  | case2 old new block h => exact newLines_changed old new

/-! ## A text against itself -/

/-- Held against its own text, the best block so far lies on the diagonal of the table and is as long as
what is shared up to any of the first `count` lines and themselves. -/
structure Block.OnDiagonal (frequent lines : List String) (count : Nat) (best : Block) : Prop where
  old_eq_new : best.old = best.new
  longest : ∀ j < count, sharedRun frequent (lines.take (j + 1)).reverse (lines.take (j + 1)).reverse ≤
    best.size

/-- In each row the entry on the diagonal is the longest, and so is the one above a later entry. -/
theorem Block.OnDiagonal.orLongest (h : best.OnDiagonal frequent lines past.length)
    (hlines : lines = past.reverse ++ line :: rest) :
    (best.orLongest past.length (runLengths frequent (line :: past) lines)).OnDiagonal frequent lines
      (past.length + 1) := by
  have htake : (lines.take (past.length + 1)).reverse = line :: past := by
    rw [hlines, List.append_cons, List.take_left' (by simp), List.reverse_append, List.reverse_reverse]
    rfl
  have hdiagonal : (runLengths frequent (line :: past) lines)[past.length]? =
      some (sharedRun frequent (line :: past) (line :: past)) := by
    have hlt : past.length < (runLengths frequent (line :: past) lines).length := by
      simp [length_runLengths, hlines]
    rw [List.getElem?_eq_getElem hlt, getElem_runLengths, htake]
  obtain ⟨hbest, hall, hcases⟩ :=
    orLongest_spec best past.length (runLengths frequent (line :: past) lines)
  constructor
  case longest =>
    intro j hj
    rcases Nat.lt_succ_iff_lt_or_eq.1 hj with hj | rfl
    · exact Nat.le_trans (h.longest j hj) hbest
    · rw [htake]
      exact hall _ (List.mem_of_getElem? hdiagonal)
  case old_eq_new =>
    rcases hcases with hsame | ⟨i, size, hentry, hblock, hlonger, hfirst⟩
    · rw [hsame, h.old_eq_new]
    · obtain ⟨hi, hsize⟩ := List.getElem?_eq_some_iff.1 hentry
      rw [getElem_runLengths] at hsize
      rcases Nat.lt_trichotomy i past.length with hlt | rfl | hgt
      · -- the block ends on the diagonal in an earlier row too, and no shorter there
        have hearlier := h.longest i hlt
        have hself := sharedRun_le_self frequent (lines.take (i + 1)).reverse (line :: past)
        rw [sharedRun_comm, hsize] at hself
        omega
      · rw [hblock]
      · have hself := sharedRun_le_self frequent (line :: past) (lines.take (i + 1)).reverse
        have hearlier := hfirst past.length _ hgt hdiagonal
        omega

theorem old_eq_new_longestFrom (past rest : List String) (h : best.OnDiagonal frequent lines past.length)
    (hlines : lines = past.reverse ++ rest) :
    (longestFrom frequent lines best (runLengths frequent past lines) past.length rest).old =
      (longestFrom frequent lines best (runLengths frequent past lines) past.length rest).new := by
  induction rest generalizing past best with
  | nil => exact h.old_eq_new
  | cons line rest ih =>
    rw [longestFrom_cons]
    refine ih (line :: past) (h.orLongest hlines) ?_
    rw [hlines, List.reverse_cons, List.append_assoc]
    rfl

theorem longest_self (frequent lines : List String) :
    longest frequent lines lines = ⟨0, 0, lines.length⟩ := by
  have hshared : (longestFrom frequent lines ⟨0, 0, 0⟩ (runLengths frequent [] lines) 0 lines).IsShared
      lines lines := isShared_longestFrom [] lines (isShared_empty lines lines)
  have hstart : Block.OnDiagonal frequent lines 0 ⟨0, 0, 0⟩ := ⟨rfl, nofun⟩
  have hdiagonal := old_eq_new_longestFrom [] lines hstart rfl
  rw [longest, ← runLengths_nil frequent]
  generalize longestFrom frequent lines ⟨0, 0, 0⟩ (runLengths frequent [] lines) 0 lines = best at *
  obtain ⟨front, back, -, -, shared, hlines, -, hfront, -, hsize⟩ := hshared
  have hlength : lines.length = best.old + (best.size + back.length) := by
    rw [hlines, List.length_append, List.length_append, hfront, hsize]
  simp only [Block.grown, ← hdiagonal, sharedLength_self, List.length_reverse, List.length_take,
    List.length_drop, Block.mk.injEq]
  omega

theorem align_self (frequent lines : List String) :
    align frequent lines lines = if lines = [] then [] else [.same lines] := by
  have hnil : align frequent [] [] = [] := by
    rw [align, dif_neg fun h => by simp [longest_self, Block.splits] at h]
    rfl
  split
  · rename_i h
    rw [h, hnil]
  · rename_i h
    rw [align]
    simp only [longest_self]
    rw [dif_pos (Block.splits_iff.2 ⟨List.length_pos_iff.2 h, List.length_pos_iff.2 h⟩)]
    simp [hnil]

/-- A difference without a change is that of a text and itself. -/
theorem any_isChange_runs {old new : List String} : (runs old new).any Run.isChange ↔ old ≠ new := by
  refine ⟨?_, fun hne => ?_⟩
  · rintro hchange rfl
    rw [runs, align_self] at hchange
    split at hchange <;> simp [Run.isChange] at hchange
  · refine Bool.of_not_eq_false fun hnone => hne ?_
    have hsame : ∀ r ∈ runs old new, r.old = r.new := by
      intro r hr
      cases r with
      | same lines => rfl
      | change old new => exact absurd rfl (List.any_eq_false.1 hnone _ hr)
    calc old = oldLines (runs old new) := (oldLines_align _ _ _).symm
      _ = newLines (runs old new) := by
        rw [oldLines, newLines, List.flatMap_def, List.flatMap_def, List.map_congr_left hsame]
      _ = new := newLines_align _ _ _

end LayerGate.Diff
