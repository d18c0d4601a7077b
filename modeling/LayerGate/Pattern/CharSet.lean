/-!
# Sets of characters

Ranges of code points, or everything outside of them.
-/

namespace LayerGate.Pattern

structure CharSet where
  negated : Bool
  ranges : List (Char × Char)
  deriving DecidableEq, Repr

namespace CharSet

/-- No character at all. -/
def never : CharSet := ⟨false, []⟩

def all : CharSet := ⟨true, []⟩

def single (c : Char) : CharSet := ⟨false, [(c, c)]⟩

/-- Every character but one. -/
def except (c : Char) : CharSet := ⟨true, [(c, c)]⟩

def contains (s : CharSet) (c : Char) : Bool :=
  (s.ranges.any fun r => r.1 ≤ c && c ≤ r.2) != s.negated

@[simp] theorem contains_all (c : Char) : all.contains c = true := rfl

@[simp] theorem contains_never (c : Char) : never.contains c = false := rfl

@[simp] theorem contains_single (a c : Char) : (single a).contains c = (a = c) := by
  simp only [contains, single, List.any_cons, List.any_nil, Bool.or_false, Bool.bne_false,
    Bool.and_eq_true, decide_eq_true_eq, eq_iff_iff]
  exact ⟨fun h => Char.le_antisymm h.1 h.2, fun h => h ▸ ⟨Char.le_refl _, Char.le_refl _⟩⟩

end CharSet

/-- What stands between the brackets of a set, and the rest behind the closing one; a bracket that
would close the set at once, or right after `!`, is an element.  `none` if no bracket closes it. -/
def bracket? (cs : List Char) : Option (List Char × List Char) :=
  let (front, rest) := match cs with
    | '!' :: ']' :: rest => (['!', ']'], rest)
    | '!' :: rest => (['!'], rest)
    | ']' :: rest => ([']'], rest)
    | rest => ([], rest)
  match rest.span (· ≠ ']') with
  | (_, []) => none
  | (inner, _ :: after) => some (front ++ inner, after)

end LayerGate.Pattern
