/-!
# Lines

Files come with the line ends of any system.
-/

namespace LayerGate.Text

/-- Every line end becomes a line feed. -/
def unifyNewlines : List Char → List Char
  | [] => []
  | '\r' :: '\n' :: cs => '\n' :: unifyNewlines cs
  | '\r' :: cs => '\n' :: unifyNewlines cs
  | c :: cs => c :: unifyNewlines cs

theorem unifyNewlines_eq_self {cs : List Char} (h : ∀ c ∈ cs, c ≠ '\r') : unifyNewlines cs = cs := by
  induction cs with
  | nil => rfl
  | cons c cs ih =>
    obtain ⟨hc, hcs⟩ := List.forall_mem_cons.1 h
    rw [unifyNewlines, ih hcs]
    · exact fun _ heq => absurd heq hc
    · exact fun heq => absurd heq hc

/-- The pieces between line feeds; a line feed at the end starts no further piece. -/
def linesOf (cs : List Char) : List (List Char) :=
  let pieces := cs.splitOn '\n'
  if pieces.getLast? = some [] then pieces.dropLast else pieces

/-- The characters that end a line of displayed text. -/
def isLineBreak (c : Char) : Bool :=
  c = '\n' || c = '\r' || c = '\x0b' || c = '\x0c' || c = '\x1c' || c = '\x1d' || c = '\x1e' ||
    c = '\u0085' || c = '\u2028' || c = '\u2029'

/-- The lines of displayed text; `line` is the current one, backwards. -/
def displayLinesFrom (line : List Char) : List Char → List (List Char)
  | [] => if line.isEmpty then [] else [line.reverse]
  | '\r' :: '\n' :: cs => line.reverse :: displayLinesFrom [] cs
  | c :: cs =>
    if isLineBreak c then line.reverse :: displayLinesFrom [] cs
    else displayLinesFrom (c :: line) cs

def displayLines (cs : List Char) : List (List Char) := displayLinesFrom [] cs

end LayerGate.Text
