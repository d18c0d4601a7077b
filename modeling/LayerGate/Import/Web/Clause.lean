import LayerGate.Import.Ref
import LayerGate.Import.Web.Comment
import LayerGate.Text.Blank
import LayerGate.Text.Word

/-!
# Imports of JavaScript and TypeScript

`import … from`, `export … from`, `import`, `require(` and `import(`, each with a quoted specifier.
No part of an import in front of its specifier holds a quote, so the first quote after the keyword
decides where the specifier starts.
-/

namespace LayerGate.Import.Web

open Text (isBlank isWord)

/-- Characters of the part between a keyword and `from`. -/
def isClauseChar (c : Char) : Bool :=
  isWord c || isBlank c || c = '*' || c = '\x7b' || c = '\x7d' || c = ',' || c = '$'

def startsBlank (cs : List Char) : Bool := cs.head?.any isBlank

def endsBlank (cs : List Char) : Bool := cs.getLast?.any isBlank

def isAllBlank (cs : List Char) : Bool := !cs.isEmpty && cs.all isBlank

/-- `type` with blanks around it. -/
def isTypeGap (cs : List Char) : Bool :=
  startsBlank cs && endsBlank cs && Text.trim isBlank cs = "type".toList

/-- Blanks, a clause, blanks, `from`, blanks.  An empty clause still has blanks on both sides. -/
def isFromGap (cs : List Char) : Bool :=
  let backwards := cs.reverse.dropWhile isBlank
  endsBlank cs && "morf".toList.isPrefixOf backwards &&
    (let clause := (backwards.drop 4).reverse
     2 ≤ clause.length && startsBlank clause && endsBlank clause && clause.all isClauseChar)

/-- An opening parenthesis with blanks around it. -/
def isCallGap (cs : List Char) : Bool := Text.trim isBlank cs = ['(']

/-- What may stand between a keyword and the quote, for each keyword. -/
def keywords : List (List Char × (List Char → Bool)) :=
  [("import".toList, fun gap => isAllBlank gap || isTypeGap gap || isFromGap gap || isCallGap gap),
   ("export".toList, isFromGap),
   ("require".toList, isCallGap)]

def isStringQuote (c : Char) : Bool := c = '\x27' || c = '\x22'

/-- The specifier between two quotes at the front, and all that it takes with its quotes. -/
def specifier? : List Char → Option (List Char × Nat)
  | [] => none
  | q :: cs =>
    let body := cs.takeWhile fun c => !isStringQuote c && c ≠ '\n'
    if isStringQuote q ∧ ¬ body.isEmpty ∧ (cs[body.length]?.any isStringQuote) then
      some (body, body.length + 2)
    else none

/-- The import at the front: its specifier and how many characters it takes. -/
def clause? (cs : List Char) : Option (List Char × Nat) := do
  let (keyword, fits) ← keywords.find? fun k => k.1.isPrefixOf cs
  let rest := cs.drop keyword.length
  let gap := rest.takeWhile fun c => isClauseChar c || c = '('
  guard (fits gap)
  let (body, n) ← specifier? (rest.drop gap.length)
  return (body, keyword.length + gap.length + n)

def countLines (cs : List Char) : Int := (cs.count '\n' : Nat)

/-- The imports from a place on `line`; `inWord` says whether a word character stands right before
it, for a keyword starts a word. -/
def importsFrom (line : Int) (inWord : Bool) : List Char → List Ref
  | [] => []
  | c :: cs =>
    match if inWord then none else clause? (c :: cs) with
    | none => importsFrom (if c = '\n' then line + 1 else line) (isWord c) cs
    | some (body, n) =>
      let name := Text.trim isBlank body
      let later := importsFrom (line + countLines (c :: cs.take (n - 1))) false (cs.drop (n - 1))
      if name.isEmpty then later else ⟨line, String.ofList name, [], 0, .javascript⟩ :: later
termination_by cs => cs.length
decreasing_by all_goals (simp; try omega)

/-- The imports of a source text, in order.  A specifier of blanks alone is none. -/
def imports (source : String) : List Ref := importsFrom 1 false (blankComments source.toList)

end LayerGate.Import.Web
