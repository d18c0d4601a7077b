/-!
# Comments in JavaScript and TypeScript

Comments give way to blanks, so that offsets and lines stay what they are.  A quote opens a literal
only if the literal is closed; within a literal nothing starts a comment.
-/

namespace LayerGate.Import.Web

/-- Templates run over line ends, strings do not. -/
def isQuote (c : Char) : Bool := c = '\x27' || c = '\x22' || c = '\x60'

inductive Mode where
  | code
  | literal (quote : Char)
  | lineComment
  | blockComment
  deriving DecidableEq, Repr

/-- Whether a literal whose opening quote stands right before `cs` is closed. -/
def isClosed (quote : Char) : List Char → Bool
  | [] => false
  | '\\' :: [] => false
  | '\\' :: _ :: cs => isClosed quote cs
  | c :: cs =>
    if c = quote then true
    else if c = '\n' ∧ quote ≠ '\x60' then false
    else isClosed quote cs

def blank (c : Char) : Char := if c = '\n' then '\n' else ' '

def blankFrom : Mode → List Char → List Char
  | _, [] => []
  | .code, '/' :: '*' :: cs => ' ' :: ' ' :: blankFrom .blockComment cs
  | .code, '/' :: '/' :: cs => ' ' :: ' ' :: blankFrom .lineComment cs
  | .code, c :: cs =>
    if isQuote c ∧ isClosed c cs then c :: blankFrom (.literal c) cs else c :: blankFrom .code cs
  | .literal quote, '\\' :: c :: cs => '\\' :: c :: blankFrom (.literal quote) cs
  | .literal quote, c :: cs =>
    c :: blankFrom (if c = quote then .code else .literal quote) cs
  | .lineComment, c :: cs =>
    blank c :: blankFrom (if c = '\n' then .code else .lineComment) cs
  | .blockComment, '*' :: '/' :: cs => ' ' :: ' ' :: blankFrom .code cs
  | .blockComment, c :: cs => blank c :: blankFrom .blockComment cs

/-- The text with each character of a comment blanked, line feeds apart. -/
def blankComments (cs : List Char) : List Char := blankFrom .code cs

end LayerGate.Import.Web
