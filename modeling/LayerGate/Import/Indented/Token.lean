import LayerGate.Text.Compatibility
import LayerGate.Text.Identifier

/-!
# Tokens of Python sources

Indentation is part of the token stream.  The stream ends with `finish`, or with `broken` where the
text stops being tokens.
-/

namespace LayerGate.Import.Indented

inductive Trouble where
  | malformed
  | indentation
  | tabs
  deriving DecidableEq, Repr

/-- Why a source has no imports to tell: the sort of trouble and the line that shows it. -/
structure Fault where
  trouble : Trouble
  line : Nat
  deriving DecidableEq, Repr

/-- A string literal without its quotes. -/
structure Literal where
  isRaw : Bool
  isBytes : Bool
  isFormatted : Bool
  body : List Char
  deriving DecidableEq, Repr

/-- How a token stream breaks off.  An urgent fault is told in place of any other fault of the
source; `openLine` is the line of the innermost bracket that is open there. -/
structure Break where
  fault : Fault
  isUrgent : Bool
  openLine : Option Nat
  deriving DecidableEq, Repr

/-- An identifier in its compatibility form. -/
structure Name where
  text : String
  isPlain : text ≠ "" ∧ text.toList.all Text.isIdentifierPart = true
  deriving DecidableEq, Repr

inductive Kind where
  | name (name : Name)
  | keyword (word : String)
  | number (isImaginary : Bool)
  | string (literal : Literal)
  | op (symbol : String)
  | newline
  | indent
  | dedent
  | finish
  | broken (b : Break)
  deriving DecidableEq, Repr

/-- `depth` counts the brackets that are open after the token. -/
structure Token where
  kind : Kind
  line : Nat
  depth : Nat
  deriving DecidableEq, Repr

def keywords : List String :=
  ["False", "None", "True", "and", "as", "assert", "async", "await", "break", "class", "continue",
   "def", "del", "elif", "else", "except", "finally", "for", "from", "global", "if", "import", "in",
   "is", "lambda", "nonlocal", "not", "or", "pass", "raise", "return", "try", "while", "with",
   "yield"]

/-- The name that an identifier stands for.  The compatibility form of an identifier is one again. -/
def Name.ofWord? (word : List Char) : Option Name :=
  let text := String.ofList (Text.compatible word)
  if h : Text.isIdentifier word ∧ text ≠ "" ∧ text.toList.all Text.isIdentifierPart then
    some ⟨text, h.2⟩
  else none

/-- A word is a keyword as it is written, and a name in its compatibility form. -/
def Kind.ofWord? (word : List Char) : Option Kind :=
  let text := String.ofList word
  if keywords.contains text then some (.keyword text) else (Name.ofWord? word).map .name

end LayerGate.Import.Indented
