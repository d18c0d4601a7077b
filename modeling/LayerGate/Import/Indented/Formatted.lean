/-!
# Replacement fields

A formatted literal holds expressions in braces.  Here such a field is cut out of the text, before
the expression in it is read.
-/

namespace LayerGate.Import.Indented.Formatted

/-- The text without the names of characters: the braces of `\N{…}` hold no expression.  A character
behind a backslash begins no escape of its own. -/
def withoutNames : List Char → List Char
  | '\\' :: 'N' :: '{' :: cs => '\\' :: 'N' :: withoutNames ((cs.dropWhile (· ≠ '}')).drop 1)
  | '\\' :: c :: cs => '\\' :: c :: withoutNames cs
  | c :: cs => c :: withoutNames cs
  | [] => []
termination_by cs => cs.length
decreasing_by
  · have hname := (List.dropWhile_suffix (l := cs) (· ≠ '}')).length_le
    simp only [List.length_drop, List.length_cons]
    omega
  all_goals simp only [List.length_cons]; omega

def isQuote (c : Char) : Bool := c = '\x27' || c = '\x22'

def isOpener (c : Char) : Bool := c = '(' || c = '[' || c = '{'

def closer (c : Char) : Char := if c = '(' then ')' else if c = '[' then ']' else '}'

def isCloser (c : Char) : Bool := c = ')' || c = ']' || c = '}'

/-- Characters that end the expression of a field unless an equals sign follows or a bracket is
open. -/
def isEnd (c : Char) : Bool := c = '!' || c = ':' || c = '=' || c = '}'

/-- The expression of a field and the rest, which starts with the character that ends it.  `open_`
are the open brackets and `quote` is the closing quote of an open literal.  Within a field there are
no backslashes and no comments. -/
def expression? (done : List Char) (open_ : List Char) (quote : List Char) :
    List Char → Option (List Char × List Char)
  | [] => none
  | c :: cs =>
    if c = '\\' then none
    else if ¬ quote.isEmpty then
      if quote.isPrefixOf (c :: cs) then
        expression? (quote ++ done) open_ [] (cs.drop (quote.length - 1))
      else expression? (c :: done) open_ quote cs
    else if isQuote c then
      let opening := if cs.take 2 = [c, c] then [c, c, c] else [c]
      expression? (opening ++ done) open_ opening (cs.drop (opening.length - 1))
    else if c = '#' then none
    else if isOpener c then expression? (c :: done) (c :: open_) [] cs
    else if open_.isEmpty then
      if cs.head? = some '=' ∧ (c = '!' ∨ c = '=' ∨ c = '<' ∨ c = '>') then
        expression? ('=' :: c :: done) [] [] (cs.drop 1)
      else if isEnd c then some (done.reverse, c :: cs)
      else if isCloser c then none
      else expression? (c :: done) [] [] cs
    else if isCloser c then
      match open_ with
      | o :: outer => if closer o = c then expression? (c :: done) outer [] cs else none
      | [] => none
    else expression? (c :: done) open_ [] cs
termination_by cs => cs.length
decreasing_by all_goals (simp only [List.length_cons, List.length_drop]; omega)

/-- Without the mark that shows the expression too, and without a conversion. -/
def conversion? (cs : List Char) : Option (List Char) :=
  let cs := match cs with
    | '=' :: cs => cs.dropWhile fun c => c = ' ' || c = '\t' || c = '\n' || c = '\x0c'
    | cs => cs
  match cs with
  | '!' :: c :: cs => if c = 's' ∨ c = 'r' ∨ c = 'a' then some cs else none
  | '!' :: [] => none
  | cs => some cs

end LayerGate.Import.Indented.Formatted
