import LayerGate.Import.Indented.Statement
import LayerGate.Order

/-!
# Imports of Python sources

A source tells all its imports or, if it is malformed, none.  Every text has room here: how deeply a
source may be nested is a matter of the machine, `Machine.parser`.
-/

namespace LayerGate.Import.Indented

/-- The text as the lexer takes it: one sort of line end, and one at the end of the last line. -/
def completeLines (cs : List Char) : List Char :=
  let cs := Text.unifyNewlines cs
  if cs.getLast? = some '\n' then cs else cs ++ ['\n']

/-- Why a text has no imports to tell.  A text with a NUL character is no source at all. -/
inductive Refusal where
  | nul
  | malformed (fault : Fault)
  deriving DecidableEq, Repr

/-- Which fault of a malformed source is told: an urgent one of the lexer, else an open bracket
before the token at which the parse failed, else the failure itself. -/
def Failure.told (e : Failure) (stream : List Token) : Fault :=
  match stream.getLast? with
  | some ⟨.broken b, _, _⟩ =>
    if b.isUrgent then b.fault
    else match b.openLine with
      | some opened => if opened < e.seen then ⟨.malformed, opened⟩ else e.fault
      | none => e.fault
  | _ => e.fault

/-- References stand by line, specifier and names. -/
def Ref.order (a b : Ref) : Ordering :=
  (compare a.line b.line).then ((compare a.specifier b.specifier).then (compare a.names b.names))

def imports (text : String) : Except Refusal (List Ref) :=
  let cs := completeLines text.toList
  if cs.contains '\x00' then .error .nul
  else
    let stream := lineTokens .start cs
    match (source (16 * (cs.length + 1))).run stream with
    | .ok (refs, _) => .ok (refs.mergeSort fun a b => (Ref.order a b).isLE)
    | .error e => .error (.malformed (e.told stream))

end LayerGate.Import.Indented
