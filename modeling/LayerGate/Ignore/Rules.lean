import LayerGate.Ignore.Rule
import LayerGate.Text.Lines

/-!
# Ignore files

The rules of one file.  Without a negated rule any rule ignores; with one, the last rule that speaks
of a path decides.
-/

namespace LayerGate.Ignore

structure Rules where
  rules : List Rule

namespace Rules

def ofLines (lines : List String) : Except Fault Rules := do
  return ⟨(← lines.mapM Rule.ofLine?).filterMap id⟩

def textLines (cs : List Char) : List String :=
  (Text.linesOf (Text.unifyNewlines cs)).map String.ofList

/-- The rules of a file.  A character that the file breaks off in is noticed only when the lines
before it have been read, and then counted from its own first byte. -/
def ofBytes (bytes : ByteArray) : Except Fault Rules :=
  match Text.Utf8.decode bytes with
  | .ok cs => ofLines (textLines cs)
  | .error f =>
    if f.reason = .unfinished then do
      let front := Text.Utf8.repair (bytes.extract 0 f.position)
      let _ ← ofLines (textLines (front.reverse.dropWhile (· ≠ '\n')).reverse)
      throw (.undecodable { f with position := 0 })
    else .error (.undecodable f)

/-- The first rule that speaks of the path. -/
def firstSpeaking (path : String) : List Rule → Except Fault (Option Rule)
  | [] => .ok none
  | r :: rest => do if ← r.speaksOf path then return some r else firstSpeaking path rest

/-- Whether the path, seen from the directory of the file, is ignored. -/
def ignores (rs : Rules) (path : String) : Except Fault Bool := do
  if rs.rules.any Rule.negated then
    return ((← firstSpeaking path rs.rules.reverse).map (!·.negated)).getD false
  else
    return (← firstSpeaking path rs.rules).isSome

end Rules

end LayerGate.Ignore
