import LayerGate.CommandLine.Refusal

/-!
# The words of a command line

Each word is a switch, an operand or the mark `--` after which all words are operands.  Long names
may be cut short as long as one switch fits; a value follows a switch as the next word or after an
equals sign; short names may be written together.
-/

namespace LayerGate.CommandLine

/-- What a word holds besides the name of a switch. -/
inductive Attached where
  | nothing
  /-- The text after an equals sign. -/
  | value (text : String)
  /-- The text right after a short name. -/
  | glued (text : List Char)
  deriving DecidableEq, Repr

inductive Token where
  | word (text : String)
  /-- The mark `--`. -/
  | mark
  | unknown (text : String)
  | switch (switch : Switch) (attached : Attached)
  deriving DecidableEq, Repr

def named? (switches : List Switch) (name : String) : Option Switch :=
  switches.find? fun s => s.names.contains name

/-- The text in front of the first equals sign, and the text after it. -/
def atEquals (text : String) : String × Option String :=
  match text.toList.span (· ≠ '=') with
  | (name, _ :: value) => (String.ofList name, some (String.ofList value))
  | (_, []) => (text, none)

/-- The switches whose names a word may stand for, with these names. -/
def candidates (switches : List Switch) (text : String) : List (String × Token) :=
  let (front, value?) := atEquals text
  let attached := match value? with
    | some value => Attached.value value
    | none => .nothing
  let short := String.ofList (text.toList.take 2)
  let fits (s : Switch) (name : String) : Option (String × Token) :=
    if text.startsWith "--" then
      if name.startsWith front then some (name, .switch s attached) else none
    else if name = short then some (name, .switch s (.glued (text.toList.drop 2)))
    else if name.startsWith text then some (name, .switch s .nothing)
    else none
  switches.flatMap fun s => s.names.filterMap (fits s)

/-- A minus sign and digits, with or without a point among them, and perhaps a line feed at the end. -/
def isNegativeNumber (text : String) : Bool :=
  match text.toList with
  | '-' :: cs =>
    let cs := if cs.getLast? = some '\n' then cs.dropLast else cs
    match cs.span Text.isDecimalDigit with
    | (whole, []) => !whole.isEmpty
    | (_, c :: fraction) => c = '.' && !fraction.isEmpty && fraction.all Text.isDecimalDigit
  | _ => false

/-- What a word is, unless it is the mark or stands after it. -/
def classify (switches : List Switch) (text : String) : Except Problem Token :=
  if !text.startsWith "-" then .ok (.word text)
  else match named? switches text with
    | some s => .ok (.switch s .nothing)
    | none =>
      if text = "-" then .ok (.word text)
      else match (atEquals text).2.bind fun value =>
          (named? switches (atEquals text).1).map fun s => Token.switch s (.value value) with
        | some token => .ok token
        | none =>
          match candidates switches text with
          | [(_, token)] => .ok token
          | [] =>
            if isNegativeNumber text ∨ text.contains ' ' then .ok (.word text)
            else .ok (.unknown text)
          | several => .error (.ambiguous text (several.map (·.1)))

/-- What the words are. -/
def tokens (switches : List Switch) : List String → Except Problem (List Token)
  | [] => .ok []
  | text :: rest =>
    if text = "--" then .ok (.mark :: rest.map .word)
    else do return (← classify switches text) :: (← tokens switches rest)

/-! ## Switches in one word -/

/-- A switch whose value is the next word. -/
structure Waiting where
  switch : Switch
  read : String → Except BadValue Setting

/-- What the switches in one word say: settings, a switch that waits for its value, and a rest that
names no switch. -/
structure Cluster where
  settings : List Setting
  waiting : Option Waiting
  rest : Option String

def readValue (s : Switch) (read : String → Except BadValue Setting) (value : String) :
    Except Problem Setting :=
  (read value).mapError (.badValue s)

/-- A switch and the text that is glued to it; the text may name further switches. -/
def Cluster.ofGlued (switches : List Switch) (s : Switch) (text : List Char) :
    Except Problem Cluster :=
  match s.reading, text with
  | .value read, [] => .ok ⟨[], some ⟨s, read⟩, none⟩
  | .value read, text => do return ⟨[← readValue s read (String.ofList text)], none, none⟩
  | .flag setting, [] => .ok ⟨[setting], none, none⟩
  | .flag setting, c :: more =>
    if c = '-' then .error (.attachedValue s (String.ofList text))
    else match named? switches (String.ofList ['-', c]) with
      | none => .ok ⟨[setting], none, some ("-" ++ String.ofList text)⟩
      | some next =>
        match more with
        | '=' :: value =>
          match next.reading with
          | .flag _ => .error (.attachedValue next (String.ofList value))
          | .value read => do
            return ⟨[setting, ← readValue next read (String.ofList value)], none, none⟩
        | more => do
          let cluster ← ofGlued switches next more
          return { cluster with settings := setting :: cluster.settings }

def Cluster.ofSwitch (switches : List Switch) (s : Switch) : Attached → Except Problem Cluster
  | .nothing => ofGlued switches s []
  | .glued text => ofGlued switches s text
  | .value text =>
    match s.reading with
    | .flag _ => .error (.attachedValue s text)
    | .value read => do return ⟨[← readValue s read text], none, none⟩

end LayerGate.CommandLine
