import LayerGate.Schema.Account

/-!
# Machines

What a run takes from the machine that it runs on, apart from the disk and the time: the texts that its
readers have no room for, and the voice in which a broken schema is told.
-/

namespace LayerGate

/-- What a reader runs out of. -/
inductive Exhaustion where
  /-- Its calls are nested too deeply; machines put that in different words. -/
  | depth (message : String)
  | memory
  deriving DecidableEq, Repr

/-- Nothing is said of memory. -/
def Exhaustion.message : Exhaustion → String
  | .depth message => message
  | .memory => ""

structure Machine where
  /-- What the parser of Python source runs out of at a text, if it does; long chains of operators and
  deep brackets are such texts. -/
  parser : String → Option Exhaustion
  /-- What the reader of configurations runs out of at a text, if it does; lists and tables that are
  nested deeply are such texts. -/
  reader : List Char → Option Exhaustion
  voice : Schema.Voice

/-- A machine with room for every text. -/
def Machine.ample : Machine := ⟨fun _ => none, fun _ => none, .terse⟩

end LayerGate
