/-!
# Journals

A computation that may fail and that keeps notes as it goes; the notes of a failed computation stay.
-/

namespace LayerGate

inductive Level where
  | debug
  | info
  | warning
  | error
  deriving DecidableEq, Repr

namespace Level

def word : Level → String
  | debug => "DEBUG"
  | info => "INFO"
  | warning => "WARNING"
  | error => "ERROR"

def rank : Level → Nat
  | debug => 0
  | info => 1
  | warning => 2
  | error => 3

end Level

structure Note where
  level : Level
  text : String
  deriving DecidableEq, Repr

structure Journal (ε α : Type) where
  notes : List Note
  result : Except ε α

namespace Journal

variable {ε α β : Type}

protected def pure (a : α) : Journal ε α := ⟨[], .ok a⟩

protected def bind (j : Journal ε α) (f : α → Journal ε β) : Journal ε β :=
  match j.result with
  | .ok a =>
    let next := f a
    ⟨j.notes ++ next.notes, next.result⟩
  | .error e => ⟨j.notes, .error e⟩

instance : Monad (Journal ε) where
  pure := Journal.pure
  bind := Journal.bind

instance : MonadExceptOf ε (Journal ε) where
  throw e := ⟨[], .error e⟩
  tryCatch j handle :=
    match j.result with
    | .ok _ => j
    | .error e =>
      let next := handle e
      ⟨j.notes ++ next.notes, next.result⟩

def note (level : Level) (text : String) : Journal ε Unit := ⟨[⟨level, text⟩], .ok ()⟩

def ofExcept {ε' : Type} (cause : ε' → ε) : Except ε' α → Journal ε α
  | .ok a => ⟨[], .ok a⟩
  | .error e => ⟨[], .error (cause e)⟩

def mapError {ε' : Type} (cause : ε' → ε) (j : Journal ε' α) : Journal ε α :=
  ⟨j.notes, j.result.mapError cause⟩

/-- The notes of all parts, and their results or the first failure among them. -/
def all (js : List (Journal ε α)) : Journal ε (List α) :=
  ⟨js.flatMap Journal.notes, js.mapM Journal.result⟩

@[simp] theorem bind_ok (notes : List Note) (a : α) (f : α → Journal ε β) :
    (⟨notes, .ok a⟩ : Journal ε α) >>= f = ⟨notes ++ (f a).notes, (f a).result⟩ := rfl

@[simp] theorem bind_error (notes : List Note) (e : ε) (f : α → Journal ε β) :
    (⟨notes, .error e⟩ : Journal ε α) >>= f = ⟨notes, .error e⟩ := rfl

end Journal

end LayerGate
