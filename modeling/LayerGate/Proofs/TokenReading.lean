import LayerGate.Import.Indented.Source

/-!
# Reading tokens one by one

What a parse makes of a stream whose first tokens are known: a step at a time, and then an expression
that is a single name and the dots in front of a module.
-/

namespace LayerGate.Import.Indented

open Parse

variable {α β : Type} {p q : Parse α} {f : α → Parse β} {a : α} {k : Kind} {t : Token}
  {ts mid : List Token} {n : Name} {fuel line depth : Nat}

/-! ## Steps -/

theorem run_bind (h : p ts = .ok (a, mid)) : (p >>= f) ts = f a mid := by
  show (p ts >>= fun x => f x.1 x.2) = _
  rw [h]
  rfl

theorem run_pure : (pure a : Parse α) ts = .ok (a, ts) := rfl

theorem run_get : (get : Parse (List Token)) ts = .ok (ts, ts) := rfl

theorem run_line : Parse.line (t :: ts) = .ok (t.line, t :: ts) := rfl

theorem run_peek : peek (t :: ts) = .ok (t.kind, t :: ts) := rfl

theorem run_accept (h : t.kind = k) : accept k (t :: ts) = .ok (true, ts) := by
  rw [accept, run_bind run_peek, if_pos h]
  rfl

theorem run_accept_not (h : t.kind ≠ k) : accept k (t :: ts) = .ok (false, t :: ts) := by
  rw [accept, run_bind run_peek, if_neg h]
  rfl

theorem run_accept_then (h : t.kind = k) :
    (accept k >>= fun found => if found = true then p else q) (t :: ts) = p ts := by
  rw [run_bind (run_accept h)]
  rfl

theorem run_accept_else (h : t.kind ≠ k) :
    (accept k >>= fun found => if found = true then p else q) (t :: ts) = q (t :: ts) := by
  rw [run_bind (run_accept_not h)]
  rfl

theorem run_expect (h : t.kind = k) : expect k (t :: ts) = .ok ((), ts) := by
  rw [expect, run_accept_then h]
  rfl

theorem run_name (h : t.kind = .name n) : Parse.name (t :: ts) = .ok (n, ts) := by
  rw [Parse.name, run_bind run_peek, h]
  rfl

/-! ## A name in front of a colon -/

/-- A token outside of brackets. -/
def onLine (line : Nat) (k : Kind) : Token := ⟨k, line, 0⟩

theorem atom_name : atom (fuel + 1) (onLine line (.name n) :: ts) = .ok (.place line, ts) := by
  rw [atom]
  rfl

theorem trailers_colon {start : Nat} {shape : Shape} :
    trailers (fuel + 1) start shape (onLine line (.op ":") :: ts) =
      .ok (shape, onLine line (.op ":") :: ts) := by
  rw [trailers]
  rfl

theorem operand_name : operand (fuel + 2) (onLine line (.name n) :: onLine line (.op ":") :: ts) =
    .ok (.place line, onLine line (.op ":") :: ts) := by
  rw [operand, run_bind run_line]
  show (atom (fuel + 1) >>= fun shape => trailers (fuel + 1) line shape) _ = _
  rw [run_bind atom_name, trailers_colon]

theorem arithmetic_name : arithmetic (fuel + 3) (onLine line (.name n) :: onLine line (.op ":") :: ts) =
    .ok (.place line, onLine line (.op ":") :: ts) := by
  rw [arithmetic, run_bind run_line, run_bind operand_name]
  rfl

theorem comparison_name : comparison (fuel + 4) (onLine line (.name n) :: onLine line (.op ":") :: ts) =
    .ok (.place line, onLine line (.op ":") :: ts) := by
  rw [comparison, run_bind run_line, run_bind arithmetic_name]
  rfl

theorem inversion_name : inversion (fuel + 5) (onLine line (.name n) :: onLine line (.op ":") :: ts) =
    .ok (.place line, onLine line (.op ":") :: ts) := by
  rw [inversion]
  exact comparison_name

theorem disjunction_name : disjunction (fuel + 6) (onLine line (.name n) :: onLine line (.op ":") :: ts) =
    .ok (.place line, onLine line (.op ":") :: ts) := by
  rw [disjunction, run_bind run_line, run_bind inversion_name]
  rfl

theorem missingComma_colon {before : List Token} {start : Nat} :
    missingComma (fuel + 1) before start (onLine line (.op ":") :: ts) =
      .ok ((), onLine line (.op ":") :: ts) := by
  rw [missingComma]
  rfl

theorem expression_name : expression (fuel + 7) (onLine line (.name n) :: onLine line (.op ":") :: ts) =
    .ok (.place line, onLine line (.op ":") :: ts) := by
  rw [expression, run_bind run_get, run_bind run_line, acceptWord, run_accept_else (by simp [onLine]),
    run_bind disjunction_name, acceptWord, run_accept_else (by simp [onLine])]
  exact run_bind missingComma_colon

/-- An expression that is a name goes through all the ranks of operators. -/
theorem named_name : named (fuel + 8) (onLine line (.name n) :: onLine line (.op ":") :: ts) =
    .ok (.place line, onLine line (.op ":") :: ts) := by
  rw [named, run_bind run_peek]
  show (expression (fuel + 7) >>= fun shape => (do
    if (← peek) = .op ":=" then unexpected
    return shape : Parse Shape)) _ = _
  rw [run_bind expression_name]
  rfl

end LayerGate.Import.Indented
