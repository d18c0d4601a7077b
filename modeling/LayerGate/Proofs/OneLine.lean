import LayerGate.Fault
import LayerGate.Value.Toml.Document
import Mathlib.Data.List.Basic
import Mathlib.Tactic.SplitIfs

/-!
# Messages of one line

Whatever a malformed document holds, the message about it is one line: names and texts are told in
quotes, and there a line break is escaped.  The account of a schema's complaints is never one line.
-/

namespace LayerGate

namespace Text

/-- No line break stands in the text. -/
def OneLine (s : String) : Prop := '\n' ∉ s.toList

instance (s : String) : Decidable (OneLine s) := inferInstanceAs (Decidable (_ ∉ _))

variable {s t : String}

theorem oneLine_append : OneLine (s ++ t) ↔ OneLine s ∧ OneLine t := by
  unfold OneLine
  rw [String.toList_append, List.mem_append, not_or]

theorem OneLine.append (hs : OneLine s) (ht : OneLine t) : OneLine (s ++ t) :=
  oneLine_append.2 ⟨hs, ht⟩

theorem oneLine_ofList {cs : List Char} : OneLine (String.ofList cs) ↔ '\n' ∉ cs := by
  rw [OneLine, String.toList_ofList]

theorem oneLine_toString (n : Nat) : OneLine (toString n) := by
  refine oneLine_ofList.2 fun h => ?_
  exact absurd (Nat.isDigit_of_mem_toDigits (by decide) (by decide) h) (by decide)

theorem mem_toDigitsCore {b fuel n : Nat} (hb : 0 < b) {ds : List Char} {c : Char}
    (h : c ∈ Nat.toDigitsCore b fuel n ds) : c ∈ ds ∨ ∃ m < b, c = Nat.digitChar m := by
  induction fuel generalizing n ds with
  | zero => exact .inl h
  | succ fuel ih =>
    have hcons {ds : List Char} (h : c ∈ Nat.digitChar (n % b) :: ds) :
        c ∈ ds ∨ ∃ m < b, c = Nat.digitChar m := by
      rcases List.mem_cons.1 h with rfl | h
      · exact .inr ⟨_, Nat.mod_lt n hb, rfl⟩
      · exact .inl h
    rw [Nat.toDigitsCore] at h
    split at h
    · exact hcons h
    · rcases ih h with h | h
      · exact hcons h
      · exact .inr h

theorem no_break_of_hexPadded (width n : Nat) : '\n' ∉ hexPadded width n := by
  intro h
  rcases List.mem_append.1 h with h | h
  · exact absurd (List.eq_of_mem_replicate h) (by decide)
  · obtain ⟨c, hc, hbreak⟩ := List.mem_map.1 h
    rcases mem_toDigitsCore (by decide) hc with hc | ⟨m, hm, rfl⟩
    · cases hc
    · revert hbreak
      clear hc
      revert m
      decide

theorem no_break_of_quoteEscape {quote c : Char} (hquote : quote ≠ '\n') :
    '\n' ∉ quoteEscape quote c := by
  unfold quoteEscape
  split_ifs with hmark hbreak
  · rcases hmark with rfl | rfl <;> simp [hquote.symm]
  · decide
  all_goals simp [no_break_of_hexPadded, Ne.symm hbreak]

theorem oneLine_quoted (s : String) : OneLine (quoted s) := by
  have hquote :
      (if s.toList.contains '\x27' ∧ ¬ s.toList.contains '\x22' then '\x22' else '\x27') ≠ '\n' := by
    split <;> decide
  refine oneLine_ofList.2 fun h => ?_
  rcases List.mem_append.1 h with h | h
  · rcases List.mem_cons.1 h with h | h
    · exact hquote h.symm
    · obtain ⟨c, -, hc⟩ := List.mem_flatMap.1 h
      exact no_break_of_quoteEscape hquote hc
  · exact hquote (List.mem_singleton.1 h).symm

theorem oneLine_intercalate {glue : String} {ps : List String} (hglue : OneLine glue)
    (hps : ∀ p ∈ ps, OneLine p) : OneLine (glue.intercalate ps) := by
  induction ps with
  | nil =>
    show OneLine ""
    decide
  | cons p ps ih =>
    cases ps with
    | nil =>
      rw [String.intercalate_singleton]
      exact hps p (List.mem_cons_self ..)
    | cons q ps =>
      rw [String.intercalate_cons_cons]
      exact ((hps p (List.mem_cons_self ..)).append hglue).append
        (ih fun r hr => hps r (List.mem_cons_of_mem _ hr))

end Text

namespace Value.Toml
open Text

theorem oneLine_keyText (key : Key) : OneLine (keyText key) := by
  unfold keyText
  split
  · exact (OneLine.append (by decide) (oneLine_quoted _)).append (by decide)
  · refine (OneLine.append (by decide) (oneLine_intercalate (by decide) ?_)).append (by decide)
    intro p hp
    obtain ⟨name, -, rfl⟩ := List.mem_map.1 hp
    exact oneLine_quoted name

theorem Problem.oneLine (p : Problem) : OneLine p.message := by
  cases p with
  | declaredTwice key => exact (OneLine.append (by decide) (oneLine_keyText key)).append (by decide)
  | frozen key => exact OneLine.append (by decide) (oneLine_keyText key)
  | redefined key => exact OneLine.append (by decide) (oneLine_keyText key)
  | duplicateInline name => exact OneLine.append (by decide) (oneLine_quoted name)
  | delimiter mark => exact OneLine.append (by decide) (oneLine_quoted mark)
  | illegal c => exact OneLine.append (by decide) (oneLine_quoted _)
  | invalid c => exact OneLine.append (by decide) (oneLine_quoted _)
  | _ => decide

theorem oneLine_placeText (document : List Char) (left : Nat) : OneLine (placeText document left) := by
  unfold placeText
  split
  · decide
  · exact ((OneLine.append (by decide) (oneLine_toString _)).append (by decide)).append
      (oneLine_toString _)

theorem oneLine_explain (content : List Char) (p : Problem) (left : Nat) :
    OneLine (explain content (.problem p left)) :=
  (((p.oneLine).append (by decide)).append (oneLine_placeText _ _)).append (by decide)

end Value.Toml

/-! ## Faults of a configuration -/

/-- The message about a configuration is one line if the path that it tells is. -/
theorem ConfigFault.oneLine_malformed {path : String} (hpath : Text.OneLine path) (content : List Char)
    (p : Value.Toml.Problem) (left : Nat) :
    Text.OneLine (malformed path (Value.Toml.explain content (.problem p left))).message :=
  ((Text.OneLine.append (by decide) hpath).append (by decide)).append (Value.Toml.oneLine_explain _ _ _)

/-- The lines about complaints stand below the line that counts them. -/
theorem Schema.Voice.not_oneLine_account (v : Schema.Voice) (name : String) (document : Value)
    (cs : List Schema.Complaint) : ¬ Text.OneLine (v.account name document cs) := by
  intro h
  have hcounted := (Text.oneLine_append.1 h).1
  exact absurd (Text.oneLine_append.1 hcounted).2 (by decide)

theorem ConfigFault.not_oneLine_invalid {path account : String} {cs : List Schema.Complaint}
    (haccount : ¬ Text.OneLine account) : ¬ Text.OneLine (invalid path cs account).message :=
  fun h => haccount (Text.oneLine_append.1 h).2

end LayerGate
