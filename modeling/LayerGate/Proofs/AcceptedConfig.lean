import LayerGate.Proofs.AcceptedFields
import LayerGate.Proofs.LayerRules
import LayerGate.Proofs.RecordOrder

/-!
# Accepted configurations

A configuration that the schema takes passes every check of the schema, whichever of its fields the
document left out: the built-in values pass the checks, too.
-/

namespace LayerGate

namespace Config

open Schema

variable {c : Config} {v : Value}

/-- What every validator asks for: sound layers and rules, an order with every reason in it once, a
dot in front of each extension, a time that is more than zero and at least one worker. -/
structure Valid (c : Config) : Prop where
  layers : c.layers.Accepted
  order : ∀ r, c.gate.severityOrder.count r = 1
  extensions : ∀ e ∈ c.extensions, e.startsWith "." = true
  timeout : ∀ x, c.timeout = some x → x > 0
  workers : ∀ n, c.workers = some n → 1 ≤ n

theorem builtin_valid : builtin.Valid where
  layers := Layers.fault?_eq_none_iff.1 (by decide)
  order := Gate.orderIsComplete_iff.1 (by decide)
  extensions := by
    simp only [String.startsWith_string_iff]
    decide
  timeout := nofun
  workers := nofun

theorem timeout_of_schema {o : Option Float} (h : timeoutSchema v = .valid o) {x : Float}
    (hx : o = some x) : x > 0 := by
  rcases nullable_eq_valid h with rfl | ⟨y, hy, rfl⟩
  · cases hx
  · cases hx
    by_contra hnot
    have hrule := (Checked.obeying_eq_valid_iff.1 hy).2
    rw [if_neg hnot] at hrule
    cases hrule

theorem workers_of_schema {o : Option Int} (h : workersSchema v = .valid o) {n : Int}
    (hn : o = some n) : 1 ≤ n := by
  rcases nullable_eq_valid h with rfl | ⟨m, hm, rfl⟩
  · cases hn
  · cases hn
    by_contra hnot
    have hrule := (Checked.obeying_eq_valid_iff.1 hm).2
    rw [if_neg hnot] at hrule
    cases hrule

/-- Whatever document the schema takes, its configuration is valid. -/
theorem valid_of_schema (h : schema v = .valid c) : c.Valid := by
  obtain ⟨hrecord, hrule⟩ := Checked.obeying_eq_valid_iff.1 h
  obtain ⟨fields, -, hrun⟩ := record_eq_valid hrecord
  simp only [Reader.run_seq, Reader.run_map, Checked.both_eq_valid_iff] at hrun
  obtain ⟨_, gate, ⟨_, layers, ⟨_, workers, ⟨_, timeout, ⟨_, nestedIgnore, ⟨_, aliases, ⟨_, sourceRoots,
    ⟨_, extensions, ⟨_, excluded, ⟨_, included, hmk, -, rfl⟩, -, rfl⟩, -, rfl⟩, -, rfl⟩, -, rfl⟩, -,
    rfl⟩, htimeout, rfl⟩, hworkers, rfl⟩, hlayers, rfl⟩, hgate, rfl⟩ := hrun
  cases hmk
  exact {
    layers := by
      rcases Reader.optional_eq_valid hlayers with rfl | ⟨w, hw⟩
      · exact builtin_valid.layers
      · exact Layers.accepted_of_schema hw
    order := by
      rcases Reader.optional_eq_valid hgate with rfl | ⟨w, hw⟩
      · exact builtin_valid.order
      · exact Gate.orderIsComplete_iff.1 (Gate.orderIsComplete_of_schema hw)
    extensions := by
      have hdots := List.find?_eq_none.1 (Option.map_eq_none_iff.1 hrule)
      intro e he
      simpa using hdots e he
    timeout := by
      rcases Reader.optional_eq_valid htimeout with rfl | ⟨w, hw⟩
      · exact builtin_valid.timeout
      · exact fun x => timeout_of_schema hw
    workers := by
      rcases Reader.optional_eq_valid hworkers with rfl | ⟨w, hw⟩
      · exact builtin_valid.workers
      · exact fun n => workers_of_schema hw }

end Config

end LayerGate
