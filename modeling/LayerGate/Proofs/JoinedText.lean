import LayerGate.Text.Split

/-!
# Joining pieces and cutting them apart

Pieces that hold no separator are given back when they are joined and cut again.  So the joined text
tells the pieces, as long as there is one.
-/

namespace LayerGate.Text

variable {sep : Char} {glue : String} {ps qs : List String} {p cs : List Char}

/-! ## Characters -/

theorem pieces_of_not_mem (h : sep ∉ p) : pieces sep p = [p] := by
  induction p with
  | nil => rfl
  | cons c p ih =>
    rw [List.mem_cons, not_or] at h
    rw [pieces, if_neg (Ne.symm h.1), ih h.2]

theorem mem_of_mem_pieces {c : Char} (hp : p ∈ pieces sep cs) (hc : c ∈ p) : c ∈ cs := by
  induction cs generalizing p with
  | nil =>
    obtain rfl := List.mem_singleton.1 hp
    exact hc
  | cons d cs ih =>
    rw [pieces] at hp
    split at hp
    · rcases List.mem_cons.1 hp with rfl | hp
      · cases hc
      · exact List.mem_cons_of_mem _ (ih hp hc)
    · cases hpieces : pieces sep cs with
      | nil => exact absurd hpieces (pieces_ne_nil sep cs)
      | cons q qs =>
        rw [hpieces] at hp ih
        rcases List.mem_cons.1 hp with rfl | hp
        · rcases List.mem_cons.1 hc with rfl | hc
          · exact List.mem_cons_self ..
          · exact List.mem_cons_of_mem _ (ih (List.mem_cons_self ..) hc)
        · exact List.mem_cons_of_mem _ (ih (List.mem_cons_of_mem _ hp) hc)

theorem mem_joined {c : Char} {pss : List (List Char)} (h : c ∈ joined sep pss) :
    c = sep ∨ ∃ p ∈ pss, c ∈ p := by
  induction pss with
  | nil => cases h
  | cons p pss ih =>
    cases pss with
    | nil => exact .inr ⟨p, List.mem_cons_self .., h⟩
    | cons q pss =>
      rw [joined, List.mem_append, List.mem_cons] at h
      rcases h with hc | rfl | hrest
      · exact .inr ⟨p, List.mem_cons_self .., hc⟩
      · exact .inl rfl
      · rcases ih hrest with hc | ⟨r, hr, hc⟩
        · exact .inl hc
        · exact .inr ⟨r, List.mem_cons_of_mem _ hr, hc⟩

/-- A character that is no separator stands in a piece. -/
theorem exists_pieces_of_mem {c : Char} (h : c ∈ cs) (hsep : c ≠ sep) : ∃ p ∈ pieces sep cs, c ∈ p := by
  rw [← joined_pieces sep cs] at h
  exact (mem_joined h).resolve_left hsep

/-- The first piece ends at the first separator. -/
theorem pieces_append_cons (h : sep ∉ p) : pieces sep (p ++ sep :: cs) = p :: pieces sep cs := by
  induction p with
  | nil => rw [List.nil_append, pieces, if_pos rfl]
  | cons c p ih =>
    rw [List.mem_cons, not_or] at h
    rw [List.cons_append, pieces, if_neg (Ne.symm h.1), ih h.2]

/-- What stands behind the last separator can be told, whatever stands before it. -/
theorem eq_of_append_cons_eq {before before' after after' : List Char} (h : sep ∉ after)
    (h' : sep ∉ after') (he : before ++ sep :: after = before' ++ sep :: after') :
    after = after' := by
  have hreverse := congrArg List.reverse he
  simp only [List.reverse_append, List.reverse_cons, List.append_assoc, List.singleton_append]
    at hreverse
  -- Read backwards, each text ends its first piece at that separator.
  have hpieces := congrArg (pieces sep) hreverse
  rw [pieces_append_cons (by simpa using h), pieces_append_cons (by simpa using h')] at hpieces
  have hheads := (List.cons.inj hpieces).1
  exact List.reverse_inj.1 hheads

/-! ## Text -/

/-- The characters of joined text. -/
theorem mem_intercalate {c : Char} (hglue : glue.toList = [sep])
    (h : c ∈ (glue.intercalate ps).toList) : c = sep ∨ ∃ p ∈ ps, c ∈ p.toList := by
  induction ps with
  | nil => cases h
  | cons p ps ih =>
    cases ps with
    | nil => exact .inr ⟨p, List.mem_cons_self .., by rwa [String.intercalate_singleton] at h⟩
    | cons q ps =>
      rw [String.intercalate_cons_cons, String.toList_append, String.toList_append, hglue,
        List.mem_append, List.mem_append] at h
      rcases h with (hc | hsep) | hrest
      · exact .inr ⟨p, List.mem_cons_self .., hc⟩
      · exact .inl (List.mem_singleton.1 hsep)
      · rcases ih hrest with hsep | ⟨r, hr, hc⟩
        · exact .inl hsep
        · exact .inr ⟨r, List.mem_cons_of_mem _ hr, hc⟩

/-- Cutting the joined text at the separator gives the pieces. -/
theorem split_intercalate (hglue : glue.toList = [sep]) (hne : ps ≠ [])
    (h : ∀ p ∈ ps, sep ∉ p.toList) : split sep (glue.intercalate ps) = ps := by
  induction ps with
  | nil => exact absurd rfl hne
  | cons p ps ih =>
    have hp : sep ∉ p.toList := h p (List.mem_cons_self ..)
    cases ps with
    | nil =>
      rw [String.intercalate_singleton, split, pieces_of_not_mem hp]
      simp
    | cons q qs =>
      have hrest := ih (List.cons_ne_nil _ _) fun r hr => h r (List.mem_cons_of_mem _ hr)
      rw [split] at hrest
      rw [String.intercalate_cons_cons, split, String.toList_append, String.toList_append, hglue,
        List.append_assoc, List.singleton_append, pieces_append_cons hp, List.map_cons, hrest]
      simp

theorem intercalate_inj (hglue : glue.toList = [sep]) (hps : ps ≠ []) (hqs : qs ≠ [])
    (hp : ∀ p ∈ ps, sep ∉ p.toList) (hq : ∀ q ∈ qs, sep ∉ q.toList)
    (h : glue.intercalate ps = glue.intercalate qs) : ps = qs := by
  rw [← split_intercalate hglue hps hp, h, split_intercalate hglue hqs hq]

end LayerGate.Text
