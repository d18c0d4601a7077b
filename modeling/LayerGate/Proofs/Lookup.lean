import LayerGate.Disk.Lookup
import LayerGate.Proofs.DiskWriting

/-!
# Where names lead

`Arrives` tells how a look-up comes to its end, link by link.  Every look-up that finds something does so
in this way, and one that does not come to a written file finds what it found before.
-/

namespace LayerGate.Disk

variable {d d' : Disk} {links k l : Nat} {here there position start names rest : List String}
  {name target path : String} {content : ByteArray}

/-- A name of an entry, and no step that stays or climbs. -/
structure IsName (name : String) : Prop where
  ne_empty : name ≠ ""
  ne_dot : name ≠ "."
  ne_dots : name ≠ ".."

theorem IsName.not_skipped (h : IsName name) : ¬ (name = "" ∨ name = ".") := by
  rintro (hempty | hdot)
  · exact h.ne_empty hempty
  · exact h.ne_dot hdot

def IsFolder (d : Disk) (position : List String) : Prop := ∃ es, d.at? position = some (.folder es)

/-- From the folder `here` the names lead to a position, and so many links are followed on the way. -/
inductive Arrives (d : Disk) : Nat → List String → List String → List String → Prop
  | stay {here : List String} : Arrives d 0 here [] here
  | skip {k : Nat} {here rest there : List String} {name : String} (hfolder : d.IsFolder here)
      (hname : name = "" ∨ name = ".") (hrest : Arrives d k here rest there) :
      Arrives d k here (name :: rest) there
  | climb {k : Nat} {here rest there : List String} (hfolder : d.IsFolder here)
      (hrest : Arrives d k here.dropLast rest there) : Arrives d k here (".." :: rest) there
  | link {k l : Nat} {here mid rest there : List String} {name target : String} (hname : IsName name)
      (hat : d.at? (here ++ [name]) = some (.link target))
      (htarget : Arrives d k (originOf here target) (pieces target) mid)
      (hrest : Arrives d l mid rest there) : Arrives d (k + 1 + l) here (name :: rest) there
  | enter {k : Nat} {here rest there : List String} {name : String} {e : Entry} (hname : IsName name)
      (hat : d.at? (here ++ [name]) = some e) (hlink : ∀ target, e ≠ .link target)
      (hrest : Arrives d k (here ++ [name]) rest there) : Arrives d k here (name :: rest) there

/-! ## Arriving -/

theorem Arrives.split {front : List String} (h : Arrives d k here (front ++ rest) there) :
    ∃ i j mid, k = i + j ∧ Arrives d i here front mid ∧ Arrives d j mid rest there := by
  induction front generalizing k here with
  | nil => exact ⟨0, k, here, (Nat.zero_add k).symm, .stay, h⟩
  | cons n front ih =>
    rw [List.cons_append] at h
    cases h with
    | skip hfolder hname hrest =>
      obtain ⟨i, j, mid, hk, hfront, hback⟩ := ih hrest
      exact ⟨i, j, mid, hk, .skip hfolder hname hfront, hback⟩
    | climb hfolder hrest =>
      obtain ⟨i, j, mid, hk, hfront, hback⟩ := ih hrest
      exact ⟨i, j, mid, hk, .climb hfolder hfront, hback⟩
    | link hname hat htarget hrest =>
      obtain ⟨i, j, mid, rfl, hfront, hback⟩ := ih hrest
      exact ⟨_, j, mid, by omega, .link hname hat htarget hfront, hback⟩
    | enter hname hat hlink hrest =>
      obtain ⟨i, j, mid, hk, hfront, hback⟩ := ih hrest
      exact ⟨i, j, mid, hk, .enter hname hat hlink hfront, hback⟩

/-- Names lead to one position and over so many links. -/
theorem Arrives.unique {there' : List String} (h : Arrives d k here names there)
    (h' : Arrives d l here names there') : k = l ∧ there = there' := by
  induction h generalizing l there' with
  | stay =>
    cases h'
    exact ⟨rfl, rfl⟩
  | skip hfolder hname _ ih =>
    cases h' with
    | skip _ _ hrest => exact ih hrest
    | climb _ _ => exact absurd hname (by decide)
    | link hname' _ _ _ | enter hname' _ _ _ => exact absurd hname hname'.not_skipped
  | climb hfolder _ ih =>
    cases h' with
    | skip _ hname _ => exact absurd hname (by decide)
    | climb _ hrest => exact ih hrest
    | link hname _ _ _ | enter hname _ _ _ => exact absurd rfl hname.ne_dots
  | link hname hat _ _ ihtarget ihrest =>
    cases h' with
    | skip _ hskip _ => exact absurd hskip hname.not_skipped
    | climb _ _ => exact absurd rfl hname.ne_dots
    | link _ hat' htarget hrest =>
      obtain rfl := Entry.link.inj (Option.some.inj (hat.symm.trans hat'))
      obtain ⟨rfl, rfl⟩ := ihtarget htarget
      obtain ⟨rfl, rfl⟩ := ihrest hrest
      exact ⟨rfl, rfl⟩
    | enter _ hat' hlink _ => exact absurd (Option.some.inj (hat'.symm.trans hat)) (hlink _)
  | enter hname hat hlink _ ih =>
    cases h' with
    | skip _ hskip _ => exact absurd hskip hname.not_skipped
    | climb _ _ => exact absurd rfl hname.ne_dots
    | link _ hat' _ _ => exact absurd (Option.some.inj (hat.symm.trans hat')) (hlink _)
    | enter _ _ _ hrest => exact ih hrest

/-- Steps that stay where they are may be left out. -/
theorem Arrives.filter (h : Arrives d k here names there) :
    Arrives d k here (names.filter fun name => name ≠ "" ∧ name ≠ ".") there := by
  induction h with
  | stay => exact .stay
  | skip hfolder hname _ ih =>
    rw [List.filter_cons_of_neg (by rcases hname with rfl | rfl <;> decide)]
    exact ih
  | climb hfolder _ ih =>
    rw [List.filter_cons_of_pos (by decide)]
    exact .climb hfolder ih
  | @link _ _ _ _ _ _ name _ hname hat htarget _ _ ih =>
    have hkept : decide (name ≠ "" ∧ name ≠ ".") = true :=
      decide_eq_true ⟨hname.ne_empty, hname.ne_dot⟩
    rw [List.filter_cons, if_pos hkept]
    exact .link hname hat htarget ih
  | @enter _ _ _ _ name _ hname hat hlink _ ih =>
    have hkept : decide (name ≠ "" ∧ name ≠ ".") = true :=
      decide_eq_true ⟨hname.ne_empty, hname.ne_dot⟩
    rw [List.filter_cons, if_pos hkept]
    exact .enter hname hat hlink ih

/-- A look-up that finds something arrives there. -/
theorem arrives_of_walk (h : walk d links here names = .ok (.found there)) :
    ∃ k ≤ links, Arrives d k here names there := by
  fun_induction walk d links here names with
  | case1 links here =>
    cases h
    exact ⟨0, Nat.zero_le _, .stay⟩
  | case2 links here name rest es hfolder hname ih =>
    obtain ⟨k, hk, hrest⟩ := ih h
    exact ⟨k, hk, .skip ⟨es, hfolder⟩ hname hrest⟩
  | case3 links here rest es hfolder _ ih =>
    obtain ⟨k, hk, hrest⟩ := ih h
    exact ⟨k, hk, .climb ⟨es, hfolder⟩ hrest⟩
  | case4 | case5 | case6 | case7 | case10 => cases h
  | case8 here name rest es hfolder hskip hdots _ target hlookup links ih =>
    obtain ⟨k, hk, hall⟩ := ih h
    obtain ⟨i, j, mid, rfl, htarget, hrest⟩ := hall.split
    rw [not_or] at hskip
    rw [Entry.lookup_eq_at? hfolder] at hlookup
    exact ⟨i + 1 + j, by omega, .link ⟨hskip.1, hskip.2, hdots⟩ hlookup htarget hrest⟩
  | case9 links here name rest es hfolder hskip hdots _ e hlink hlookup ih =>
    obtain ⟨k, hk, hrest⟩ := ih h
    rw [not_or] at hskip
    rw [Entry.lookup_eq_at? hfolder] at hlookup
    exact ⟨k, hk, .enter ⟨hskip.1, hskip.2, hdots⟩ hlookup hlink hrest⟩

/-! ## What is found -/

/-- Something other than a link is at the position. -/
def Stands (d : Disk) (position : List String) : Prop :=
  ∃ e, d.at? position = some e ∧ ∀ target, e ≠ .link target

theorem IsFolder.stands (h : d.IsFolder here) : d.Stands here := by
  obtain ⟨es, hat⟩ := h
  exact ⟨_, hat, fun _ => nofun⟩

theorem IsFolder.root (h : d.IsFolder here) : d.IsFolder [] := by
  obtain ⟨es, hat⟩ := h
  cases here with
  | nil => exact ⟨es, hat⟩
  | cons n here => exact Entry.folder_of_at?_append (q := []) hat

theorem IsFolder.dropLast (h : d.IsFolder here) : d.IsFolder here.dropLast := by
  obtain ⟨es, hat⟩ := h
  rcases List.eq_nil_or_concat here with rfl | ⟨above, n, rfl⟩
  · exact ⟨es, hat⟩
  · rw [List.concat_eq_append] at hat ⊢
    rw [List.dropLast_concat]
    exact Entry.folder_of_at?_append hat

theorem isFolder_of_at?_concat {e : Entry} (h : d.at? (here ++ [name]) = some e) :
    d.IsFolder here := Entry.folder_of_at?_append h

/-- A link leads on from a folder. -/
theorem isFolder_originOf (h : d.IsFolder here) : d.IsFolder (originOf here target) := by
  unfold originOf
  split
  · exact h.root
  · exact h

/-- Where names lead, there is something, and all links have been followed. -/
theorem Arrives.stands (h : Arrives d k here names there) (hstart : d.Stands here) :
    d.Stands there := by
  induction h with
  | stay => exact hstart
  | skip _ _ _ ih => exact ih hstart
  | climb hfolder _ ih => exact ih hfolder.dropLast.stands
  | link _ hat _ _ ihtarget ihrest =>
    exact ihrest (ihtarget (isFolder_originOf (isFolder_of_at?_concat hat)).stands)
  | enter _ hat hlink _ ih => exact ih ⟨_, hat, hlink⟩

/-- Only the last name is missing in a folder. -/
theorem missing_of_walk {folder : List String} (h : walk d links here names = .ok (.missing folder name)) :
    d.IsFolder folder ∧ d.at? (folder ++ [name]) = none ∧ IsName name ∧
      name.utf8ByteSize ≤ nameLimit := by
  fun_induction walk d links here names with
  | case1 | case4 | case6 | case7 | case10 => cases h
  | case2 _ _ _ _ _ _ _ ih | case3 _ _ _ _ _ _ ih | case8 _ _ _ _ _ _ _ _ _ _ _ ih
  | case9 _ _ _ _ _ _ _ _ _ _ _ _ ih => exact ih h
  | case5 links here n es hfolder hskip hdots hsize hlookup =>
    cases h
    rw [not_or] at hskip
    rw [Entry.lookup_eq_at? hfolder] at hlookup
    exact ⟨⟨es, hfolder⟩, hlookup, ⟨hskip.1, hskip.2, hdots⟩, Nat.le_of_not_lt hsize⟩

/-! ## What is reachable -/

/-- A position that can be come to from `start`: by entering folders and by following the links that are
met there. -/
inductive Reaches (d : Disk) (start : List String) : List String → Prop
  | start : Reaches d start start
  | entry {here : List String} {name : String} (hhere : Reaches d start here)
      (hat : (d.at? (here ++ [name])).isSome) : Reaches d start (here ++ [name])
  | link {k : Nat} {here there : List String} {name target : String}
      (hlink : Reaches d start (here ++ [name])) (hat : d.at? (here ++ [name]) = some (.link target))
      (htarget : Arrives d k (originOf here target) (pieces target) there) : Reaches d start there

/-- Names that do not climb lead to positions that are reachable. -/
theorem Reaches.arrives (hstart : Reaches d start here) (h : Arrives d k here names there)
    (hdots : ".." ∉ names) : Reaches d start there := by
  induction h with
  | stay => exact hstart
  | skip _ _ _ ih => exact ih hstart fun h => hdots (List.mem_cons_of_mem _ h)
  | climb => exact absurd (List.mem_cons_self ..) hdots
  | link hname hat htarget _ _ ih =>
    have hlink := Reaches.entry hstart (by rw [hat]; rfl)
    exact ih (.link hlink hat htarget) fun h => hdots (List.mem_cons_of_mem _ h)
  | enter hname hat _ _ ih =>
    exact ih (.entry hstart (by rw [hat]; rfl)) fun h => hdots (List.mem_cons_of_mem _ h)

/-- What lies below a reachable position is reachable. -/
theorem Reaches.descend (hstart : Reaches d start here) (h : (d.at? (here ++ rest)).isSome) :
    Reaches d start (here ++ rest) := by
  induction rest generalizing here with
  | nil => rwa [List.append_nil]
  | cons n rest ih =>
    rw [List.append_cons] at h ⊢
    apply ih _ h
    apply Reaches.entry hstart
    rw [Entry.at?_append] at h
    obtain ⟨e, he⟩ := Option.isSome_iff_exists.1 h
    obtain ⟨above, habove, -⟩ := Option.bind_eq_some_iff.1 he
    rw [habove]
    rfl

/-! ## After a write -/

/-- One look-up ends as the other one, comes to the position, or finds nothing just as the other one. -/
inductive Agree (position : List String) : Except Cause Place → Except Cause Place → Prop
  | same {r : Except Cause Place} : Agree position r r
  | arrived {r : Except Cause Place} : Agree position (.ok (.found position)) r
  | absent {c c' : Cause} (h : c.isAbsence = true) (h' : c'.isAbsence = true) :
      Agree position (.error c) (.error c')

/-- From a folder a name leads on to what stands there. -/
theorem walk_cons (h : d.IsFolder here) : walk d links here (name :: rest) =
    if name = "" ∨ name = "." then walk d links here rest
    else if name = ".." then walk d links here.dropLast rest
    else if name.utf8ByteSize > nameLimit then .error .nameTooLong
    else match d.at? (here ++ [name]) with
      | none => if rest = [] then .ok (.missing here name) else .error .noEntry
      | some (.link target) =>
        match links with
        | 0 => .error .tooManyLinks
        | links + 1 => walk d links (originOf here target) (pieces target ++ rest)
      | some _ => walk d links (here ++ [name]) rest := by
  obtain ⟨es, hfolder⟩ := h
  rw [walk, ← Entry.lookup_eq_at? hfolder]
  cases hentry : es.lookup name with
  | none => simp only [hfolder, hentry]
  | some e =>
    cases e with
    | file content => simp only [hfolder, hentry]
    | folder entries => simp only [hfolder, hentry]
    | link target => cases links <;> simp only [hfolder, hentry]

theorem walk_name (h : d.IsFolder here) (hskip : ¬ (name = "" ∨ name = ".")) (hdots : name ≠ "..")
    (hsize : ¬ name.utf8ByteSize > nameLimit) : walk d links here (name :: rest) =
    match d.at? (here ++ [name]) with
    | none => if rest = [] then .ok (.missing here name) else .error .noEntry
    | some (.link target) =>
      match links with
      | 0 => .error .tooManyLinks
      | links + 1 => walk d links (originOf here target) (pieces target ++ rest)
    | some _ => walk d links (here ++ [name]) rest := by
  rw [walk_cons h, if_neg hskip, if_neg hdots, if_neg hsize]

/-- From what is no folder no name leads on. -/
theorem walk_of_not_isFolder (h : ¬ d.IsFolder here) :
    walk d links here (name :: rest) = .error .notFolder := by
  rw [walk]
  split
  · rename_i es hfolder
    exact absurd ⟨es, hfolder⟩ h
  · rfl

namespace Writes

variable (h : Writes d d' position content)

include h

theorem isFolder_iff {q : List String} : d'.IsFolder q ↔ d.IsFolder q := by
  by_cases hq : q = position
  · subst hq
    constructor
    · rintro ⟨es, hat⟩
      exact nomatch h.stored.symm.trans hat
    · rintro ⟨es, hat⟩
      exact nomatch h.replaced _ hat
  · have hnature := h.nature q hq
    have hiff : ∀ {d : Disk}, d.IsFolder q ↔ (d.at? q).map Entry.nature = some .folder := by
      intro d
      simp only [IsFolder, Option.map_eq_some_iff, Entry.nature_eq_folder]
      constructor
      · rintro ⟨es, hat⟩
        exact ⟨_, hat, es, rfl⟩
      · rintro ⟨_, hat, es, rfl⟩
        exact ⟨es, hat⟩
    rw [hiff, hiff, hnature]

theorem link_iff {q : List String} :
    d'.at? q = some (.link target) ↔ d.at? q = some (.link target) := by
  by_cases hq : q = position
  · subst hq
    constructor
    · intro hat
      exact nomatch h.stored.symm.trans hat
    · intro hat
      exact nomatch h.replaced _ hat
  · have hnature := h.nature q hq
    have hiff : ∀ {d : Disk}, d.at? q = some (.link target) ↔
        (d.at? q).map Entry.nature = some (.link target) := by
      intro d
      simp only [Option.map_eq_some_iff, Entry.nature_eq_link]
      constructor
      · intro hat
        exact ⟨_, hat, rfl⟩
      · rintro ⟨_, hat, rfl⟩
        exact hat
    rw [hiff, hiff, hnature]

theorem absent {q : List String} (hnone : d'.at? q = none) : d.at? q = none := by
  have hne : q ≠ position := by
    rintro rfl
    exact nomatch hnone.symm.trans h.stored
  have hnature := h.nature q hne
  rw [hnone] at hnature
  exact Option.map_eq_none_iff.1 hnature.symm

/-- Every look-up ends as before unless it comes to the written file. -/
theorem walk_agree : Agree position (walk d' links here names) (walk d links here names) := by
  fun_induction walk d' links here names with
  | case1 links here =>
    rw [walk]
    exact .same
  | case2 links here name rest es hfolder hskip ih =>
    rw [walk_cons (h.isFolder_iff.1 ⟨es, hfolder⟩), if_pos hskip]
    exact ih
  | case3 links here rest es hfolder hskip ih =>
    rw [walk_cons (h.isFolder_iff.1 ⟨es, hfolder⟩), if_neg hskip, if_pos rfl]
    exact ih
  | case4 links here name rest es hfolder hskip hdots hsize =>
    rw [walk_cons (h.isFolder_iff.1 ⟨es, hfolder⟩), if_neg hskip, if_neg hdots, if_pos hsize]
    exact .same
  | case5 links here name es hfolder hskip hdots hsize hlookup =>
    rw [Entry.lookup_eq_at? hfolder] at hlookup
    rw [walk_name (h.isFolder_iff.1 ⟨es, hfolder⟩) hskip hdots hsize, h.absent hlookup]
    exact .same
  | case6 links here name rest es hfolder hskip hdots hsize hlookup hrest =>
    rw [Entry.lookup_eq_at? hfolder] at hlookup
    rw [walk_name (h.isFolder_iff.1 ⟨es, hfolder⟩) hskip hdots hsize, h.absent hlookup]
    show Agree _ _ (if rest = [] then _ else _)
    rw [if_neg hrest]
    exact .same
  | case7 here name rest es hfolder hskip hdots hsize target hlookup =>
    rw [Entry.lookup_eq_at? hfolder, h.link_iff] at hlookup
    rw [walk_name (h.isFolder_iff.1 ⟨es, hfolder⟩) hskip hdots hsize, hlookup]
    exact .same
  | case8 here name rest es hfolder hskip hdots hsize target hlookup links ih =>
    rw [Entry.lookup_eq_at? hfolder, h.link_iff] at hlookup
    rw [walk_name (h.isFolder_iff.1 ⟨es, hfolder⟩) hskip hdots hsize, hlookup]
    exact ih
  | case9 links here name rest es hfolder hskip hdots hsize e hlink hlookup ih =>
    rw [Entry.lookup_eq_at? hfolder] at hlookup
    rw [walk_name (h.isFolder_iff.1 ⟨es, hfolder⟩) hskip hdots hsize]
    cases hat : d.at? (here ++ [name]) with
    | some old =>
      have hold : ∀ target, old ≠ .link target := by
        rintro target rfl
        rw [← h.link_iff, hlookup] at hat
        exact hlink target (Option.some.inj hat)
      cases old with
      | link target => exact absurd rfl (hold target)
      | file _ => exact ih
      | folder _ => exact ih
    | none =>
      -- Only the written file is new, and it ends the look-up.
      have heq : here ++ [name] = position := by
        refine Decidable.byContradiction fun hne => ?_
        have hnature := h.nature _ hne
        rw [hat, hlookup] at hnature
        exact nomatch hnature
      cases rest with
      | nil =>
        rw [walk, heq]
        exact .arrived
      | cons n rest =>
        rw [heq, walk_of_not_isFolder (fun hfolder => ?_)]
        · exact .absent rfl rfl
        · obtain ⟨es, hat⟩ := hfolder
          exact nomatch h.stored.symm.trans hat
  | case10 links here name rest hfolder =>
    have hnot : ¬ d.IsFolder here := by
      rw [← h.isFolder_iff]
      rintro ⟨es, hat⟩
      exact hfolder es hat
    rw [walk_of_not_isFolder hnot]
    exact .same

end Writes

end LayerGate.Disk
