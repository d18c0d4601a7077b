import LayerGate.Disk.Change

/-!
# Writing a file

What writing a file leaves as it was: the sort of every other entry, everything that does not lie on
the way to the file, and the number of links.
-/

namespace LayerGate

namespace Entry

/-- What an entry is, apart from the contents of files and folders. -/
inductive Nature where
  | file
  | link (target : String)
  | folder
  deriving DecidableEq, Repr

def nature : Entry → Nature
  | file _ => .file
  | link target => .link target
  | folder _ => .folder

variable {e new x : Entry} {path q rest : List String} {name target : String}

theorem nature_eq_folder : e.nature = .folder ↔ ∃ es, e = .folder es := by
  cases e <;> simp [nature]

theorem nature_eq_file : e.nature = .file ↔ ∃ content, e = .file content := by
  cases e <;> simp [nature]

theorem nature_eq_link : e.nature = .link target ↔ e = .link target := by
  cases e <;> simp [nature]

/-! ## Positions -/

theorem at?_cons_of_folder {es : List (String × Entry)} :
    (folder es).at? (name :: rest) = (es.lookup name).bind (·.at? rest) := rfl

/-- What has something below it is a folder. -/
theorem folder_of_at?_cons (h : e.at? (name :: rest) = some x) : ∃ es, e = .folder es := by
  cases e with
  | folder es => exact ⟨es, rfl⟩
  | file _ => cases h
  | link _ => cases h

theorem folder_of_at?_append (h : e.at? (q ++ name :: rest) = some x) :
    ∃ es, e.at? q = some (.folder es) := by
  rw [at?_append] at h
  obtain ⟨above, habove, hbelow⟩ := Option.bind_eq_some_iff.1 h
  obtain ⟨es, rfl⟩ := folder_of_at?_cons hbelow
  exact ⟨es, habove⟩

theorem lookup_eq_at? {es : List (String × Entry)} (h : e.at? q = some (.folder es)) :
    es.lookup name = e.at? (q ++ [name]) := by
  rw [at?_append, h]
  show es.lookup name = (es.lookup name).bind _
  cases es.lookup name <;> rfl

/-! ## Putting an entry somewhere -/

/-- Nothing changes but what lies above or below the place. -/
theorem at?_putAt_aside (hbelow : ¬ path <+: q) (habove : ¬ q <+: path) :
    (e.putAt path new).at? q = e.at? q := by
  induction path generalizing e q with
  | nil => exact absurd List.nil_prefix hbelow
  | cons name path ih =>
    cases q with
    | nil => exact absurd List.nil_prefix habove
    | cons n q =>
      show ((putIn name (((e.child? name).getD (.folder [])).putAt path new) e.entries).lookup n).bind
        (·.at? q) = (e.child? n).bind (·.at? q)
      rw [lookup_putIn]
      by_cases hn : n = name
      · subst hn
        rw [List.cons_prefix_cons] at hbelow habove
        rw [if_pos rfl]
        show (((e.child? n).getD (.folder [])).putAt path new).at? q = _
        rw [ih (fun h => hbelow ⟨rfl, h⟩) (fun h => habove ⟨rfl, h⟩)]
        cases hchild : e.child? n with
        | some child => rfl
        | none =>
          -- A folder that is made on the way holds nothing else.
          cases q with
          | nil => exact absurd ⟨rfl, List.nil_prefix⟩ habove
          | cons m q => rfl
      · rw [if_neg hn]
        rfl

theorem at?_putAt_below : (e.putAt path new).at? (path ++ rest) = new.at? rest := by
  rw [at?_append, at?_putAt_self]
  rfl

theorem linkCountIn_putIn {es : List (String × Entry)} :
    linkCountIn (putIn name new es) + ((es.lookup name).map linkCount).getD 0 =
      linkCountIn es + new.linkCount := by
  induction es with
  | nil => simp [putIn, linkCountIn]
  | cons entry es ih =>
    obtain ⟨n, old⟩ := entry
    by_cases hn : n = name
    · subst hn
      simp only [putIn, if_true, linkCountIn, List.lookup_cons_self, Option.map_some,
        Option.getD_some]
      omega
    · have hb : (name == n) = false := beq_eq_false_iff_ne.2 (Ne.symm hn)
      rw [putIn, if_neg hn, linkCountIn, linkCountIn, List.lookup_cons, hb]
      simp only [Nat.add_assoc]
      rw [ih]

/-- A file in the place of a file or of nothing adds no link. -/
theorem linkCount_putAt {content : ByteArray} {es : List (String × Entry)}
    (hparent : e.at? q = some (.folder es)) (hold : ∀ old, e.at? (q ++ [name]) = some old →
      old.nature = .file) :
    (e.putAt (q ++ [name]) (.file content)).linkCount = e.linkCount := by
  induction q generalizing e with
  | nil =>
    cases hparent
    show linkCountIn (putIn name (.file content) es) = linkCountIn es
    have hcount := @linkCountIn_putIn (.file content) name es
    have hzero : ((es.lookup name).map linkCount).getD 0 = 0 := by
      rw [lookup_eq_at? (e := .folder es) (q := []) rfl]
      cases hat : (folder es).at? ([] ++ [name]) with
      | none => rfl
      | some old =>
        obtain ⟨content, rfl⟩ := nature_eq_file.1 (hold old hat)
        rfl
    rw [hzero] at hcount
    exact hcount
  | cons n q ih =>
    obtain ⟨above, rfl⟩ := folder_of_at?_cons hparent
    rw [at?_cons_of_folder] at hparent
    obtain ⟨child, hchild, hbelow⟩ := Option.bind_eq_some_iff.1 hparent
    have hsame : (child.putAt (q ++ [name]) (.file content)).linkCount = child.linkCount := by
      apply ih hbelow
      intro old hat
      apply hold old
      show (above.lookup n).bind _ = _
      rw [hchild]
      exact hat
    show linkCountIn (putIn n ((((folder above).child? n).getD (.folder [])).putAt (q ++ [name])
      (.file content)) above) = linkCountIn above
    have hlookup : (folder above).child? n = some child := hchild
    have hcount := @linkCountIn_putIn (child.putAt (q ++ [name]) (.file content)) n above
    rw [hchild, hsame] at hcount
    rw [hlookup]
    exact Nat.add_right_cancel hcount

end Entry

namespace Disk

open Entry (nature)

variable {d d' : Disk} {base here position folder names : List String} {path name : String}
  {content : ByteArray} {links : Nat}

/-! ## Where a file is written -/

/-- `d'` is `d` but for the file at a position. -/
structure Writes (d d' : Disk) (position : List String) (content : ByteArray) : Prop where
  stored : d'.at? position = some (.file content)
  replaced : ∀ old, d.at? position = some old → old.nature = .file
  nature : ∀ q, q ≠ position → (d'.at? q).map Entry.nature = (d.at? q).map Entry.nature
  aside : ∀ q, ¬ position <+: q → ¬ q <+: position → d'.at? q = d.at? q
  links : d'.linkCount = d.linkCount

theorem writes_putAt {es : List (String × Entry)} (hparent : d.at? folder = some (.folder es))
    (hold : ∀ old, d.at? (folder ++ [name]) = some old → old.nature = .file) :
    Writes d (d.putAt (folder ++ [name]) (.file content)) (folder ++ [name]) content where
  stored := Entry.at?_putAt_self ..
  replaced := hold
  aside _ hbelow habove := Entry.at?_putAt_aside hbelow habove
  links := Entry.linkCount_putAt hparent hold
  nature q hq := by
    by_cases hbelow : (folder ++ [name]) <+: q
    · -- Nothing lies below a file.
      obtain ⟨rest, rfl⟩ := hbelow
      rw [Entry.at?_putAt_below, Entry.at?_append]
      cases rest with
      | nil => exact absurd (List.append_nil _) hq
      | cons n rest =>
        cases hat : d.at? (folder ++ [name]) with
        | none => rfl
        | some old =>
          obtain ⟨content, rfl⟩ := Entry.nature_eq_file.1 (hold old hat)
          rfl
    · by_cases habove : q <+: (folder ++ [name])
      · -- What lies above was a folder and is one.
        obtain ⟨rest, hrest⟩ := habove
        cases rest with
        | nil => exact absurd ((List.append_nil q).symm.trans hrest) hq
        | cons n rest =>
          have hstored : (d.putAt (folder ++ [name]) (.file content)).at? (q ++ n :: rest) =
              some (.file content) := by
            rw [hrest]
            exact Entry.at?_putAt_self ..
          obtain ⟨new, hnew⟩ := Entry.folder_of_at?_append hstored
          have hprefix : q <+: folder := by
            rcases List.prefix_concat_iff.1 ⟨n :: rest, hrest⟩ with heq | hprefix
            · exact absurd heq hq
            · exact hprefix
          obtain ⟨below, rfl⟩ := hprefix
          have hwas : ∃ es, d.at? q = some (.folder es) := by
            cases below with
            | nil => exact ⟨es, by rwa [List.append_nil] at hparent⟩
            | cons m below => exact Entry.folder_of_at?_append hparent
          obtain ⟨old, hold⟩ := hwas
          rw [hnew, hold]
          rfl
      · rw [Entry.at?_putAt_aside hbelow habove]

end Disk

end LayerGate
