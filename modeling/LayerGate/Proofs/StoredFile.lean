import LayerGate.Proofs.Destination
import LayerGate.Proofs.PathText

/-!
# A file that was written

On a disk whose names are proper, a file is where its path leads once it has been written, and there it
is found again.
-/

namespace LayerGate

namespace Entry

variable {e new x : Entry} {path q : List String} {name : String}

/-- A name that a folder may hold. -/
def isEntryName (name : String) : Bool :=
  name ≠ "" && name ≠ "." && name ≠ ".." && !name.contains '/' && !name.contains '\x00' &&
    name.utf8ByteSize ≤ Disk.nameLimit

mutual

/-- Folders hold proper names, and the target of a link is a path. -/
def isWellFormed : Entry → Bool
  | file _ => true
  | link target => !target.contains '\x00'
  | folder es => areWellFormed es

def areWellFormed : List (String × Entry) → Bool
  | [] => true
  | (name, e) :: es => isEntryName name && e.isWellFormed && areWellFormed es

end

/-- What makes a name one of an entry. -/
structure ProperName (name : String) : Prop where
  isName : Disk.IsName name
  no_slash : '/' ∉ name.toList
  no_nul : '\x00' ∉ name.toList
  size_le : name.utf8ByteSize ≤ Disk.nameLimit

theorem isEntryName_iff : isEntryName name = true ↔ ProperName name := by
  unfold isEntryName
  simp only [Bool.and_eq_true, decide_eq_true_eq, Bool.not_eq_true', String.contains_char_eq,
    decide_eq_false_iff_not]
  constructor
  · rintro ⟨⟨⟨⟨⟨hempty, hdot⟩, hdots⟩, hslash⟩, hnul⟩, hsize⟩
    exact ⟨⟨hempty, hdot, hdots⟩, hslash, hnul, hsize⟩
  · rintro ⟨⟨hempty, hdot, hdots⟩, hslash, hnul, hsize⟩
    exact ⟨⟨⟨⟨⟨hempty, hdot⟩, hdots⟩, hslash⟩, hnul⟩, hsize⟩

/-! ## Well-formed trees -/

theorem wellFormed_of_lookup {es : List (String × Entry)} (h : areWellFormed es = true)
    (hat : es.lookup name = some x) : ProperName name ∧ x.isWellFormed = true := by
  induction es with
  | nil => cases hat
  | cons entry es ih =>
    obtain ⟨n, e⟩ := entry
    rw [areWellFormed, Bool.and_eq_true, Bool.and_eq_true] at h
    rw [List.lookup_cons] at hat
    cases hn : name == n with
    | true =>
      rw [hn] at hat
      obtain rfl := Option.some.inj hat
      obtain rfl := eq_of_beq hn
      exact ⟨isEntryName_iff.1 h.1.1, h.1.2⟩
    | false =>
      rw [hn] at hat
      exact ih h.2 hat

theorem wellFormed_of_at? (h : e.isWellFormed = true) (hat : e.at? q = some x) :
    (∀ n ∈ q, ProperName n) ∧ x.isWellFormed = true := by
  induction q generalizing e with
  | nil =>
    obtain rfl := Option.some.inj hat
    exact ⟨nofun, h⟩
  | cons n q ih =>
    obtain ⟨es, rfl⟩ := folder_of_at?_cons hat
    rw [at?_cons_of_folder] at hat
    obtain ⟨child, hchild, hbelow⟩ := Option.bind_eq_some_iff.1 hat
    obtain ⟨hname, hformed⟩ := wellFormed_of_lookup h hchild
    obtain ⟨hnames, hx⟩ := ih hformed hbelow
    refine ⟨?_, hx⟩
    intro m hm
    rcases List.mem_cons.1 hm with rfl | hm
    · exact hname
    · exact hnames m hm

/-- The names on the way to an entry are those of a path. -/
theorem isStep_of_at? (h : e.isWellFormed = true) (hat : e.at? q = some x) :
    ∀ n ∈ q, Path.IsStep n := by
  intro n hn
  have hproper := (wellFormed_of_at? h hat).1 n hn
  exact ⟨hproper.no_slash, hproper.isName.ne_empty, hproper.isName.ne_dot⟩

theorem areWellFormed_putIn {es : List (String × Entry)} (h : areWellFormed es = true)
    (hname : ProperName name) (hnew : new.isWellFormed = true) :
    areWellFormed (putIn name new es) = true := by
  have hentry := isEntryName_iff.2 hname
  induction es with
  | nil => rw [putIn, areWellFormed, hentry, hnew]; rfl
  | cons entry es ih =>
    obtain ⟨n, old⟩ := entry
    rw [areWellFormed, Bool.and_eq_true, Bool.and_eq_true] at h
    rw [putIn]
    split
    · rename_i heq
      subst heq
      rw [areWellFormed, hentry, hnew, h.2]
      rfl
    · rw [areWellFormed, h.1.1, h.1.2, ih h.2]
      rfl

theorem isWellFormed_putAt (h : e.isWellFormed = true) (hpath : ∀ n ∈ path, ProperName n)
    (hnew : new.isWellFormed = true) : (e.putAt path new).isWellFormed = true := by
  induction path generalizing e with
  | nil => exact hnew
  | cons n path ih =>
    have hentries : areWellFormed e.entries = true := by
      cases e with
      | folder es => exact h
      | file _ => rfl
      | link _ => rfl
    have hchild : ((e.child? n).getD (.folder [])).isWellFormed = true := by
      cases hc : e.child? n with
      | none => rfl
      | some child => exact (wellFormed_of_lookup hentries hc).2
    exact areWellFormed_putIn hentries (hpath n (List.mem_cons_self ..))
      (ih hchild fun m hm => hpath m (List.mem_cons_of_mem _ hm))

end Entry

namespace Disk

open Entry (ProperName)

variable {d d' : Disk} {links : Nat} {base here position folder names : List String}
  {name path : String} {content : ByteArray} {e : Entry}

/-! ## Where the file comes to stand -/

theorem pieces_clean (h : '\x00' ∉ path.toList) :
    ∀ n ∈ pieces path, '/' ∉ n.toList ∧ '\x00' ∉ n.toList := by
  intro n hn
  refine ⟨Path.no_slash_of_mem_split hn, fun hnul => h ?_⟩
  obtain ⟨cs, hcs, rfl⟩ := List.mem_map.1 hn
  rw [String.toList_ofList] at hnul
  exact Text.mem_of_mem_pieces hcs hnul

/-- The name that a look-up misses is one of those that are looked up, or stands in a link. -/
theorem clean_of_walk (hformed : d.isWellFormed = true)
    (hnames : ∀ n ∈ names, '/' ∉ n.toList ∧ '\x00' ∉ n.toList)
    (h : walk d links here names = .ok (.missing folder name)) :
    '/' ∉ name.toList ∧ '\x00' ∉ name.toList := by
  fun_induction walk d links here names with
  | case1 | case4 | case6 | case7 | case10 => cases h
  | case2 _ _ _ _ _ _ _ ih | case3 _ _ _ _ _ _ ih | case9 _ _ _ _ _ _ _ _ _ _ _ _ ih =>
    exact ih (fun n hn => hnames n (List.mem_cons_of_mem _ hn)) h
  | case5 =>
    cases h
    exact hnames _ (List.mem_cons_self ..)
  | case8 here n rest es hfolder _ _ _ target hlookup links ih =>
    apply ih _ h
    intro m hm
    rcases List.mem_append.1 hm with hm | hm
    · rw [Entry.lookup_eq_at? hfolder] at hlookup
      have htarget := (Entry.wellFormed_of_at? hformed hlookup).2
      rw [Entry.isWellFormed, String.contains_char_eq] at htarget
      exact pieces_clean (by simpa using htarget) m hm
    · exact hnames m (List.mem_cons_of_mem _ hm)

theorem isFolder_of_walk (hne : names ≠ []) (h : walk d links here names = .ok (.found position)) :
    d.IsFolder here := by
  cases names with
  | nil => exact absurd rfl hne
  | cons n names =>
    refine Classical.byContradiction fun hnot => ?_
    rw [walk_of_not_isFolder hnot] at h
    cases h

theorem pieces_ne_nil : pieces path ≠ [] := by
  intro h
  exact Text.pieces_ne_nil _ _ (List.map_eq_nil_iff.1 h)

/-- A look-up from a folder that finds a file finds it in a folder. -/
theorem parent_of_walk (hne : names ≠ []) (h : walk d links here names = .ok (.found position))
    (hat : ∀ es, d.at? position ≠ some (.folder es)) :
    ∃ folder name, position = folder ++ [name] ∧ d.IsFolder folder ∧
      ∃ content, d.at? position = some (.file content) := by
  have hfolder := isFolder_of_walk hne h
  obtain ⟨k, -, harrives⟩ := arrives_of_walk h
  obtain ⟨e, he, hlink⟩ := harrives.stands hfolder.stands
  obtain ⟨content, rfl⟩ : ∃ content, e = .file content := by
    cases e with
    | file content => exact ⟨content, rfl⟩
    | link target => exact absurd rfl (hlink target)
    | folder es => exact absurd he (hat es)
  rcases List.eq_nil_or_concat position with rfl | ⟨folder, name, rfl⟩
  · -- The root of the disk is a folder.
    obtain ⟨es, hroot⟩ := hfolder.root
    exact nomatch hroot.symm.trans he
  · rw [List.concat_eq_append] at he ⊢
    exact ⟨folder, name, rfl, isFolder_of_at?_concat he, content, he⟩

/-- A look-up that was to come to the written file comes to it. -/
theorem Writes.walk_found {place : Place} (h : Writes d d' position content)
    (hwalk : walk d links here names = .ok place)
    (hplace : place = .found position ∨ ∃ folder name, place = .missing folder name ∧
      position = folder ++ [name]) :
    walk d' links here names = .ok (.found position) := by
  have hagree : Agree position (walk d' links here names) (walk d links here names) := h.walk_agree
  rw [hwalk] at hagree
  generalize hwritten : walk d' links here names = r at hagree
  cases hagree with
  | arrived => rfl
  | same =>
    rcases hplace with rfl | ⟨folder, name, rfl, rfl⟩
    · rfl
    · -- The name is there now.
      have hnone := (missing_of_walk hwritten).2.1
      exact nomatch hnone.symm.trans h.stored

/-- A file under a proper name, in the place of a file or of nothing, is where its look-up ends. -/
theorem writes_at {es : List (String × Entry)} {place : Place} (hformed : d.isWellFormed = true)
    (hfolder : d.at? folder = some (.folder es)) (hname : ProperName name)
    (hold : ∀ old, d.at? (folder ++ [name]) = some old → old.nature = .file)
    (hwalk : walk d links here names = .ok place)
    (hplace : place = .found (folder ++ [name]) ∨ place = .missing folder name) :
    Writes d (d.putAt (folder ++ [name]) (.file content)) (folder ++ [name]) content ∧
      (d.putAt (folder ++ [name]) (.file content)).isWellFormed = true ∧
        ∃ k, Arrives (d.putAt (folder ++ [name]) (.file content)) k here names (folder ++ [name]) := by
  have hwrites : Writes d (d.putAt (folder ++ [name]) (.file content)) (folder ++ [name]) content :=
    writes_putAt hfolder hold
  refine ⟨hwrites, ?_, ?_⟩
  · apply Entry.isWellFormed_putAt hformed
    · intro n hn
      rcases List.mem_append.1 hn with hn | hn
      · exact (Entry.wellFormed_of_at? hformed hfolder).1 n hn
      · obtain rfl := List.mem_singleton.1 hn
        exact hname
    · rfl
  · have hfound := hwrites.walk_found hwalk
      (hplace.imp_right fun hmissing => ⟨folder, name, hmissing, rfl⟩)
    obtain ⟨k, -, harrives⟩ := arrives_of_walk hfound
    exact ⟨k, harrives⟩

/-- Writing makes a file at the position to which the path leads from then on. -/
theorem writes_of_write (hformed : d.isWellFormed = true) (hpath : '\x00' ∉ path.toList)
    (h : d.write base path content = .ok d') :
    ∃ position ≠ [], Writes d d' position content ∧ d'.isWellFormed = true ∧
      ∃ k, Arrives d' k (originOf base path) (pieces path) position := by
  unfold write at h
  cases hplace : d.place base path with
  | error c =>
    rw [hplace] at h
    cases h
  | ok place =>
    have hwalk : walk d linkLimit (originOf base path) (pieces path) = .ok place := by
      unfold Disk.place at hplace
      split at hplace
      · cases hplace
      · exact hplace
    rw [hplace] at h
    cases place with
    | missing folder name =>
      obtain ⟨⟨es, hfolder⟩, hnone, hname, hsize⟩ := missing_of_walk hwalk
      obtain ⟨hslash, hnul⟩ := clean_of_walk hformed (pieces_clean hpath) hwalk
      obtain rfl := Except.ok.inj h
      have hold : ∀ old, d.at? (folder ++ [name]) = some old → old.nature = .file := fun old hold =>
        nomatch hnone.symm.trans hold
      exact ⟨_, List.append_ne_nil_of_right_ne_nil _ (List.cons_ne_nil _ _),
        writes_at hformed hfolder ⟨hname, hslash, hnul, hsize⟩ hold hwalk (.inr rfl)⟩
    | found position =>
      have hfile : ∀ es, d.at? position ≠ some (.folder es) := by
        intro es hat
        simp only [hat] at h
        cases h
      obtain ⟨folder, name, rfl, ⟨es, hfolder⟩, old, hat⟩ :=
        parent_of_walk pieces_ne_nil hwalk hfile
      simp only [hat] at h
      obtain rfl := Except.ok.inj h
      have hname : ProperName name := (Entry.wellFormed_of_at? hformed hat).1 name
        (List.mem_append_right _ (List.mem_singleton.2 rfl))
      have hold : ∀ old, d.at? (folder ++ [name]) = some old → old.nature = .file := by
        intro old' hold'
        obtain rfl := Option.some.inj (hat.symm.trans hold')
        rfl
      exact ⟨_, List.append_ne_nil_of_right_ne_nil _ (List.cons_ne_nil _ _),
        writes_at hformed hfolder hname hold hwalk (.inl rfl)⟩

/-! ## Finding it again -/

/-- The names of a position lead to it. -/
theorem walk_position (hat : d.at? (here ++ names) = some e) (hlink : ∀ target, e ≠ .link target)
    (hnames : ∀ n ∈ names, ProperName n) :
    walk d links here names = .ok (.found (here ++ names)) := by
  induction names generalizing here with
  | nil => rw [walk, List.append_nil]
  | cons n rest ih =>
    have hname := hnames n (List.mem_cons_self ..)
    have hfolder : d.IsFolder here := Entry.folder_of_at?_append hat
    rw [List.append_cons] at hat ⊢
    rw [walk_name hfolder hname.isName.not_skipped hname.isName.ne_dots (Nat.not_lt.2 hname.size_le)]
    have hrest := ih hat fun m hm => hnames m (List.mem_cons_of_mem _ hm)
    cases rest with
    | nil =>
      rw [List.append_nil] at hat
      rw [hat]
      cases e with
      | link target => exact absurd rfl (hlink target)
      | file _ => exact hrest
      | folder _ => exact hrest
    | cons m rest =>
      obtain ⟨es, hbelow⟩ := Entry.folder_of_at?_append hat
      rw [hbelow]
      exact hrest

/-- The text of a position leads to the file that stands there, unless it is too long. -/
theorem locate_absolute (hformed : d.isWellFormed = true) (hne : position ≠ [])
    (hat : d.at? position = some (.file content))
    (hsize : (absolute position).utf8ByteSize ≤ pathLimit) :
    d.locate [] (absolute position) = .ok position := by
  have hnames := (Entry.wellFormed_of_at? hformed hat).1
  have hwalk : walk d linkLimit [] position = .ok (.found position) :=
    walk_position hat (fun _ => nofun) hnames
  have hroot : d.IsFolder [] := by
    cases position with
    | nil => exact absurd rfl hne
    | cons n rest => exact Entry.folder_of_at?_append (q := []) hat
  unfold locate place
  rw [if_neg (Nat.not_lt.2 hsize), originOf_absolute,
    pieces_absolute hne fun n hn => (hnames n hn).no_slash, walk_cons hroot, if_pos (.inl rfl), hwalk]
  rfl

theorem no_nul_absolute (hformed : d.isWellFormed = true) (hat : d.at? position = some e) :
    '\x00' ∉ (absolute position).toList := by
  unfold absolute
  rw [String.toList_append]
  intro hmem
  rcases List.mem_append.1 hmem with hslash | hmem
  · exact absurd hslash (by decide)
  · rcases Path.mem_ofNames hmem with hslash | ⟨n, hn, hc⟩
    · exact absurd hslash (by decide)
    · exact ((Entry.wellFormed_of_at? hformed hat).1 n hn).no_nul hc

/-- A file at a position is found under the text of the position, unless that is too long. -/
theorem find?_absolute (hformed : d.isWellFormed = true) (hne : position ≠ [])
    (hat : d.at? position = some (.file content))
    (hsize : (absolute position).utf8ByteSize ≤ pathLimit) :
    d.find? [] (absolute position) = .ok (some (.file content)) := by
  have hnul : (absolute position).contains '\x00' = false := by
    rw [String.contains_char_eq, decide_eq_false_iff_not]
    exact no_nul_absolute hformed hat
  have hlook : d.look [] (absolute position) = .ok (.file content) := by
    unfold look
    rw [locate_absolute hformed hne hat hsize]
    simp only [bind, Except.bind, pure, Except.pure, hat]
  unfold find?
  rw [hnul, hlook]
  rfl

end Disk

end LayerGate
