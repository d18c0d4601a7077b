import LayerGate.Disk.Lookup
import LayerGate.Proofs.JoinedText

/-!
# The text of paths

Names that are joined to a path are the names of that path, and cleaning up a path changes neither its
names nor where it is counted from.
-/

namespace LayerGate

namespace Path

variable {path name : String} {ns : List String}

/-- A name as it stands between the slashes of a path. -/
structure IsStep (name : String) : Prop where
  no_slash : '/' ∉ name.toList
  ne_empty : name ≠ ""
  ne_dot : name ≠ "."

theorem no_slash_of_mem_split (h : name ∈ Text.split '/' path) : '/' ∉ name.toList := by
  obtain ⟨cs, hcs, rfl⟩ := List.mem_map.1 h
  rw [String.toList_ofList]
  exact Text.not_mem_of_mem_pieces hcs

theorem isStep_of_mem_names (h : name ∈ names path) : IsStep name := by
  obtain ⟨hsplit, hkept⟩ := List.mem_filter.1 h
  have hkept := of_decide_eq_true hkept
  exact ⟨no_slash_of_mem_split hsplit, hkept.1, hkept.2⟩

theorem split_ofNames (hne : ns ≠ []) (h : ∀ n ∈ ns, '/' ∉ n.toList) :
    Text.split '/' (ofNames ns) = ns :=
  Text.split_intercalate rfl hne h

/-- The characters of joined names. -/
theorem mem_ofNames {c : Char} (h : c ∈ (ofNames ns).toList) : c = '/' ∨ ∃ n ∈ ns, c ∈ n.toList :=
  Text.mem_intercalate rfl h

theorem mem_ofNames_of_mem {c : Char} (hname : name ∈ ns) (hc : c ∈ name.toList) :
    c ∈ (ofNames ns).toList := by
  induction ns with
  | nil => cases hname
  | cons n ns ih =>
    cases ns with
    | nil =>
      obtain rfl := List.mem_singleton.1 hname
      rwa [ofNames, String.intercalate_singleton]
    | cons m ns =>
      rw [ofNames, String.intercalate_cons_cons, String.toList_append, String.toList_append,
        List.mem_append, List.mem_append]
      rcases List.mem_cons.1 hname with rfl | hname
      · exact .inl (.inl hc)
      · exact .inr (ih hname)

theorem names_ofNames (h : ∀ n ∈ ns, IsStep n) : names (ofNames ns) = ns := by
  cases ns with
  | nil => decide
  | cons n ns =>
    unfold names
    rw [split_ofNames (List.cons_ne_nil _ _) fun m hm => (h m hm).no_slash]
    rw [List.filter_eq_self]
    intro m hm
    exact decide_eq_true ⟨(h m hm).ne_empty, (h m hm).ne_dot⟩

theorem split_slash : Text.split '/' ("/" ++ path) = "" :: Text.split '/' path := by
  unfold Text.split
  rw [String.toList_append]
  rfl

theorem names_slash : names ("/" ++ path) = names path := by
  unfold names
  rw [split_slash]
  rfl

theorem ofNames_ne_empty (hne : ns ≠ []) (h : ∀ n ∈ ns, IsStep n) : ofNames ns ≠ "" := by
  intro hempty
  have hnames := names_ofNames h
  rw [hempty] at hnames
  exact hne (hnames.symm.trans (by decide))

theorem names_behindSlashes (h : ∀ n ∈ ns, IsStep n) : names (behindSlashes path ns) = ns := by
  unfold behindSlashes
  simp only
  generalize hroot : (if (path.toList.takeWhile (· = '/')).length = 0 then ""
    else if (path.toList.takeWhile (· = '/')).length = 2 then "//" else "/") = root
  have hslashes : names (root ++ ofNames ns) = ns := by
    have hroots : root = "" ∨ root = "//" ∨ root = "/" := by
      rw [← hroot]
      split
      · exact .inl rfl
      · split
        · exact .inr (.inl rfl)
        · exact .inr (.inr rfl)
    rcases hroots with rfl | rfl | rfl
    · rw [String.empty_append, names_ofNames h]
    · show names ("/" ++ "/" ++ ofNames ns) = ns
      rw [String.append_assoc, names_slash, names_slash, names_ofNames h]
    · rw [names_slash, names_ofNames h]
  split
  · rename_i hempty
    rw [hempty] at hslashes
    rw [← hslashes]
    decide
  · exact hslashes

theorem names_plain : names (plain path) = names path :=
  names_behindSlashes fun _ h => isStep_of_mem_names h

/-- Cleaning up a path takes only slashes and dots away. -/
theorem mem_plain_of_mem {c : Char} (hc : c ∈ path.toList) (hslash : c ≠ '/') (hdot : c ≠ '.') :
    c ∈ (plain path).toList := by
  obtain ⟨cs, hcs, hmem⟩ := Text.exists_pieces_of_mem hc hslash
  have hname : String.ofList cs ∈ names path := by
    refine List.mem_filter.2 ⟨List.mem_map_of_mem hcs, decide_eq_true ⟨?_, ?_⟩⟩
    · intro hempty
      obtain rfl : cs = [] := String.ofList_injective hempty
      cases hmem
    · intro hone
      obtain rfl : cs = ['.'] := String.ofList_injective hone
      exact hdot (List.mem_singleton.1 hmem)
  have hjoined : c ∈ (ofNames (names path)).toList :=
    mem_ofNames_of_mem hname (by rwa [String.toList_ofList])
  unfold plain behindSlashes
  simp only
  generalize (if (path.toList.takeWhile (· = '/')).length = 0 then ""
    else if (path.toList.takeWhile (· = '/')).length = 2 then "//" else "/") = root
  have htext : c ∈ (root ++ ofNames (names path)).toList := by
    rw [String.toList_append]
    exact List.mem_append_right _ hjoined
  rwa [if_neg]
  intro hempty
  rw [hempty] at htext
  cases htext

theorem startsWith_slash_iff : path.startsWith "/" = true ↔ path.toList.head? = some '/' := by
  rw [String.startsWith_string_iff]
  show ['/'] <+: path.toList ↔ _
  cases path.toList with
  | nil => simp
  | cons c cs => simp [eq_comm]

theorem endsWith_iff {ending : String} :
    path.endsWith ending = true ↔ ending.toList <:+ path.toList := by
  show path.toSlice.endsWith ending = true ↔ _
  rw [String.Slice.endsWith_string_iff, String.copy_toSlice]

/-- Joined names do not start with a slash. -/
theorem ofNames_head?_ne (h : ∀ n ∈ ns, IsStep n) : (ofNames ns).toList.head? ≠ some '/' := by
  intro hhead
  obtain ⟨cs, hcs⟩ : ∃ cs, (ofNames ns).toList = '/' :: cs := by
    cases htext : (ofNames ns).toList with
    | nil =>
      rw [htext] at hhead
      cases hhead
    | cons c cs =>
      rw [htext] at hhead
      cases hhead
      exact ⟨cs, rfl⟩
  have hne : ns ≠ [] := by
    rintro rfl
    exact nomatch hcs
  -- The first name would be empty then.
  have hsplit := split_ofNames hne fun n hn => (h n hn).no_slash
  unfold Text.split at hsplit
  rw [hcs] at hsplit
  have hmem : "" ∈ ns := by
    rw [← hsplit]
    exact List.mem_cons_self ..
  exact (h "" hmem).ne_empty rfl

theorem leadingSlashes_eq_zero_iff :
    (path.toList.takeWhile (· = '/')).length = 0 ↔ path.toList.head? ≠ some '/' := by
  cases path.toList with
  | nil => decide
  | cons c cs => by_cases hc : c = '/' <;> simp [hc]

/-- Behind slashes, names are an absolute path. -/
theorem startsWith_behindSlashes (h : path.startsWith "/" = true) :
    (behindSlashes path ns).startsWith "/" = true := by
  rw [startsWith_slash_iff] at h ⊢
  have hroot : ∀ {root : String}, root = "//" ∨ root = "/" →
      (if root ++ ofNames ns = "" then "." else root ++ ofNames ns).toList.head? = some '/' := by
    rintro root (rfl | rfl)
    · rw [if_neg (by simp), String.toList_append]
      rfl
    · rw [if_neg (by simp), String.toList_append]
      rfl
  unfold behindSlashes
  simp only
  rw [if_neg fun hzero => leadingSlashes_eq_zero_iff.1 hzero h]
  apply hroot
  split
  · exact .inl rfl
  · exact .inr rfl

/-- Without slashes in front, names are a relative path. -/
theorem behindSlashes_relative (h : path.startsWith "/" = false) :
    behindSlashes path ns = if ofNames ns = "" then "." else ofNames ns := by
  have hhead : path.toList.head? ≠ some '/' := by
    rw [Ne, ← startsWith_slash_iff, h]
    exact Bool.false_ne_true
  unfold behindSlashes
  simp only
  rw [if_pos (leadingSlashes_eq_zero_iff.2 hhead), String.empty_append]

theorem startsWith_plain : (plain path).startsWith "/" = path.startsWith "/" := by
  cases hslash : path.startsWith "/" with
  | true => exact startsWith_behindSlashes hslash
  | false =>
    rw [Bool.eq_false_iff, Ne, startsWith_slash_iff, plain, behindSlashes_relative hslash]
    split
    · decide
    · exact ofNames_head?_ne fun _ => isStep_of_mem_names

end Path

namespace Disk

variable {base position names : List String} {path : String}

theorem names_absolute (h : ∀ n ∈ position, Path.IsStep n) :
    Path.names (absolute position) = position := by
  unfold absolute
  rw [Path.names_slash, Path.names_ofNames h]

theorem pieces_absolute (hne : position ≠ []) (h : ∀ n ∈ position, '/' ∉ n.toList) :
    pieces (absolute position) = "" :: position := by
  unfold pieces absolute
  rw [Path.split_slash, Path.split_ofNames hne h]

theorem originOf_absolute : originOf base (absolute position) = [] := by
  unfold originOf
  rw [if_pos]
  rw [Path.startsWith_slash_iff]
  unfold absolute
  rw [String.toList_append]
  rfl

theorem originOf_plain : originOf base (Path.plain path) = originOf base path := by
  unfold originOf
  rw [Path.startsWith_plain]

end Disk

end LayerGate
