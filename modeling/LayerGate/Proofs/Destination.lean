import LayerGate.Proofs.Lookup

/-!
# Real positions

A look-up that arrives somewhere shows where its path leads: every link is followed to its end, and no
link leads back to itself.  A write changes no destination.
-/

namespace LayerGate

namespace Entry

mutual

/-- The positions of the links in a tree. -/
def linkPositions : Entry → List (List String)
  | file _ => []
  | link _ => [[]]
  | folder es => linkPositionsIn es

def linkPositionsIn : List (String × Entry) → List (List String)
  | [] => []
  | (name, e) :: es => (linkPositions e).map (name :: ·) ++ linkPositionsIn es

end

mutual

theorem length_linkPositions : ∀ e : Entry, e.linkPositions.length = e.linkCount
  | file _ => rfl
  | link _ => rfl
  | folder es => length_linkPositionsIn es

theorem length_linkPositionsIn :
    ∀ es : List (String × Entry), (linkPositionsIn es).length = linkCountIn es
  | [] => rfl
  | (name, e) :: es => by
    rw [linkPositionsIn, linkCountIn, List.length_append, List.length_map, length_linkPositions e,
      length_linkPositionsIn es]

end

mutual

theorem mem_linkPositions {target : String} : ∀ {e : Entry} {q : List String},
    e.at? q = some (.link target) → q ∈ e.linkPositions
  | e, [], h => by
    obtain rfl : e = .link target := Option.some.inj h
    exact List.mem_singleton.2 rfl
  | .folder es, name :: q, h => mem_linkPositionsIn h
  | .file _, _ :: _, h | .link _, _ :: _, h => nomatch h

theorem mem_linkPositionsIn {target name : String} : ∀ {es : List (String × Entry)} {q : List String},
    (es.lookup name).bind (·.at? q) = some (.link target) → name :: q ∈ linkPositionsIn es
  | (n, e) :: es, q, h => by
    rw [linkPositionsIn, List.mem_append]
    by_cases hn : name = n
    · subst hn
      rw [List.lookup_cons_self] at h
      exact .inl (List.mem_map.2 ⟨q, mem_linkPositions h, rfl⟩)
    · rw [List.lookup_cons, beq_eq_false_iff_ne.2 hn] at h
      exact .inr (mem_linkPositionsIn h)

end

/-- A tree holds no more different links than it counts. -/
theorem length_le_linkCount {e : Entry} {positions : List (List String)} (hnodup : positions.Nodup)
    (h : ∀ q ∈ positions, ∃ target, e.at? q = some (.link target)) :
    positions.length ≤ e.linkCount := by
  rw [← length_linkPositions]
  apply List.Nodup.length_le_of_subset hnodup
  intro q hq
  obtain ⟨target, hat⟩ := h q hq
  exact mem_linkPositions hat

end Entry

namespace Disk

variable {d d' : Disk} {k l depth : Nat} {active : List (List String)}
  {base here there position names rest : List String} {name target path : String}
  {content : ByteArray}

/-! ## Following links -/

/-- A link is followed to its end unless it is being followed already. -/
theorem follow_link (hskip : ¬ (name = "" ∨ name = ".")) (hdots : name ≠ "..")
    (hat : d.at? (here ++ [name]) = some (.link target)) :
    Disk.follow d (depth + 1) active here (name :: rest) =
      if here ++ [name] ∈ active then .loop (climbed (here ++ [name] ++ rest))
      else match Disk.follow d depth ((here ++ [name]) :: active) (originOf here target)
          (pieces target) with
        | .loop names => .loop (climbed (names ++ rest))
        | .position there => Disk.follow d (depth + 1) active there rest := by
  rw [Disk.follow, if_neg hskip, if_neg hdots]
  cases hend : Disk.follow d depth ((here ++ [name]) :: active) (originOf here target)
      (pieces target) with
  | loop names => simp only [hat, hend]
  | position there => simp only [hat, hend]

theorem follow_link_zero (hskip : ¬ (name = "" ∨ name = ".")) (hdots : name ≠ "..")
    (hat : d.at? (here ++ [name]) = some (.link target)) :
    Disk.follow d 0 active here (name :: rest) = .loop (climbed (here ++ [name] ++ rest)) := by
  rw [Disk.follow, if_neg hskip, if_neg hdots]
  simp only [hat]

/-- Whatever is no link counts by its name, also if it is missing. -/
theorem follow_name (hskip : ¬ (name = "" ∨ name = ".")) (hdots : name ≠ "..")
    (hat : ∀ target, d.at? (here ++ [name]) ≠ some (.link target)) :
    Disk.follow d depth active here (name :: rest) =
      Disk.follow d depth active (here ++ [name]) rest := by
  rw [Disk.follow, if_neg hskip, if_neg hdots]
  simp only

/-- Links that are being followed to their ends, each over no fewer links than are still ahead. -/
structure Pending (d : Disk) (active : List (List String)) (ahead : Nat) : Prop where
  nodup : active.Nodup
  links : ∀ q ∈ active, ∃ target, d.at? q = some (.link target)
  longer : ∀ q ∈ active, ∀ target k there, d.at? q = some (.link target) →
    Arrives d k (originOf q.dropLast target) (pieces target) there → ahead ≤ k

theorem Pending.none : Pending d [] k := ⟨.nil, nofun, nofun⟩

theorem Pending.mono (h : Pending d active k) (hl : l ≤ k) : Pending d active l where
  nodup := h.nodup
  links := h.links
  longer q hq target j there hat harrives := Nat.le_trans hl (h.longer q hq target j there hat harrives)

/-- A link that is met ahead is none of those that are being followed. -/
theorem Pending.not_mem (h : Pending d active (k + 1 + l))
    (hat : d.at? (here ++ [name]) = some (.link target))
    (htarget : Arrives d k (originOf here target) (pieces target) there) :
    here ++ [name] ∉ active := by
  intro hmem
  have hle := h.longer _ hmem target k there hat (by rwa [List.dropLast_concat])
  omega

theorem Pending.follow (h : Pending d active (k + 1 + l))
    (hat : d.at? (here ++ [name]) = some (.link target))
    (htarget : Arrives d k (originOf here target) (pieces target) there) :
    Pending d ((here ++ [name]) :: active) k where
  nodup := List.nodup_cons.2 ⟨h.not_mem hat htarget, h.nodup⟩
  links q hq := by
    rcases List.mem_cons.1 hq with rfl | hq
    · exact ⟨target, hat⟩
    · exact h.links q hq
  longer q hq target' j there' hat' harrives := by
    rcases List.mem_cons.1 hq with rfl | hq
    · -- The target of a link leads over one number of links.
      obtain rfl := Entry.link.inj (Option.some.inj (hat.symm.trans hat'))
      rw [List.dropLast_concat] at harrives
      exact Nat.le_of_eq (htarget.unique harrives).1
    · have hle := h.longer q hq target' j there' hat' harrives
      omega

/-- Where a look-up arrives, there its path leads. -/
theorem Arrives.follow (h : Arrives d k here names there) (hpending : Pending d active k)
    (hdepth : d.linkCount < depth + active.length) :
    Disk.follow d depth active here names = .position there := by
  induction h generalizing depth active with
  | stay => rw [Disk.follow]
  | skip _ hname _ ih =>
    rw [Disk.follow, if_pos hname]
    exact ih hpending hdepth
  | climb _ _ ih =>
    rw [Disk.follow, if_neg (by decide), if_pos rfl]
    exact ih hpending hdepth
  | link hname hat htarget _ ihtarget ihrest =>
    have hinside := hpending.follow hat htarget
    cases depth with
    | zero =>
      have hcount := Entry.length_le_linkCount hpending.nodup hpending.links
      omega
    | succ depth =>
      have hfollowed := @ihtarget depth _ hinside (by rw [List.length_cons]; omega)
      rw [follow_link hname.not_skipped hname.ne_dots hat, if_neg (hpending.not_mem hat htarget),
        hfollowed]
      exact ihrest (hpending.mono (by omega)) hdepth
  | enter hname hat hlink _ ih =>
    rw [follow_name hname.not_skipped hname.ne_dots]
    · exact ih hpending hdepth
    · intro target hat'
      exact hlink target (Option.some.inj (hat.symm.trans hat'))

/-- Names that a look-up skips. -/
theorem climbed_filter {front : List String} :
    climbed (front ++ names.filter fun name => name ≠ "" ∧ name ≠ ".") = climbed (front ++ names) := by
  unfold climbed
  rw [List.filter_append, List.filter_append, List.filter_filter]
  simp only [Bool.and_self]

theorem follow_filter : Disk.follow d depth active here
    (names.filter fun name => name ≠ "" ∧ name ≠ ".") = Disk.follow d depth active here names := by
  induction names generalizing here with
  | nil => rfl
  | cons name rest ih =>
    by_cases hskip : name = "" ∨ name = "."
    · have hdropped : ¬ decide (name ≠ "" ∧ name ≠ ".") = true := by
        rw [decide_eq_true_iff, ← not_or]
        exact fun h => h hskip
      rw [List.filter_cons, if_neg hdropped, Disk.follow, if_pos hskip]
      exact ih
    · have hkept : decide (name ≠ "" ∧ name ≠ ".") = true := by
        rw [decide_eq_true_iff, ← not_or]
        exact hskip
      rw [List.filter_cons, if_pos hkept]
      by_cases hdots : name = ".."
      · rw [Disk.follow, if_neg hskip, if_pos hdots, Disk.follow, if_neg hskip, if_pos hdots]
        exact ih
      · by_cases hlink : ∃ target, d.at? (here ++ [name]) = some (.link target)
        · obtain ⟨target, hat⟩ := hlink
          cases depth with
          | zero =>
            rw [follow_link_zero hskip hdots hat, follow_link_zero hskip hdots hat, climbed_filter]
          | succ depth =>
            rw [follow_link hskip hdots hat, follow_link hskip hdots hat, climbed_filter]
            simp only [climbed_filter, ih]
        · have hnone := not_exists.1 hlink
          rw [follow_name hskip hdots hnone, follow_name hskip hdots hnone]
          exact ih

/-- Empty names and dots on a path say nothing. -/
theorem destination_of_arrives (h : Arrives d k (originOf base path) (Path.names path) there) :
    d.destination base path = .position there := by
  have hfollowed : Disk.follow d (d.linkCount + 1) [] (originOf base path) (Path.names path) =
      .position there := h.follow .none (by simp)
  rw [destination, ← follow_filter]
  exact hfollowed

/-- Without links, only what lies below a position can be come to from there. -/
theorem Reaches.prefix_of_linkCount (h : d.Reaches here there) (hlinks : d.linkCount = 0) :
    here <+: there := by
  induction h with
  | start => exact List.prefix_rfl
  | entry _ _ ih => exact ih.trans (List.prefix_append ..)
  | link _ hat _ _ =>
    have hmem := Entry.mem_linkPositions hat
    rw [← Entry.length_linkPositions, List.length_eq_zero_iff] at hlinks
    rw [hlinks] at hmem
    cases hmem

/-! ## After a write -/

theorem Writes.follow_eq (h : Writes d d' position content) :
    Disk.follow d' depth active here names = Disk.follow d depth active here names := by
  fun_induction Disk.follow d depth active here names with
  | case1 => rw [Disk.follow]
  | case2 depth active here name rest hskip ih =>
    rw [Disk.follow, if_pos hskip]
    exact ih
  | case3 depth active here rest hskip ih =>
    rw [Disk.follow, if_neg hskip, if_pos rfl]
    exact ih
  | case4 active here name rest hskip hdots next target hat =>
    exact follow_link_zero hskip hdots (h.link_iff.2 hat)
  | case5 active here name rest hskip hdots next target hat depth hmem =>
    rw [follow_link hskip hdots (h.link_iff.2 hat), if_pos hmem]
  | case6 active here name rest hskip hdots next target hat depth hmem names hloop ih =>
    rw [hloop] at ih
    rw [follow_link hskip hdots (h.link_iff.2 hat), if_neg hmem, ih]
  | case7 active here name rest hskip hdots next target hat depth hmem there hthere ihtarget ihrest =>
    rw [hthere] at ihtarget
    rw [follow_link hskip hdots (h.link_iff.2 hat), if_neg hmem, ihtarget]
    exact ihrest
  | case8 depth active here name rest hskip hdots next hat ih =>
    rw [follow_name hskip hdots fun target hlink => hat target (h.link_iff.1 hlink)]
    exact ih

theorem Writes.destination_eq (h : Writes d d' position content) :
    d'.destination base path = d.destination base path := by
  rw [destination, destination, h.follow_eq, h.links]

end Disk

end LayerGate
