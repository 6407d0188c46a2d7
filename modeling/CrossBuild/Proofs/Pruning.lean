import CrossBuild.Proofs.TreeEdits
import Mathlib.Data.Set.Insert

/-!
# What pruning leaves

Pruning walks the directories at and below a place. It lists each when it comes by, and once all below it
has been walked, it removes it if it holds nothing by then. So what is below a directory has been dealt with
when its turn comes: it goes just if it leads to nothing but directories. `prune_ends` says this of any
state of the walk, of which the directories that have been dealt with and those that are left are known.
-/

namespace CrossBuild.Proofs
open Handoff

/-- At the place and below it there are directories at most. -/
def OnlyDirectories (t : FileTree) (q : Place) : Prop :=
  ∀ names node, t.get? (q ++ names) = some node → ∃ mode, node = .directory mode

/-- Without links, that is to lead to no file. -/
lemma onlyDirectories_iff {t : FileTree} {q : Place} (hfree : LinkFree t q) :
    OnlyDirectories t q ↔ ∀ names, fileAt t (q ++ names) = none := by
  constructor
  · intro honly names
    rw [fileAt]
    split
    · rename_i f hf
      obtain ⟨mode, hmode⟩ := honly names _ hf
      cases hmode
    · rfl
  · intro hnone names node hnode
    cases node with
    | directory mode => exact ⟨mode, rfl⟩
    | link target => exact (hfree names target hnode).elim
    | file f =>
      have hfile := hnone names
      rw [fileAt, hnode] at hfile
      cases hfile

lemma compare_below (place : Place) (name : String) (more : Place) :
    compare place (place ++ name :: more) = .lt := by
  induction place with
  | nil => rfl
  | cons first place ih =>
    have hfirst : compare first first = .eq := Std.ReflCmp.compare_self
    rw [List.cons_append, List.compare_eq_compareLex, List.compareLex_cons_cons, hfirst,
      ← List.compare_eq_compareLex]
    exact ih

lemma children_isEmpty {t : FileTree} {place : Place} :
    (t.children place).isEmpty = true ↔ ∀ name, t.get? (place ++ [name]) = none := by
  rw [List.isEmpty_iff, FileTree.children, List.filterMap_eq_nil_iff]
  constructor
  · intro h name
    cases hget : t.get? (place ++ [name]) with
    | none => rfl
    | some node =>
      have hbelow : ([name], node) ∈ t.below place := mem_below.mpr ⟨by simp, hget⟩
      have hnone := h _ hbelow
      cases hnone
  · rintro h ⟨names, node⟩ hbelow
    have hget := (mem_below.mp hbelow).2
    dsimp only
    split
    · rename_i name
      rw [h name] at hget
      cases hget
    · rfl

section Removal

variable {t t' : FileTree} {place : Place} {now : Instant}

lemma checkDirectory_congr {q : Place} (h : t'.get? q = t.get? q) (bit : Nat) :
    t'.checkDirectory q bit = t.checkDirectory q bit := by
  rw [FileTree.checkDirectory, FileTree.checkDirectory, h]

lemma removeIfEmpty_of_hollow (hempty : ∀ name, t.get? (place ++ [name]) = none) : removeIfEmpty t place now =
    (t.checkDirectory place.dropLast FileTree.writeBit).map fun _ => (t.erase place).changed place.dropLast now := by
  rw [removeIfEmpty_eq, if_pos (children_isEmpty.mpr hempty)]

lemma removeIfEmpty_of_filled (hfilled : ¬∀ name, t.get? (place ++ [name]) = none) :
    removeIfEmpty t place now = .ok t := by
  rw [removeIfEmpty_eq, if_neg fun hempty => hfilled (children_isEmpty.mp hempty)]

end Removal

/-! ### Directories that are left to walk -/

section Order

variable {t : FileTree} {handled : Set Place} {rest : List Place} {d : Place}

lemma mem_placesBelow {d' : Place} : d' ∈ placesBelow d rest ↔ d' ∈ rest ∧ d <+: d' := by
  rw [placesBelow, List.mem_filter, List.isPrefixOf_iff_prefix]

lemma mem_placesBeside {d' : Place} : d' ∈ placesBeside d rest ↔ d' ∈ rest ∧ ¬d <+: d' := by
  rw [placesBeside, List.mem_filter, Bool.not_eq_true', ← Bool.not_eq_true, List.isPrefixOf_iff_prefix]

/-- Directories of a tree, each before what is below it, when some others have been dealt with: all that are
below one of them are there or dealt with, and none that leads to one of them has been dealt with. -/
structure AreLeft (t : FileTree) (handled : Set Place) (directories : List Place) : Prop where
  ordered : directories.Pairwise fun a b => ¬b <+: a
  dirs : ∀ d ∈ directories, DirectoryAt t d
  closed : ∀ d ∈ directories, ∀ names, DirectoryAt t (d ++ names) → d ++ names ∈ directories ∨ d ++ names ∈ handled
  fresh : ∀ d ∈ directories, ∀ q ∈ handled, ¬q <+: d

variable (h : AreLeft t handled (d :: rest))

include h

lemma AreLeft.below : AreLeft t handled (placesBelow d rest) where
  ordered := (List.pairwise_cons.mp h.ordered).2.filter _
  dirs := fun d' hd' => h.dirs d' (mem_of_mem_placesBelow hd')
  closed := by
    intro d' hd' names hdir
    refine (h.closed d' (mem_of_mem_placesBelow hd') names hdir).imp_left fun hmem => ?_
    obtain ⟨hrest, hbelow⟩ := mem_placesBelow.mp hd'
    rcases List.mem_cons.mp hmem with hsame | hmem
    · -- what is below a later directory does not come before it
      exact ((List.pairwise_cons.mp h.ordered).1 d' hrest ⟨names, hsame⟩).elim
    · exact mem_placesBelow.mpr ⟨hmem, hbelow.trans (List.prefix_append _ _)⟩
  fresh := fun d' hd' => h.fresh d' (mem_of_mem_placesBelow hd')

/-- Once the first directory and all below it have been dealt with, the others are left. -/
lemma AreLeft.beside : AreLeft t (insert d (handled ∪ {q | q ∈ placesBelow d rest})) (placesBeside d rest) where
  ordered := (List.pairwise_cons.mp h.ordered).2.filter _
  dirs := fun d' hd' => h.dirs d' (mem_of_mem_placesBeside hd')
  closed := by
    intro d' hd' names hdir
    rcases h.closed d' (mem_of_mem_placesBeside hd') names hdir with hmem | hmem
    · rcases List.mem_cons.mp hmem with hsame | hrest
      · exact .inr (.inl hsame)
      · by_cases hbelow : d <+: d' ++ names
        · exact .inr (.inr (.inr (mem_placesBelow.mpr ⟨hrest, hbelow⟩)))
        · exact .inl (mem_placesBeside.mpr ⟨hrest, hbelow⟩)
    · exact .inr (.inr (.inl hmem))
  fresh := by
    intro d' hd' q hq hbegins
    have hbeside := (mem_placesBeside.mp hd').2
    rcases hq with rfl | hq | hq
    · exact hbeside hbegins
    · exact h.fresh d' (mem_of_mem_placesBeside hd') q hq hbegins
    · exact hbeside ((mem_placesBelow.mp hq).2.trans hbegins)

/-- All directories below the first one are walked before it is dealt with. -/
lemma AreLeft.mem_below {names : Place} (hne : names ≠ []) (hdir : DirectoryAt t (d ++ names)) :
    d ++ names ∈ handled ∪ {q | q ∈ placesBelow d rest} := by
  rcases h.closed d List.mem_cons_self names hdir with hmem | hmem
  · refine .inr (mem_placesBelow.mpr ⟨(List.mem_cons.mp hmem).resolve_left fun hsame => hne ?_, List.prefix_append _ _⟩)
    simpa using hsame
  · exact .inl hmem

/-- The directory that holds the first one has not been dealt with. -/
lemma AreLeft.dropLast_notMem : d.dropLast ∉ handled ∪ {q | q ∈ placesBelow d rest} := by
  have hbegins : d.dropLast <+: d := List.dropLast_prefix d
  rintro (hmem | hmem)
  · exact h.fresh d List.mem_cons_self _ hmem hbegins
  · exact (List.pairwise_cons.mp h.ordered).1 _ (mem_placesBelow.mp hmem).1 hbegins

omit h in
lemma mem_split {q : Place} : q ∈ insert d (handled ∪ {q | q ∈ placesBelow d rest}) ∪ {q | q ∈ placesBeside d rest} ↔
    q ∈ handled ∪ {q | q ∈ d :: rest} := by
  simp only [Set.mem_union, Set.mem_insert_iff, Set.mem_ofPred_eq, mem_placesBelow, mem_placesBeside, List.mem_cons]
  tauto

end Order

/-- A directory and those below it stand in that order. -/
lemma areLeft_branch {t : FileTree} {place : Place} (hdir : DirectoryAt t place) : AreLeft t ∅ (branch t place) where
  ordered := by
    -- what is above a place comes before it in the order of the tree
    have hnot : ∀ {a b : Place}, compare a b = .lt → ¬b <+: a := by
      rintro a b hlt ⟨names, rfl⟩
      cases names with
      | nil =>
        have hsame : compare b b = .eq := Std.ReflCmp.compare_self
        rw [List.append_nil, hsame] at hlt
        cases hlt
      | cons name more =>
        rw [Std.OrientedCmp.gt_of_lt (compare_below b name more)] at hlt
        cases hlt
    have hbelow : (t.below place).Pairwise fun a b => compare (place ++ a.1) (place ++ b.1) = .lt :=
      pairwise_below (r := fun a b => compare a b = .lt) place t.nodes.increasing
    refine List.pairwise_cons.mpr ⟨fun d hd => ?_, List.pairwise_map.mpr (hbelow.filterMap _ ?_)⟩
    · obtain ⟨names, hnames, rfl⟩ := List.mem_map.mp hd
      obtain ⟨name, more, rfl⟩ := List.exists_cons_of_ne_nil (mem_directoriesBelow.mp hnames).1
      exact hnot (compare_below place name more)
    · rintro ⟨names, node⟩ ⟨names', node'⟩ hlt a ha b hb
      cases node with
      | file | link => cases ha
      | directory mode =>
        cases node' with
        | file | link => cases hb
        | directory mode' =>
          cases ha
          cases hb
          exact hnot hlt
  dirs := directoryAt_of_mem_branch hdir
  closed := by
    intro d hd names hbelow
    exact .inl ((mem_branch hdir).mpr ⟨((mem_branch hdir).mp hd).1.trans (List.prefix_append _ _), hbelow⟩)
  fresh := fun _ _ q hq => (Set.notMem_empty q hq).elim

/-! ### What goes -/

/-- From a tree to the one in which those of some directories are gone that lead to nothing but
directories, each from a directory that it may be removed from. -/
structure Pruned (t t' : FileTree) (handled : Set Place) : Prop where
  gone : ∀ q ∈ handled, OnlyDirectories t q → t'.get? q = none
  kept : ∀ q, ¬(q ∈ handled ∧ OnlyDirectories t q) → t'.get? q = t.get? q
  removable : ∀ d ∈ handled, OnlyDirectories t d → t.checkDirectory d.dropLast FileTree.writeBit = .ok ()

lemma pruned_refl (t : FileTree) : Pruned t t ∅ := ⟨by simp, fun _ _ => rfl, by simp⟩

/-- How a walk ends that has dealt with some directories of a tree and has some left. -/
inductive PruneEnds (t : FileTree) (canList : Place → Bool) (handled : Set Place) (directories : List Place) :
    FileTree × Option HandoffError → Prop
  | done {t' : FileTree} (pruned : Pruned t t' (handled ∪ {q | q ∈ directories}))
      (listed : ∀ d ∈ directories, canList d = true) : PruneEnds t canList handled directories (t', none)
  /-- One that cannot be listed stops it. -/
  | unlisted {t' : FileTree} {reached : Set Place} {d : Place} (pruned : Pruned t t' reached)
      (sub : reached ⊆ handled ∪ {q | q ∈ directories}) (mem : d ∈ directories) (closed : canList d = false) :
      PruneEnds t canList handled directories (t', some .walk)
  /-- One that leads to nothing but directories stands where none can be removed. -/
  | held {t' : FileTree} {reached : Set Place} {d : Place} {fault : FileFault} (pruned : Pruned t t' reached)
      (sub : reached ⊆ handled ∪ {q | q ∈ directories}) (mem : d ∈ directories) (hollow : OnlyDirectories t d)
      (held : t.checkDirectory d.dropLast FileTree.writeBit = .error fault) :
      PruneEnds t canList handled directories (t', some (.file fault))

/-- A walk that is stopped early is stopped with more left as well. -/
lemma PruneEnds.stopped {t t' : FileTree} {canList : Place → Bool} {handled handled' : Set Place}
    {directories directories' : List Place} {error : HandoffError}
    (h : PruneEnds t canList handled directories (t', some error))
    (hsub : handled ∪ {q | q ∈ directories} ⊆ handled' ∪ {q | q ∈ directories'})
    (hmem : ∀ d ∈ directories, d ∈ directories') : PruneEnds t canList handled' directories' (t', some error) := by
  cases h with
  | unlisted hpruned hreached hd hclosed => exact .unlisted hpruned (hreached.trans hsub) (hmem _ hd) hclosed
  | held hpruned hreached hd hollow hheld => exact .held hpruned (hreached.trans hsub) (hmem _ hd) hollow hheld

/-- Once the first directory and all below it have been dealt with, the rest of the walk ends it. -/
lemma PruneEnds.onward {t : FileTree} {canList : Place → Bool} {handled : Set Place} {d : Place} {rest : List Place}
    {result : FileTree × Option HandoffError}
    (h : PruneEnds t canList (insert d (handled ∪ {q | q ∈ placesBelow d rest})) (placesBeside d rest) result)
    (hlist : canList d = true) (hlisted : ∀ d' ∈ placesBelow d rest, canList d' = true) :
    PruneEnds t canList handled (d :: rest) result := by
  cases h with
  | done hpruned hlistedRest =>
    rw [Set.ext fun _ => mem_split] at hpruned
    refine .done hpruned fun d' hd' => ?_
    rcases List.mem_cons.mp hd' with rfl | hd'
    · exact hlist
    · by_cases hd : d <+: d'
      · exact hlisted d' (mem_placesBelow.mpr ⟨hd', hd⟩)
      · exact hlistedRest d' (mem_placesBeside.mpr ⟨hd', hd⟩)
  | unlisted hpruned hreached hd' hclosed =>
    exact .unlisted hpruned (fun q hq => mem_split.mp (hreached hq)) (mem_of_mem_placesBeside hd') hclosed
  | held hpruned hreached hd' hollow hheld =>
    exact .held hpruned (fun q hq => mem_split.mp (hreached hq)) (mem_of_mem_placesBeside hd') hollow hheld

section Prune

variable {t : FileTree} (ht : Rooted t) {now : Instant} {handled : Set Place} {d : Place} {rest : List Place}

include ht

/-- In a tree where all stands in directories, all above something is there too. -/
lemma Rooted.get?_front {place : Place} (names : Place) (h : t.get? (place ++ names) ≠ none) : t.get? place ≠ none := by
  induction names using List.reverseRecOn with
  | nil => rwa [List.append_nil] at h
  | append_singleton names name ih =>
    rw [← List.append_assoc] at h
    obtain ⟨mode, hmode⟩ := ht _ _ h
    exact ih (by simp [hmode])

/-- Where all directories below one have been dealt with, it is empty just if it led to nothing but
directories. -/
lemma Rooted.isEmptied_iff {t' : FileTree} (hpruned : Pruned t t' (handled ∪ {q | q ∈ placesBelow d rest}))
    (hleft : AreLeft t handled (d :: rest)) : (∀ name, t'.get? (d ++ [name]) = none) ↔ OnlyDirectories t d := by
  constructor
  · intro hnone names node hnode
    cases names with
    | nil =>
      obtain ⟨mode, hmode⟩ := hleft.dirs d List.mem_cons_self
      rw [List.append_nil, hmode] at hnode
      exact ⟨mode, (Option.some.inj hnode).symm⟩
    | cons name more =>
      have hsplit : d ++ name :: more = (d ++ [name]) ++ more := by simp
      rw [hsplit] at hnode
      have hthere : t.get? (d ++ [name]) ≠ none := by
        refine ht.get?_front more ?_
        rw [hnode]
        simp
      by_cases hgone : d ++ [name] ∈ handled ∪ {q | q ∈ placesBelow d rest} ∧ OnlyDirectories t (d ++ [name])
      · exact hgone.2 more node hnode
      · rw [← hpruned.kept _ hgone] at hthere
        exact (hthere (hnone name)).elim
  · intro honly name
    have hbelow : OnlyDirectories t (d ++ [name]) := by
      intro more node hnode
      rw [List.append_assoc] at hnode
      exact honly _ node hnode
    cases hget : t.get? (d ++ [name]) with
    | some node =>
      obtain ⟨mode, rfl⟩ := honly [name] node hget
      exact hpruned.gone _ (hleft.mem_below (by simp) ⟨mode, hget⟩) hbelow
    | none =>
      by_cases hmem : d ++ [name] ∈ handled ∪ {q | q ∈ placesBelow d rest}
      · exact hpruned.gone _ hmem hbelow
      · rw [hpruned.kept _ fun h => hmem h.1, hget]

/-- What dealing with a directory does once all below it has been dealt with: it goes if it leads to nothing
but directories, unless it is held. -/
lemma Rooted.removeIfEmpty {t' : FileTree} (hpruned : Pruned t t' (handled ∪ {q | q ∈ placesBelow d rest}))
    (hleft : AreLeft t handled (d :: rest)) (now : Instant) :
    (∃ next, removeIfEmpty t' d now = .ok next ∧ Pruned t next (insert d (handled ∪ {q | q ∈ placesBelow d rest}))) ∨
      ∃ fault, removeIfEmpty t' d now = .error fault ∧ OnlyDirectories t d ∧
        t.checkDirectory d.dropLast FileTree.writeBit = .error fault := by
  have hemptied := ht.isEmptied_iff hpruned hleft
  -- the directory that holds it has not been touched
  have hcheck : t'.checkDirectory d.dropLast FileTree.writeBit = t.checkDirectory d.dropLast FileTree.writeBit :=
    checkDirectory_congr (hpruned.kept _ fun h => hleft.dropLast_notMem h.1) _
  by_cases hollow : OnlyDirectories t d
  · rw [removeIfEmpty_of_hollow (hemptied.mpr hollow), hcheck]
    cases hheld : t.checkDirectory d.dropLast FileTree.writeBit with
    | error fault => exact .inr ⟨fault, rfl, hollow, rfl⟩
    | ok u =>
      have hne : d ≠ [] := by
        rintro rfl
        cases hheld
      refine .inl ⟨_, rfl, ?_, ?_, ?_⟩
      · rintro q (rfl | hq) honly
        · rw [get?_changed, get?_erase_place, if_pos ⟨rfl, hne⟩]
        · rw [get?_changed, get?_erase_place, hpruned.gone q hq honly, ite_self]
      · intro q hq
        have hother : q ≠ d := by
          rintro rfl
          exact hq ⟨.inl rfl, hollow⟩
        rw [get?_changed, get?_erase_place, if_neg fun h => hother h.1]
        exact hpruned.kept q fun h => hq ⟨.inr h.1, h.2⟩
      · rintro q (rfl | hq)
        · exact fun _ => hheld
        · exact hpruned.removable q hq
  · rw [removeIfEmpty_of_filled fun hempty => hollow (hemptied.mp hempty)]
    refine .inl ⟨_, rfl, ?_, fun q hq => hpruned.kept q fun h => hq ⟨.inr h.1, h.2⟩, ?_⟩
    · rintro q (rfl | hq) honly
      · exact (hollow honly).elim
      · exact hpruned.gone q hq honly
    · rintro q (rfl | hq) honly
      · exact (hollow honly).elim
      · exact hpruned.removable q hq honly

/-- Pruning goes on until a directory cannot be listed, or one that has to go stands where none can be
removed. -/
theorem prune_ends (canList : Place → Bool) (now : Instant) {s : FileTree} {directories : List Place}
    (hpruned : Pruned t s handled) (hleft : AreLeft t handled directories) :
    PruneEnds t canList handled directories (prune canList now s directories) := by
  induction s, directories using prune.induct canList now generalizing handled with
  | case1 s =>
    rw [prune]
    exact .done (by simpa using hpruned) (by simp)
  | case2 s d rest hlist between error hbelow ih =>
    have hends := ih hpruned hleft.below
    rw [hbelow] at hends
    rw [prune, if_pos hlist, hbelow]
    refine hends.stopped ?_ fun _ => mem_of_mem_placesBelow
    exact Set.union_subset_union_right _ fun _ => mem_of_mem_placesBelow
  | case3 s d rest hlist between hbelow next hnext ihBelow ihBeside =>
    have hends := ihBelow hpruned hleft.below
    rw [hbelow] at hends
    rw [prune, if_pos hlist, hbelow]
    dsimp only
    cases hends with
    | done hbetween hlisted =>
      obtain ⟨_, hremoved, hdealt⟩ | ⟨_, hfailed, _⟩ := ht.removeIfEmpty hbetween hleft now
      · rw [hnext] at hremoved
        cases hremoved
        have hrest := ihBeside hdealt hleft.beside
        rw [hnext]
        exact hrest.onward hlist hlisted
      · rw [hnext] at hfailed
        cases hfailed
  | case4 s d rest hlist between hbelow fault hfault ih =>
    have hends := ih hpruned hleft.below
    rw [hbelow] at hends
    rw [prune, if_pos hlist, hbelow]
    dsimp only
    rw [hfault]
    cases hends with
    | done hbetween hlisted =>
      obtain ⟨_, hremoved, _⟩ | ⟨_, hfailed, hollow, hheld⟩ := ht.removeIfEmpty hbetween hleft now
      · rw [hfault] at hremoved
        cases hremoved
      · rw [hfault] at hfailed
        cases hfailed
        refine .held hbetween ?_ List.mem_cons_self hollow hheld
        exact Set.union_subset_union_right _ fun _ => mem_of_mem_placesBelow
  | case5 s d rest hlist =>
    rw [prune, if_neg hlist]
    exact .unlisted hpruned Set.subset_union_left List.mem_cons_self (by simpa using hlist)

end Prune

end CrossBuild.Proofs
