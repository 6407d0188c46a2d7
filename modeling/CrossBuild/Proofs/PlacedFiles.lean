import CrossBuild.Proofs.OpenPaths
import CrossBuild.Proofs.Pruning
import CrossBuild.Proofs.StepsUp

/-!
# Files that are put where there is room

Whether a file can be put somewhere below an open path is seen from the tree alone: along its names there
is nothing or a directory to go on in, what is missing can be made, and no directory stands at its own
place. Where there is room, the directories above the file are made and the file is put there, and no
other place of the tree changes. One file leaves the room for others unless one of the two would have to be
a directory above the other, so files that do not stand in each other's way can be put one after another.
-/

namespace CrossBuild.Proofs
open FileTree

/-! ### Directories on the way -/

/-- One tree is another one with all directories made that were missing on the way to a place. -/
structure Prepared (t t' : FileTree) (place : Place) : Prop where
  current : t'.current = t.current
  nodes : ∀ q, t'.get? q =
    if t.get? q = none ∧ q <+: place then some (.directory directoryMode) else t.get? q

/-- Along the names from a place, each directory is there and can be searched, or it can be made. -/
def HasWay (t : FileTree) (w front : Place) : Prop :=
  ∀ before name, before ++ [name] <+: front →
    t.get? (w ++ (before ++ [name])) = none ∧
        (t.get? (w ++ before) = none ∨ t.checkDirectory (w ++ before) writeBit = .ok ()) ∨
      t.checkDirectory (w ++ (before ++ [name])) searchBit = .ok ()

lemma HasWay.mono {t : FileTree} {w front front' : Place} (h : HasWay t w front) (hfront : front' <+: front) :
    HasWay t w front' :=
  fun before name hbefore => h before name (hbefore.trans hfront)

lemma checkDirectory_of_get? {t : FileTree} {place : Place} {bit : Nat}
    (h : t.get? place = some (.directory directoryMode)) (hbit : allows directoryMode bit = true) :
    t.checkDirectory place bit = .ok () := by
  rw [checkDirectory, h]
  exact if_pos hbit

section Prepare

variable {t t' : FileTree} {place : Place}

lemma Rooted.get?_of_prefix (ht : Rooted t) {q : Place} (h : t.get? place ≠ none) (hq : q <+: place) :
    t.get? q ≠ none := by
  obtain ⟨rest, rfl⟩ := hq
  exact ht.get?_front rest h

lemma prepared_refl (ht : Rooted t) (hdir : DirectoryAt t place) : Prepared t t place := by
  refine ⟨rfl, fun q => (if_neg ?_).symm⟩
  rintro ⟨hnone, hq⟩
  obtain ⟨mode, hmode⟩ := hdir
  exact ht.get?_of_prefix (by simp [hmode]) hq hnone

lemma Prepared.preserves (h : Prepared t t' place) : Preserves t t' where
  current := h.current
  directories := by
    intro q mode hdir
    rw [h.nodes, if_neg (by simp [hdir]), hdir]
  links := by
    intro q target hlink
    rw [h.nodes, if_neg (by simp [hlink]), hlink]

/-- A directory that was missing can be searched and written once it is made. -/
lemma Prepared.check (h : Prepared t t' place) {q : Place} (hq : q <+: place) {bit : Nat}
    (hbit : allows directoryMode bit = true)
    (hcheck : t.get? q = none ∨ t.checkDirectory q bit = .ok ()) : t'.checkDirectory q bit = .ok () := by
  rcases hcheck with hnone | hcheck
  · have hmade := h.nodes q
    rw [if_pos ⟨hnone, hq⟩] at hmade
    exact checkDirectory_of_get? hmade hbit
  · exact h.preserves.check hcheck

/-- All directories on the way can be searched when they are made. -/
lemma Prepared.check_way {w front : Place} (h : Prepared t t' (w ++ front)) (hway : HasWay t w front)
    (hcheck : t.checkDirectory w searchBit = .ok ()) {before : Place} (hbefore : before <+: front) :
    t'.checkDirectory (w ++ before) searchBit = .ok () := by
  refine h.check ((List.prefix_append_right_inj w).mpr hbefore) (by decide) ?_
  rcases List.eq_nil_or_concat before with rfl | ⟨init, name, rfl⟩
  · rw [List.append_nil]
    exact .inr hcheck
  · rw [List.concat_eq_append] at hbefore ⊢
    exact (hway init name hbefore).imp_left And.left

/-- What comes after the place is as it was. -/
lemma Prepared.get?_next {w before : Place} {name : String} (h : Prepared t t' (w ++ before)) :
    t'.get? (w ++ (before ++ [name])) = t.get? (w ++ (before ++ [name])) := by
  rw [h.nodes, if_neg]
  rintro ⟨_, hbegins⟩
  have hlength := hbegins.length_le
  simp only [List.length_append, List.length_singleton] at hlength
  omega

lemma Prepared.trans_set {w before : Place} {name : String} (h : Prepared t t' (w ++ before))
    (hnone : t'.get? (w ++ (before ++ [name])) = none) (changes : SortedMap Place Instant) :
    Prepared t (dated (t'.set (w ++ (before ++ [name])) (.directory directoryMode)) changes)
      (w ++ (before ++ [name])) := by
  refine ⟨h.current, fun q => ?_⟩
  have hold := h.nodes (w ++ (before ++ [name]))
  rw [hnone] at hold
  have hfree : t.get? (w ++ (before ++ [name])) = none := by
    split at hold
    · cases hold
    · exact hold.symm
  rw [get?_dated, get?_set]
  by_cases hq : q = w ++ (before ++ [name])
  · subst hq
    rw [if_pos ⟨rfl, by simp⟩, if_pos ⟨hfree, List.prefix_rfl⟩]
  · have hbegins : q <+: w ++ (before ++ [name]) ↔ q <+: w ++ before := by
      rw [← List.append_assoc, List.prefix_concat_iff, List.append_assoc]
      exact or_iff_right hq
    rw [if_neg fun h => hq h.1, h.nodes]
    exact if_congr (and_congr_right fun _ => hbegins.symm) rfl rfl

lemma Prepared.trans_there {w before : Place} {name : String} (h : Prepared t t' (w ++ before))
    (hthere : t.get? (w ++ (before ++ [name])) ≠ none) : Prepared t t' (w ++ (before ++ [name])) := by
  refine ⟨h.current, fun q => ?_⟩
  rw [h.nodes]
  refine if_congr (and_congr_right fun hnone => ?_) rfl rfl
  rw [← List.append_assoc, List.prefix_concat_iff, List.append_assoc]
  refine (or_iff_right ?_).symm
  rintro rfl
  exact hthere hnone

end Prepare

/-! ### Walks below an open path -/

section Walks

variable {t : FileTree} {base path : String} {w names : Place}

lemma passes_names {left : Nat} (hsizes : ∀ name ∈ names, name.utf8ByteSize ≤ longestName)
    (hcheck : ∀ before, before <+: names → t.checkDirectory (w ++ before) searchBit = .ok ()) :
    Passes t left w (names.map .into) left (w ++ names) := by
  induction names generalizing w with
  | nil =>
    have hhere := hcheck [] List.prefix_rfl
    rw [List.append_nil] at hhere ⊢
    exact .done hhere
  | cons name rest ih =>
    rw [List.forall_mem_cons] at hsizes
    have hshape : ∀ before, w ++ [name] ++ before = w ++ name :: before := by simp
    have hhere := hcheck [] List.nil_prefix
    rw [List.append_nil] at hhere
    have hnext := hcheck [name] ⟨rest, rfl⟩
    obtain ⟨mode, hmode⟩ := directoryAt_of_check hnext
    have hrest := ih (w := w ++ [name]) hsizes.2 fun before hbefore => by
      rw [hshape]
      exact hcheck _ (List.cons_prefix_cons.mpr ⟨rfl, hbefore⟩)
    rw [hshape] at hrest
    exact .into hhere hsizes.1 hmode hrest

/-- A path that goes on from an open one through directories is open. -/
lemma Opens.along (h : Opens t base w) (hpath : LiesBelow base names path)
    (hsizes : ∀ name ∈ names, name.utf8ByteSize ≤ longestName)
    (hcheck : ∀ before, before <+: names → t.checkDirectory (w ++ before) searchBit = .ok ()) :
    Opens t path (w ++ names) := by
  obtain ⟨left, hpasses⟩ := h
  refine ⟨left, ?_⟩
  rw [startOf, hpath.start, hpath.steps]
  exact hpasses.trans (passes_names hsizes hcheck)

/-- Where a walk ends that goes on from an open path through directories to one more name. -/
lemma Opens.spotOfSteps_name {front : Place} {name : String} (h : Opens t base w)
    (hpath : LiesBelow base (front ++ [name]) path)
    (hsizes : ∀ other ∈ front ++ [name], other.utf8ByteSize ≤ longestName)
    (hcheck : ∀ before, before <+: front → t.checkDirectory (w ++ before) searchBit = .ok ())
    (hlink : ∀ target, t.get? (w ++ (front ++ [name])) ≠ some (.link target)) (followLast : Bool) :
    t.spotOfSteps followLast path ((activePieces path).map stepOf) =
      .ok (if t.get? (w ++ (front ++ [name])) = none then .free (w ++ front) name
        else .taken (w ++ (front ++ [name]))) := by
  obtain ⟨left, hpasses⟩ := h
  have hsize : name.utf8ByteSize ≤ longestName := hsizes name (by simp)
  have hpasses' := hpasses.trans
    (passes_names (fun other hother => hsizes other (List.mem_append_left _ hother)) hcheck)
  unfold FileTree.spotOfSteps
  rw [hpath.start, hpath.steps, List.map_append, List.map_singleton, ← List.append_assoc]
  refine (hpasses'.walkLinks (.inl (by simp))).trans ?_
  rw [walkLinks, walk.eq_def]
  simp only [hpasses'.check_end, if_neg (Nat.not_lt.mpr hsize), List.append_assoc]
  split
  · rename_i hnone
    rw [hnone]
    rfl
  · rename_i target hnode
    exact (hlink target hnode).elim
  · rename_i node _ hnode
    rw [hnode]
    rfl

end Walks

/-! ### Making what is missing -/

/-- The path is on the way from the start of another one to the end of some names after that one. -/
structure OnWay (base : String) (front : Place) (path : String) : Prop where
  start : Path.isAbsolute path = Path.isAbsolute base
  steps : (activePieces path).map stepOf = (activePieces base).map stepOf ++ front.map .into ∨
    front = [] ∧ (activePieces path).map stepOf <+: (activePieces base).map stepOf

section Make

variable {t t' : FileTree} {base path : String} {w front : Place} {now : Instant}

lemma OnWay.liesBelow (h : OnWay base front path) (hne : front ≠ []) : LiesBelow base front path :=
  ⟨h.start, h.steps.resolve_right fun hback => hne hback.1⟩

lemma OnWay.within (h : OnWay base [] path) : (activePieces path).map stepOf <+: (activePieces base).map stepOf := by
  rcases h.steps with hsteps | ⟨_, hbegins⟩
  · rw [hsteps]
    simp
  · exact hbegins

lemma OnWay.parent {above : String} {piece : List Char} (h : OnWay base front path) (hne : above ≠ "")
    (hpieces : activePieces path = activePieces above ++ [piece]) {rest : String} (hrest : path = above ++ rest) :
    OnWay base front.dropLast above := by
  have hstart : Path.isAbsolute above = Path.isAbsolute base := by
    rw [← h.start, hrest, isAbsolute_append hne]
  refine ⟨hstart, ?_⟩
  have hsteps : (activePieces path).map stepOf = (activePieces above).map stepOf ++ [stepOf piece] := by
    rw [hpieces, List.map_append, List.map_singleton]
  rcases List.eq_nil_or_concat front with rfl | ⟨init, name, rfl⟩
  · have hwithin := h.within
    rw [hsteps] at hwithin
    exact .inr ⟨rfl, (List.prefix_append _ _).trans hwithin⟩
  · have hbelow := (h.liesBelow (by simp)).steps
    rw [hsteps, List.concat_eq_append, List.map_append, List.map_singleton, ← List.append_assoc] at hbelow
    rw [List.concat_eq_append, List.dropLast_concat]
    exact .inl (List.append_inj_left' hbelow rfl)

section Next

variable {before : Place} {name : String} (h : Prepared t t' (w ++ before)) (hopens : Opens t base w)
  (hway : HasWay t w (before ++ [name])) (hsizes : ∀ other ∈ before ++ [name], other.utf8ByteSize ≤ longestName)
  (hbelow : LiesBelow base (before ++ [name]) path)

include h hopens hway hsizes hbelow

/-- A directory that is missing is made in the one before it. -/
lemma Prepared.ensureDirectory_missing (hends : EndsActive path) (hnone : t.get? (w ++ (before ++ [name])) = none) :
    ∃ t'', t'.ensureDirectory path now = .ok t'' ∧ Prepared t t'' (w ++ (before ++ [name])) := by
  have hfree : t'.get? (w ++ (before ++ [name])) = none := h.get?_next.trans hnone
  have hwritable : t'.checkDirectory (w ++ before) writeBit = .ok () := by
    refine h.check List.prefix_rfl (by decide) ?_
    rcases hway before name List.prefix_rfl with ⟨_, hwritable⟩ | hthere
    · exact hwritable
    · obtain ⟨mode, hmode⟩ := directoryAt_of_check hthere
      rw [hnone] at hmode
      cases hmode
  have hspot := (hopens.mono h.preserves).spotOfSteps_name hbelow hsizes
    (fun q => h.check_way (hway.mono (List.prefix_append before [name])) hopens.check) (by simp [hfree]) false
  rw [if_pos hfree] at hspot
  have hmake : ∃ changes, t'.makeDirectory path now =
      .ok (dated (t'.set (w ++ (before ++ [name])) (.directory directoryMode)) changes) := by
    rw [makeDirectory, hends.withoutEndSlashes, hends.stepsOf, hspot]
    simp only [bind, Except.bind, FileTree.add, hwritable, List.append_assoc]
    exact ⟨_, rfl⟩
  obtain ⟨changes, hmake⟩ := hmake
  refine ⟨_, ?_, h.trans_set hfree changes⟩
  unfold FileTree.ensureDirectory
  rw [hmake]

/-- A directory that is there stays as it is. -/
lemma Prepared.ensureDirectory_there (hcheck : checkPath path = .ok ())
    (hthere : t.get? (w ++ (before ++ [name])) ≠ none) :
    t'.ensureDirectory path now = .ok t' ∧ Prepared t t' (w ++ (before ++ [name])) := by
  have hsearch := (hway before name List.prefix_rfl).resolve_left fun hnone => hthere hnone.1
  have hopened : Opens t' path (w ++ (before ++ [name])) := by
    refine (hopens.mono h.preserves).along hbelow hsizes fun q hq => ?_
    rcases List.prefix_concat_iff.mp hq with rfl | hq
    · exact h.preserves.check hsearch
    · exact h.check_way (hway.mono (List.prefix_append before [name])) hopens.check hq
  exact ⟨hopened.ensureDirectory hcheck now, h.trans_there hthere⟩

end Next

/-- One more directory on the way is there or is made. -/
lemma Prepared.ensureDirectory (h : Prepared t t' (w ++ front.dropLast)) (hopens : Opens t base w)
    (hway : HasWay t w front) (hsizes : ∀ name ∈ front, name.utf8ByteSize ≤ longestName)
    (hpath : OnWay base front path) (hends : activePieces path = [] ∨ EndsActive path)
    (hcheck : checkPath path = .ok ()) :
    ∃ t'', t'.ensureDirectory path now = .ok t'' ∧ Prepared t t'' (w ++ front) := by
  rcases List.eq_nil_or_concat front with rfl | ⟨before, name, rfl⟩
  · obtain ⟨q, hq⟩ := (hopens.mono h.preserves).front hpath.start hpath.within
    exact ⟨t', hq.ensureDirectory hcheck now, h⟩
  rw [List.concat_eq_append] at *
  rw [List.dropLast_concat] at h
  have hbelow := hpath.liesBelow (by simp)
  by_cases hthere : t.get? (w ++ (before ++ [name])) = none
  · have hactive : activePieces path ≠ [] := by
      intro hnil
      have hsteps := hbelow.steps
      rw [hnil] at hsteps
      simp at hsteps
    exact h.ensureDirectory_missing hopens hway hsizes hbelow (hends.resolve_left hactive) hthere
  · exact ⟨t', h.ensureDirectory_there hopens hway hsizes hbelow hcheck hthere⟩

lemma ensureEach_append {paths : List String} (path : String) (h : t.ensureEach now paths = (t', none)) :
    t.ensureEach now (paths ++ [path]) = t'.ensureEach now [path] := by
  induction paths generalizing t with
  | nil =>
    cases h
    rfl
  | cons first rest ih =>
    rw [List.cons_append, ensureEach]
    rw [ensureEach] at h
    split at h
    · exact ih h
    · cases h

lemma ensureEach_singleton (h : t.ensureDirectory path now = .ok t') : t.ensureEach now [path] = (t', none) := by
  rw [ensureEach, h]
  rfl

lemma checkPath_of_append {front back : String} (h : checkPath (front ++ back) = .ok ()) (hne : front ≠ "") :
    checkPath front = .ok () := by
  obtain ⟨hzero, hlong, _⟩ := checkPath_iff.mp h
  rw [String.toList_append, List.mem_append, not_or] at hzero
  rw [String.utf8ByteSize_append] at hlong
  exact checkPath_iff.mpr ⟨hzero.1, by omega, hne⟩

section Ancestors

variable (now) (ht : Rooted t) (hopens : Opens t base w) (hway : HasWay t w front)
  (hsizes : ∀ name ∈ front, name.utf8ByteSize ≤ longestName) (hpath : OnWay base front path)
  (hends : activePieces path = [] ∨ EndsActive path) (hcheck : checkPath path = .ok ())

include ht hopens hway hsizes hpath hends hcheck

/-- A path with one piece at most has nothing above it that would have to be made. -/
lemma ensureEach_short (hone : (activePieces path).length ≤ 1) :
    ∃ t', t.ensureEach now [path] = (t', none) ∧ Prepared t t' (w ++ front) := by
  have hfront : front.dropLast = [] := by
    rcases hpath.steps with hsteps | ⟨rfl, _⟩
    · have hlength := congrArg List.length hsteps
      simp only [List.length_map, List.length_append] at hlength
      rw [← List.length_eq_zero_iff, List.length_dropLast]
      omega
    · rfl
  have hfirst : Prepared t t (w ++ front.dropLast) := by
    rw [hfront, List.append_nil]
    exact prepared_refl ht (directoryAt_of_check hopens.check)
  obtain ⟨t', hensure, hprepared⟩ := hfirst.ensureDirectory hopens hway hsizes hpath hends hcheck
  exact ⟨t', ensureEach_singleton hensure, hprepared⟩

/-- All directories on the way to a path are made, each after the one above it. -/
lemma ensureEach_ancestors (n : Nat) (hn : (activePieces path).length ≤ n) :
    ∃ t', t.ensureEach now (Path.ancestorsWithin n path ++ [path]) = (t', none) ∧ Prepared t t' (w ++ front) := by
  induction n generalizing path front with
  | zero =>
    exact ensureEach_short now ht hopens hway hsizes hpath hends hcheck (hn.trans (Nat.zero_le 1))
  | succ n ih =>
    have hshort := ensureEach_short now ht hopens hway hsizes hpath hends hcheck
    by_cases hidle : activePieces path = []
    · have hnone : Path.ancestorsWithin (n + 1) path = [] := by
        rw [Path.ancestorsWithin]
        rcases parent?_of_idle hidle with hparent | hparent
        · rw [hparent]
        · rw [hparent]
          rfl
      rw [hnone]
      exact hshort (by simp [hidle])
    · obtain ⟨above, piece, hparent, hpieces, hendsAbove, rest, hrest⟩ := parent?_of_active hidle
      rw [Path.ancestorsWithin, hparent]
      dsimp only
      by_cases hempty : above = ""
      · have hnone : activePieces "" = [] := by decide
        have hone : (activePieces path).length ≤ 1 := by
          rw [hpieces, hempty, hnone]
          exact le_rfl
        rw [if_pos (by simp [hempty])]
        exact hshort hone
      · rw [if_neg (by simpa using hempty)]
        have hlength : (activePieces above).length ≤ n := by
          rw [hpieces, List.length_append, List.length_singleton] at hn
          omega
        have hfront := List.dropLast_prefix front
        obtain ⟨made, hmade, hprepared⟩ := ih (hway.mono hfront)
          (fun name hname => hsizes name (hfront.subset hname)) (hpath.parent hempty hpieces hrest) hendsAbove
          (checkPath_of_append (hrest ▸ hcheck) hempty) hlength
        obtain ⟨t', hensure, hdone⟩ := hprepared.ensureDirectory hopens hway hsizes hpath hends hcheck
        exact ⟨t', (ensureEach_append path hmade).trans (ensureEach_singleton hensure), hdone⟩

/-- A directory can be made with all above it where the way is free. -/
lemma makeDirectories_prepares :
    ∃ t', t.makeDirectories path now = (t', none) ∧ Prepared t t' (w ++ front) := by
  obtain ⟨t', hensure, hprepared⟩ := ensureEach_ancestors now ht hopens hway hsizes hpath hends hcheck
    path.length (length_activePieces path)
  refine ⟨t', ?_, hprepared⟩
  have hne : path ≠ "" := by
    rintro rfl
    cases hcheck
  rw [makeDirectories, if_neg (by simpa using hne), hcheck]
  exact hensure

end Ancestors

/-- So can all directories above something on such a way. -/
lemma makeParents_prepares (ht : Rooted t) (hopens : Opens t base w) {target : String} {names : Place}
    (htarget : LiesBelow base names target) (hne : names ≠ []) (hway : HasWay t w names.dropLast)
    (hsizes : ∀ name ∈ names, name.utf8ByteSize ≤ longestName) (hcheck : checkPath target = .ok ())
    (now : Instant) : ∃ t', t.makeDirectories ((Path.parent? target).getD "") now = (t', none) ∧
      Prepared t t' (w ++ names.dropLast) := by
  have hsteps := congrArg List.length htarget.steps
  simp only [List.length_map, List.length_append] at hsteps
  have hlength := List.length_pos_iff.mpr hne
  have hactive : activePieces target ≠ [] := by
    rw [← List.length_pos_iff]
    omega
  obtain ⟨above, piece, hparent, hpieces, hends, rest, hrest⟩ := parent?_of_active hactive
  rw [hparent, Option.getD_some]
  by_cases hempty : above = ""
  · have hnone : activePieces "" = [] := by decide
    rw [hpieces, hempty, hnone] at hsteps
    have hfront : names.dropLast = [] := by
      rw [← List.length_eq_zero_iff, List.length_dropLast]
      simp only [List.nil_append, List.length_singleton] at hsteps
      omega
    rw [hempty, hfront, List.append_nil]
    exact ⟨t, rfl, prepared_refl ht (directoryAt_of_check hopens.check)⟩
  · have honWay : OnWay base names target := ⟨htarget.start, .inl htarget.steps⟩
    exact makeDirectories_prepares now ht hopens hway
      (fun name hname => hsizes name ((List.dropLast_prefix names).subset hname))
      (honWay.parent hempty hpieces hrest) hends (checkPath_of_append (hrest ▸ hcheck) hempty)

end Make

/-! ### Room for a file -/

/-- There is room for a file with these names below a place. -/
structure Admits (t : FileTree) (w names : Place) : Prop where
  sizes : ∀ name ∈ names, name.utf8ByteSize ≤ longestName
  way : HasWay t w names.dropLast
  /-- The directory for the file can be written if it is there. -/
  writable : t.get? (w ++ names.dropLast) = none ∨ t.checkDirectory (w ++ names.dropLast) writeBit = .ok ()
  free : t.get? (w ++ names) = none ∨ ∃ f, t.get? (w ++ names) = some (.file f)

/-- One tree is another one with a file put at a place, and with the directories that were missing for it. -/
structure Filed (t t' : FileTree) (place : Place) (f : File) : Prop where
  current : t'.current = t.current
  free : t.get? place = none ∨ ∃ old, t.get? place = some (.file old)
  nodes : ∀ q, t'.get? q =
    if q = place then some (.file f)
    else if t.get? q = none ∧ q <+: place then some (.directory directoryMode) else t.get? q

section Room

variable {t : FileTree} {base target : String} {w names : Place} {now : Instant}

/-- Where there is room for a file it can be put, with the directories above it made before. -/
theorem placed_of_admits (ht : Rooted t) (hopens : Opens t base w) (htarget : LiesBelow base names target)
    (hne : names ≠ []) (hends : EndsActive target) (hcheck : checkPath target = .ok ()) (hroom : Admits t w names)
    (f : File) : ∃ made t', t.makeDirectories ((Path.parent? target).getD "") now = (made, none) ∧
      made.replace target f now = .ok t' ∧ Filed t t' (w ++ names) f := by
  obtain ⟨made, hmade, hprepared⟩ := makeParents_prepares ht hopens htarget hne hroom.way hroom.sizes hcheck now
  obtain ⟨front, name, rfl⟩ := List.eq_nil_or_concat names |>.resolve_left hne
  rw [List.concat_eq_append] at *
  have hdrop : (front ++ [name]).dropLast = front := List.dropLast_concat
  have hwritable := hroom.writable
  rw [hdrop] at hprepared hwritable
  have hbefore : made.get? (w ++ (front ++ [name])) = t.get? (w ++ (front ++ [name])) := hprepared.get?_next
  have hlink : ∀ link, made.get? (w ++ (front ++ [name])) ≠ some (.link link) := by
    intro link
    rw [hbefore]
    rcases hroom.free with hnone | ⟨old, hold⟩
    · simp [hnone]
    · simp [hold]
  have hway : HasWay t w front := hdrop ▸ hroom.way
  have hspot := (hopens.mono hprepared.preserves).spotOfSteps_name htarget hroom.sizes
    (fun before hbefore => hprepared.check_way hway hopens.check hbefore) hlink false
  have hcheckWrite := hprepared.check List.prefix_rfl (by decide) hwritable
  refine ⟨made, (made.set (w ++ (front ++ [name])) (.file f)).changed (w ++ front) now, hmade, ?_, hprepared.current,
    hroom.free, fun q => ?_⟩
  · rw [replace, FileTree.spot, hcheck, hends.stepsOf, hspot]
    split
    · simp only [bind, Except.bind, FileTree.add, hcheckWrite, List.append_assoc]
      rfl
    · rename_i hthere
      rw [hbefore] at hthere
      obtain ⟨old, hold⟩ := hroom.free.resolve_left hthere
      have hparent : (w ++ (front ++ [name])).dropLast = w ++ front := by
        rw [← List.append_assoc, List.dropLast_concat]
      simp only [bind, Except.bind, checkReplaceable, hbefore, hold, hparent, hcheckWrite]
      rfl
  · rw [get?_changed, get?_set]
    by_cases hq : q = w ++ (front ++ [name])
    · rw [if_pos ⟨hq, by simp [hq]⟩, if_pos hq]
    · have hbegins : q <+: w ++ front ↔ q <+: w ++ (front ++ [name]) := by
        rw [← List.append_assoc, List.prefix_concat_iff, List.append_assoc]
        exact (or_iff_right hq).symm
      rw [if_neg fun h => hq h.1, if_neg hq, hprepared.nodes]
      exact if_congr (and_congr_right fun _ => hbegins) rfl rfl

/-- A path with room at its end leads to the file that is there. -/
lemma Admits.place_eq (hroom : Admits t w names) (ht : Rooted t) (hopens : Opens t base w)
    (htarget : LiesBelow base names target) (hne : names ≠ []) (hends : EndsActive target)
    (hcheck : checkPath target = .ok ()) {f : File} (hf : t.get? (w ++ names) = some (.file f)) :
    t.place target = .ok (w ++ names) := by
  obtain ⟨front, name, rfl⟩ := List.eq_nil_or_concat names |>.resolve_left hne
  rw [List.concat_eq_append] at *
  have hway : HasWay t w front := by
    have hway := hroom.way
    rwa [List.dropLast_concat] at hway
  have hsearch : ∀ before, before <+: front → t.checkDirectory (w ++ before) searchBit = .ok () := by
    intro before hbefore
    rcases List.eq_nil_or_concat before with rfl | ⟨init, last, rfl⟩
    · rw [List.append_nil]
      exact hopens.check
    · rw [List.concat_eq_append] at hbefore ⊢
      refine (hway init last hbefore).resolve_left fun hnone => ?_
      refine ht.get?_of_prefix (show t.get? (w ++ (front ++ [name])) ≠ none by simp [hf]) ?_ hnone.1
      exact (List.prefix_append_right_inj w).mpr (hbefore.trans (List.prefix_append front [name]))
  have hspot := hopens.spotOfSteps_name htarget hroom.sizes hsearch (by simp [hf]) true
  rw [if_neg (by simp [hf]), ← hends.stepsOf] at hspot
  exact place_iff_spot.mpr (spot_iff_walk.mpr ⟨hcheck, hspot⟩)

end Room

/-! ### Reading where there is room -/

section Reading

variable {t : FileTree} {base path : String} {w names : Place}

/-- A walk along names to a place where nothing is finds nothing. -/
lemma walk_missing {onLink : Place → List Step → Except FileFault Spot} (hne : names ≠ [])
    (hsizes : ∀ name ∈ names, name.utf8ByteSize ≤ longestName) (hsearch : t.checkDirectory w searchBit = .ok ())
    (hway : HasWay t w names.dropLast) (hnone : t.get? (w ++ names) = none) :
    walk t true onLink w (names.map .into) = .error .notFound ∨
      ∃ parent name, walk t true onLink w (names.map .into) = .ok (.free parent name) := by
  induction names generalizing w with
  | nil => exact (hne rfl).elim
  | cons name rest ih =>
    rw [List.forall_mem_cons] at hsizes
    have hshape : ∀ more, w ++ [name] ++ more = w ++ name :: more := by simp
    rw [List.map_cons, walk.eq_def]
    simp only [hsearch, if_neg (Nat.not_lt.mpr hsizes.1)]
    cases rest with
    | nil =>
      rw [hnone]
      exact .inr ⟨w, name, rfl⟩
    | cons next rest =>
      rcases hway [] name (by simp) with ⟨hfree, _⟩ | hthere
      · rw [List.nil_append] at hfree
        rw [hfree]
        exact .inl rfl
      · rw [List.nil_append] at hthere
        obtain ⟨mode, hmode⟩ := directoryAt_of_check hthere
        rw [hmode]
        refine ih (by simp) hsizes.2 hthere ?_ (by rwa [hshape])
        intro before last hbefore
        rw [hshape, hshape]
        exact hway (name :: before) last (List.cons_prefix_cons.mpr ⟨rfl, hbefore⟩)

lemma Admits.place_missing (hroom : Admits t w names)
    (hopens : Opens t base w) (htarget : LiesBelow base names path) (hne : names ≠ []) (hends : EndsActive path)
    (hcheck : checkPath path = .ok ()) (hnone : t.get? (w ++ names) = none) : t.place path = .error .notFound := by
  obtain ⟨left, hpasses⟩ := hopens
  have hwalk : t.spotOfSteps true path (stepsOf path) = walkLinks t true (left + 1) w (names.map .into) := by
    unfold spotOfSteps
    rw [hends.stepsOf, htarget.start, htarget.steps]
    exact hpasses.walkLinks (.inr rfl)
  simp only [FileTree.place, FileTree.spot, hcheck, hwalk, walkLinks]
  rcases walk_missing hne hroom.sizes hpasses.check_end hroom.way hnone with hwalk | ⟨parent, name, hwalk⟩
  · rw [hwalk]
    rfl
  · rw [hwalk]
    rfl

/-- What is read at a path with room for a file: the file that is there, or nothing. -/
lemma Admits.read_eq (hroom : Admits t w names) (ht : Rooted t)
    (hopens : Opens t base w) (htarget : LiesBelow base names path) (hne : names ≠ []) (hends : EndsActive path)
    (hcheck : checkPath path = .ok ()) :
    (t.get? (w ++ names) = none → t.read path = .error .notFound) ∧
    ∀ f, t.get? (w ++ names) = some (.file f) → allows f.mode readBit = true → t.read path = .ok f.data := by
  refine ⟨fun hnone => ?_, fun f hf hallowed => ?_⟩
  · have hplace := hroom.place_missing hopens htarget hne hends hcheck hnone
    simp only [FileTree.read, FileTree.file, FileTree.node, hplace]
    rfl
  · have hplace := hroom.place_eq ht hopens htarget hne hends hcheck hf
    exact read_iff_file.mpr ⟨f, file_iff_node.mpr (node_iff_place.mpr ⟨_, hplace, hf⟩), hallowed, rfl⟩

lemma admits_of_empty {t : FileTree} {w names : Place} (hempty : ∀ names, names ≠ [] → t.get? (w ++ names) = none)
    (hwrite : t.checkDirectory w writeBit = .ok ()) (hsizes : ∀ name ∈ names, name.utf8ByteSize ≤ longestName)
    (hne : names ≠ []) : Admits t w names := by
  have hwritable : ∀ before : Place, t.get? (w ++ before) = none ∨ t.checkDirectory (w ++ before) writeBit = .ok () := by
    intro before
    by_cases hbefore : before = []
    · rw [hbefore, List.append_nil]
      exact .inr hwrite
    · exact .inl (hempty before hbefore)
  exact ⟨hsizes, fun before name _ => .inl ⟨hempty _ (by simp), hwritable before⟩, hwritable _, .inl (hempty names hne)⟩

end Reading

/-! ### Several files -/

/-- One tree is another one with files put at places, and with the directories that were missing for them. -/
structure FiledAs (t t' : FileTree) (files : Place → Option File) : Prop where
  current : t'.current = t.current
  free : ∀ {q f}, files q = some f → t.get? q = none ∨ ∃ old, t.get? q = some (.file old)
  filed : ∀ {q f}, files q = some f → t'.get? q = some (.file f)
  made : ∀ {q place f}, files q = none → t.get? q = none → files place = some f → q <+: place →
    t'.get? q = some (.directory directoryMode)
  kept : ∀ {q}, files q = none → (t.get? q = none → ∀ place f, files place = some f → ¬q <+: place) →
    t'.get? q = t.get? q

/-- No file stands where another one needs a directory, or the other way round. -/
def StandsApart (files : Place → Option File) (place : Place) : Prop :=
  ∀ other f, files other = some f → other <+: place ∨ place <+: other → other = place

lemma filedAs_refl (t : FileTree) : FiledAs t t fun _ => none :=
  ⟨rfl, by simp, by simp, by simp, fun _ _ => rfl⟩

section Several

variable {t t' t'' : FileTree} {files : Place → Option File} {w names place : Place} {f : File}

lemma FiledAs.preserves (h : FiledAs t t' files) : Preserves t t' := by
  have hkept : ∀ {q node}, t.get? q = some node → (∀ old, node ≠ .file old) → t'.get? q = some node := by
    intro q node hnode hnot
    rw [h.kept, hnode]
    · cases hfile : files q with
      | none => rfl
      | some f =>
        rcases h.free hfile with hnone | ⟨old, hold⟩
        · rw [hnode] at hnone
          cases hnone
        · exact (hnot old (Option.some.inj (hnode.symm.trans hold))).elim
    · intro hnone
      rw [hnode] at hnone
      cases hnone
  exact ⟨h.current, fun hdir => hkept hdir (by simp), fun hlink => hkept hlink (by simp)⟩

/-- What no file stands on the way of is there as before, or it is a directory now that was missing. -/
lemma FiledAs.get?_cases (h : FiledAs t t' files) {q : Place} (hnone : files q = none) :
    t'.get? q = t.get? q ∨ t.get? q = none ∧ t'.get? q = some (.directory directoryMode) := by
  by_cases hmade : t.get? q = none ∧ ∃ place f, files place = some f ∧ q <+: place
  · obtain ⟨hfree, place, f, hfile, hbegins⟩ := hmade
    exact .inr ⟨hfree, h.made hnone hfree hfile hbegins⟩
  · exact .inl (h.kept hnone fun hfree place f hfile hbegins => hmade ⟨hfree, place, f, hfile, hbegins⟩)

/-- One more file can be put if no other stands in its way. -/
lemma FiledAs.trans (h : FiledAs t t' files) (hnext : Filed t' t'' place f) (hapart : StandsApart files place) :
    FiledAs t t'' (Function.update files place (some f)) where
  current := hnext.current.trans h.current
  free := by
    intro q g hfile
    by_cases hq : q = place
    · subst hq
      cases hold : files q with
      | some old => exact h.free hold
      | none =>
        rcases h.get?_cases hold with hsame | ⟨hnone, _⟩
        · rw [← hsame]
          exact hnext.free
        · exact .inl hnone
    · rw [Function.update_of_ne hq] at hfile
      exact h.free hfile
  filed := by
    intro q g hfile
    rw [hnext.nodes]
    by_cases hq : q = place
    · subst hq
      rw [Function.update_self] at hfile
      rw [if_pos rfl, Option.some.inj hfile]
    · rw [Function.update_of_ne hq] at hfile
      rw [if_neg hq, if_neg, h.filed hfile]
      rintro ⟨_, hbegins⟩
      exact hq (hapart q g hfile (.inl hbegins))
  made := by
    intro q other g hnone hfree hfile hbegins
    have hq : q ≠ place := by
      rintro rfl
      simp at hnone
    rw [Function.update_of_ne hq] at hnone
    rw [hnext.nodes, if_neg hq]
    by_cases hother : other = place
    · rcases h.get?_cases hnone with hsame | ⟨_, hdir⟩
      · rw [if_pos ⟨hsame.trans hfree, hother ▸ hbegins⟩]
      · rw [if_neg (by simp [hdir]), hdir]
    · rw [Function.update_of_ne hother] at hfile
      have hdir := h.made hnone hfree hfile hbegins
      rw [if_neg (by simp [hdir]), hdir]
  kept := by
    intro q hnone hway
    have hq : q ≠ place := by
      rintro rfl
      simp at hnone
    rw [Function.update_of_ne hq] at hnone
    have hsame : t'.get? q = t.get? q := by
      refine h.kept hnone fun hfree other g hfile hbegins => ?_
      by_cases hother : other = place
      · exact hway hfree place f (by simp) (hother ▸ hbegins)
      · exact hway hfree other g (by rwa [Function.update_of_ne hother]) hbegins
    rw [hnext.nodes, if_neg hq, if_neg, hsame]
    rintro ⟨hfree, hbegins⟩
    exact hway (hsame ▸ hfree) place f (by simp) hbegins

lemma StandsApart.update {files : Place → Option File} {place q : Place} (h : StandsApart files place)
    (hapart : ¬q <+: place ∧ ¬place <+: q) (f : File) : StandsApart (Function.update files q (some f)) place := by
  intro other g hfile hbegins
  by_cases hother : other = q
  · rw [hother] at hbegins
    exact (hbegins.elim hapart.1 hapart.2).elim
  · rw [Function.update_of_ne hother] at hfile
    exact h other g hfile hbegins

/-- Files that stand apart still do when there is one more that stands apart from them. -/
lemma standsApart_update (h : ∀ {q g}, files q = some g → StandsApart files q) (hapart : StandsApart files place)
    (f : File) {q : Place} {g : File} (hfile : Function.update files place (some f) q = some g) :
    StandsApart (Function.update files place (some f)) q := by
  intro other g' hother hbegins
  by_cases hq : q = place
  · by_cases hsame : other = place
    · rw [hq, hsame]
    · rw [Function.update_of_ne hsame] at hother
      rw [hq] at hbegins ⊢
      exact hapart other g' hother hbegins
  · rw [Function.update_of_ne hq] at hfile
    by_cases hsame : other = place
    · rw [hsame] at hbegins ⊢
      exact (hapart q g hfile hbegins.symm).symm
    · rw [Function.update_of_ne hsame] at hother
      exact h hfile other g' hother hbegins

/-- The room for a file is left by files that do not stand in its way. -/
lemma Admits.after (hroom : Admits t w names) (hne : names ≠ []) (h : FiledAs t t' files)
    (hapart : StandsApart files (w ++ names)) : Admits t' w names := by
  -- no file is put at a directory on the way
  have hnone : ∀ {before}, before <+: names → before ≠ names → files (w ++ before) = none := by
    intro before hbefore hne
    by_contra hfile
    obtain ⟨g, hfile⟩ := Option.ne_none_iff_exists'.mp hfile
    have hsame := hapart _ g hfile (.inl ((List.prefix_append_right_inj w).mpr hbefore))
    exact hne (List.append_cancel_left hsame)
  have hwritable : ∀ {before}, before <+: names → before ≠ names →
      (t.get? (w ++ before) = none ∨ t.checkDirectory (w ++ before) writeBit = .ok ()) →
        t'.get? (w ++ before) = none ∨ t'.checkDirectory (w ++ before) writeBit = .ok () := by
    rintro before hbefore hne (hfree | hcheck)
    · rcases h.get?_cases (hnone hbefore hne) with hsame | ⟨_, hdir⟩
      · exact .inl (hsame.trans hfree)
      · exact .inr (checkDirectory_of_get? hdir (by decide))
    · exact .inr (h.preserves.check hcheck)
  have hlonger : ∀ {before}, before <+: names.dropLast → before ≠ names := by
    rintro before hbefore rfl
    have hlength := hbefore.length_le
    have hpos := List.length_pos_iff.mpr hne
    rw [List.length_dropLast] at hlength
    omega
  refine ⟨hroom.sizes, ?_, ?_, ?_⟩
  · intro before name hbefore
    have hbegins := hbefore.trans (List.dropLast_prefix names)
    rcases hroom.way before name hbefore with ⟨hfree, hparent⟩ | hcheck
    · rcases h.get?_cases (hnone hbegins (hlonger hbefore)) with hsame | ⟨_, hdir⟩
      · have hshort := (List.prefix_append before [name]).trans hbefore
        refine .inl ⟨hsame.trans hfree, hwritable (hshort.trans (List.dropLast_prefix names)) ?_ hparent⟩
        exact hlonger hshort
      · exact .inr (checkDirectory_of_get? hdir (by decide))
    · exact .inr (h.preserves.check hcheck)
  · exact hwritable (List.dropLast_prefix names) (hlonger List.prefix_rfl) hroom.writable
  · cases hfile : files (w ++ names) with
    | some g => exact .inr ⟨g, h.filed hfile⟩
    | none =>
      rw [h.kept hfile]
      · exact hroom.free
      · intro _ place g hplace hbegins
        rw [← hapart place g hplace (.inr hbegins), hplace] at hfile
        cases hfile

end Several

end CrossBuild.Proofs
