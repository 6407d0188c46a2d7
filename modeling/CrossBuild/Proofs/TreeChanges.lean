import CrossBuild.FileTree.Change
import CrossBuild.Handoff.Download
import CrossBuild.Proofs.MapLookup
import CrossBuild.Proofs.PathLeads
import Mathlib.Logic.Function.Basic

/-!
# What changes do to the files of a tree

For each change of a tree, which files are there afterwards. Directories come and go without any of
this being touched, and no change but the one that makes a link brings a link about.
-/

namespace CrossBuild.Proofs
open FileTree

variable {now : Instant}

/-- The file at a place. -/
def fileAt (t : FileTree) (place : Place) : Option File :=
  match t.get? place with
  | some (.file f) => some f
  | _ => none

lemma get?_of_fileAt {t : FileTree} {place : Place} {f : File} (h : fileAt t place = some f) :
    t.get? place = some (.file f) := by
  unfold fileAt at h
  split at h
  · rename_i hget
    rw [hget, ← Option.some.inj h]
  · cases h

lemma DirectoryAt.fileAt {t : FileTree} {place : Place} (h : DirectoryAt t place) : fileAt t place = none := by
  obtain ⟨mode, hmode⟩ := h
  rw [Proofs.fileAt, hmode]

/-- A tree with no link that was not there before and with these files. -/
structure Evolves (t t' : FileTree) (files : Place → Option File) : Prop where
  current : t'.current = t.current
  links : ∀ place target, t'.get? place = some (.link target) → t.get? place = some (.link target)
  files : fileAt t' = files

lemma evolves_refl (t : FileTree) : Evolves t t (fileAt t) := ⟨rfl, fun _ _ h => h, rfl⟩

lemma Evolves.trans {t t' t'' : FileTree} {files files' : Place → Option File} (h : Evolves t t' files)
    (h' : Evolves t' t'' files') : Evolves t t'' files' :=
  ⟨h'.current.trans h.current, fun place target hlink => h.links _ _ (h'.links place target hlink), h'.files⟩

lemma Evolves.linkFree {t t' : FileTree} {files : Place → Option File} (h : Evolves t t' files) {w : Place}
    (hfree : LinkFree t w) : LinkFree t' w :=
  fun names target hlink => hfree names target (h.links _ _ hlink)

/-! ### Single nodes -/

lemma get?_set (t : FileTree) (place : Place) (node : FileNode) (q : Place) :
    (t.set place node).get? q = if q = place ∧ q ≠ [] then some node else t.get? q := by
  unfold FileTree.set FileTree.get?
  by_cases hq : q = []
  · simp [hq]
  · simp [hq, get?_insert]

lemma get?_erase_place (t : FileTree) (place q : Place) :
    (t.erase place).get? q = if q = place ∧ q ≠ [] then none else t.get? q := by
  unfold FileTree.erase FileTree.get?
  by_cases hq : q = []
  · simp [hq]
  · simp [hq, get?_erase]

lemma get?_root (t : FileTree) : t.get? [] = some (.directory rootMode) := rfl

/-! ### Dates of directories -/

/-- The tree with other dates of its directories. -/
def dated (t : FileTree) (changes : SortedMap Place Instant) : FileTree := { t with changes }

section Dates

variable (t : FileTree) (changes : SortedMap Place Instant)

@[simp] lemma get?_dated (q : Place) : (dated t changes).get? q = t.get? q := rfl

@[simp] lemma get?_changed (place q : Place) : (t.changed place now).get? q = t.get? q := rfl

end Dates

lemma Evolves.changed {t t' : FileTree} {files : Place → Option File} (h : Evolves t t' files) (place : Place) :
    Evolves t (t'.changed place now) files := ⟨h.current, h.links, h.files⟩

/-! ### Files and directories that come and go -/

/-- Setting a file at a place other than the root. -/
lemma evolves_setFile (t : FileTree) {place : Place} (hne : place ≠ []) (f : File) :
    Evolves t (t.set place (.file f)) (Function.update (fileAt t) place (some f)) := by
  refine ⟨rfl, ?_, ?_⟩
  · intro q target h
    rw [get?_set] at h
    split at h
    · cases h
    · exact h
  · funext q
    unfold fileAt
    rw [get?_set]
    by_cases hq : q = place
    · simp [hq, hne]
    · simp [hq]

/-- Setting a directory where no file stands. -/
lemma evolves_setDirectory (t : FileTree) {place : Place} (h : fileAt t place = none) (mode : Nat) :
    Evolves t (t.set place (.directory mode)) (fileAt t) := by
  refine ⟨rfl, ?_, ?_⟩
  · intro q target hlink
    rw [get?_set] at hlink
    split at hlink
    · cases hlink
    · exact hlink
  · funext q
    by_cases hq : q = place ∧ q ≠ []
    · rw [hq.1, h]
      unfold fileAt
      rw [get?_set, if_pos (hq.1 ▸ ⟨rfl, hq.2⟩)]
    · unfold fileAt
      rw [get?_set, if_neg hq]

lemma evolves_erase (t : FileTree) (place : Place) :
    Evolves t (t.erase place) (Function.update (fileAt t) place none) := by
  refine ⟨rfl, ?_, ?_⟩
  · intro q target h
    rw [get?_erase_place] at h
    split at h
    · cases h
    · exact h
  · funext q
    unfold fileAt
    rw [get?_erase_place]
    by_cases hq : q = place
    · by_cases hroot : q = []
      · rw [hq] at hroot
        simp [hq, hroot, get?_root]
      · rw [hq] at hroot
        simp [hq, hroot]
    · simp [hq]

/-! ### Making directories -/

lemma walk_free {t : FileTree} {followLast : Bool} {onLink : Place → List Step → Except FileFault Spot}
    (honLink : ∀ {place steps front name}, onLink place steps = .ok (.free front name) →
      t.get? (front ++ [name]) = none)
    {place : Place} {steps : List Step} {front : Place} {name : String}
    (h : walk t followLast onLink place steps = .ok (.free front name)) :
    t.get? (front ++ [name]) = none := by
  induction steps generalizing place with
  | nil => cases h
  | cons step rest ih =>
    obtain ⟨_, hstep⟩ := walksOn_of_walk h
    cases hstep with
    | here hwalk | up hwalk | into _ _ _ hwalk => exact ih hwalk
    | free _ hnone => exact hnone
    | link _ _ _ hwalk => exact honLink hwalk

/-- A name that a walk ends at as free is not in its directory. -/
lemma walkLinks_free {t : FileTree} {followLast : Bool} {limit : Nat} {place front : Place}
    {steps : List Step} {name : String}
    (h : walkLinks t followLast limit place steps = .ok (.free front name)) :
    t.get? (front ++ [name]) = none := by
  induction limit generalizing place front steps name with
  | zero => cases h
  | succ limit ih => exact walk_free ih h

lemma add_eq_set {t t' : FileTree} {parent : Place} {name : String} {node : FileNode}
    (h : t.add parent name node now = .ok t') : t' = (t.set (parent ++ [name]) node).changed parent now := by
  simp only [FileTree.add, bind_eq_ok, pure_eq_ok] at h
  obtain ⟨_, _, rfl⟩ := h
  rfl

lemma fileAt_of_none {t : FileTree} {place : Place} (h : t.get? place = none) : fileAt t place = none := by
  unfold fileAt
  rw [h]

/-- What making one directory does: a name that is free becomes one. -/
lemma makeDirectory_eq_ok {t t' : FileTree} {path : String} (h : t.makeDirectory path now = .ok t') :
    ∃ parent name, t.spotOfSteps false path (stepsOf (withoutEndSlashes path)) = .ok (.free parent name) ∧
      t.get? (parent ++ [name]) = none ∧ t' =
        ((t.set (parent ++ [name]) (.directory directoryMode)).changed parent now).changed (parent ++ [name]) now := by
  simp only [makeDirectory, bind_eq_ok] at h
  obtain ⟨s, hspot, h⟩ := h
  cases s with
  | taken place => cases h
  | free parent name =>
    simp only [bind_eq_ok, pure_eq_ok] at h
    obtain ⟨added, hadd, rfl⟩ := h
    exact ⟨parent, name, hspot, walkLinks_free hspot, by rw [add_eq_set hadd]⟩

lemma ensureDirectory_evolves {t t' : FileTree} {path : String} (h : t.ensureDirectory path now = .ok t') :
    Evolves t t' (fileAt t) := by
  unfold ensureDirectory at h
  split at h
  · rename_i made hmake
    cases h
    obtain ⟨parent, name, _, hnone, rfl⟩ := makeDirectory_eq_ok hmake
    exact ((evolves_setDirectory t (fileAt_of_none hnone) _).changed _).changed _
  · split at h
    · cases h
      exact evolves_refl _
    · cases h

/-- What no single directory on the way takes away is kept when all of them are made. -/
lemma ensureEach_keeps {I : FileTree → Prop} {paths : List String}
    (hensure : ∀ path ∈ paths, ∀ {t t' : FileTree}, I t → t.ensureDirectory path now = .ok t' → I t')
    {t : FileTree} (ht : I t) : I (t.ensureEach now paths).1 := by
  induction paths generalizing t with
  | nil => exact ht
  | cons path rest ih =>
    rw [ensureEach]
    cases hmake : t.ensureDirectory path now with
    | ok made =>
      exact ih (fun other hother => hensure other (List.mem_cons_of_mem _ hother))
        (hensure path List.mem_cons_self ht hmake)
    | error fault => exact ht

lemma makeDirectories_keeps {I : FileTree → Prop} {path : String}
    (hensure : ∀ above ∈ Path.ancestors path ++ [path], ∀ {t t' : FileTree}, I t →
      t.ensureDirectory above now = .ok t' → I t') {t : FileTree} (ht : I t) :
    I (t.makeDirectories path now).1 := by
  unfold makeDirectories
  split
  · exact ht
  · split
    · exact ht
    · exact ensureEach_keeps hensure ht

/-- Making directories touches no file, even if it fails halfway. -/
lemma makeDirectories_evolves {t t' : FileTree} {path : String} {fault? : Option FileFault}
    (h : t.makeDirectories path now = (t', fault?)) : Evolves t t' (fileAt t) := by
  have hkept : Evolves t (t.makeDirectories path now).1 (fileAt t) := by
    refine makeDirectories_keeps (I := fun t' => Evolves t t' (fileAt t)) ?_ (evolves_refl t)
    intro above _ made made' hmade hensure
    have hnext := ensureDirectory_evolves hensure
    rw [hmade.files] at hnext
    exact hmade.trans hnext
  rwa [h] at hkept

section Paths

variable {t t' : FileTree} {path : String} {w names : Place}

lemma replace_evolves (hpath : Reaches t path w names) (hne : names ≠ []) {f : File}
    (h : t.replace path f now = .ok t') : Evolves t t' (Function.update (fileAt t) (w ++ names) (some f)) := by
  have hroot : w ++ names ≠ [] := by simp [hne]
  simp only [replace, bind_eq_ok] at h
  obtain ⟨s, hspot, h⟩ := h
  cases hpath.spot hspot with
  | taken node hnode =>
    simp only [bind_eq_ok, pure_eq_ok] at h
    obtain ⟨_, _, rfl⟩ := h
    exact (evolves_setFile t hroot f).changed _
  | free hnames hnone =>
    rw [add_eq_set h, List.append_assoc, ← hnames]
    exact (evolves_setFile t hroot f).changed _

lemma write_evolves (hpath : Reaches t path w names) (hne : names ≠ []) {data : ByteArray}
    (h : t.write path data now = .ok t') :
    ∃ mode, Evolves t t' (Function.update (fileAt t) (w ++ names) (some ⟨data, now, mode⟩)) := by
  have hroot : w ++ names ≠ [] := by simp [hne]
  simp only [FileTree.write, update, bind_eq_ok] at h
  obtain ⟨s, hspot, h⟩ := h
  cases hpath.spot hspot with
  | taken node hnode =>
    simp only [hnode] at h
    split at h
    · rename_i old _
      split at h
      · cases h
        exact ⟨_, evolves_setFile t hroot _⟩
      · cases h
    · cases h
  | free hnames hnone =>
    rw [add_eq_set h, List.append_assoc, ← hnames]
    exact ⟨_, (evolves_setFile t hroot _).changed _⟩

lemma remove_evolves (hpath : Reaches t path w names) (h : t.remove path now = .ok t') :
    Evolves t t' (Function.update (fileAt t) (w ++ names) none) := by
  simp only [remove, bind_eq_ok] at h
  obtain ⟨s, hspot, h⟩ := h
  cases hpath.spot hspot with
  | taken node hnode =>
    simp only [bind_eq_ok, pure_eq_ok] at h
    obtain ⟨_, _, rfl⟩ := h
    exact (evolves_erase t _).changed _
  | free hnames hnone => cases h

lemma read_of_file {t : FileTree} {path : String} {data : ByteArray} {modified : Instant} {mode : Nat}
    (h : t.file path = .ok ⟨data, modified, mode⟩) (hmode : allows mode readBit = true) :
    t.read path = .ok data := by
  rw [FileTree.read, h]
  exact if_pos hmode

/-! ### Directories at paths of names -/

lemma activePieces_withoutEndSlashes (path : String) :
    activePieces (withoutEndSlashes path) = activePieces path := by
  have hchars : ∀ cs : List Char,
      (Text.pieces (· == '/') (cs.dropWhile (· == '/')).reverse).filter (fun piece => !Path.isIdle piece) =
        (Text.pieces (· == '/') cs.reverse).filter (fun piece => !Path.isIdle piece) := by
    intro cs
    induction cs with
    | nil => rfl
    | cons c cs ih =>
      by_cases hc : c = '/'
      · rw [List.dropWhile_cons_of_pos (by simp [hc]), ih, List.reverse_cons, hc,
          pieces_append (· == '/') rfl]
        simp [Text.pieces, Path.isIdle]
      · rw [List.dropWhile_cons_of_neg (by simp [hc])]
  unfold activePieces withoutEndSlashes
  rw [String.toList_ofList, hchars, List.reverse_reverse]

/-- A directory that has been ensured is there. -/
lemma directoryAt_ensureDirectory (hpath : Reaches t path w names) (h : t.ensureDirectory path now = .ok t') :
    DirectoryAt t' (w ++ names) := by
  unfold ensureDirectory at h
  split at h
  · rename_i made hmake
    cases h
    obtain ⟨parent, name, hspot, _, rfl⟩ := makeDirectory_eq_ok hmake
    have hsteps := stepsOf_eq (withoutEndSlashes path)
    rw [activePieces_withoutEndSlashes] at hsteps
    cases hpath.ends hsteps hspot with
    | free hnames hnone =>
      refine ⟨directoryMode, ?_⟩
      rw [hnames, get?_changed, get?_changed, get?_set, List.append_assoc, if_pos ⟨rfl, by simp⟩]
  · split at h
    · rename_i hdir
      cases h
      obtain ⟨mode, hnode⟩ := isDirectory_iff.mp hdir
      obtain ⟨place, hplace, hget⟩ := node_iff_place.mp hnode
      exact ⟨mode, hpath.place hplace ▸ hget⟩
    · cases h

lemma setDirectoryMode_evolves (hpath : Reaches t path w names) (hdir : DirectoryAt t (w ++ names))
    {mode : Nat} (h : t.setDirectoryMode path mode = .ok t') : Evolves t t' (fileAt t) := by
  simp only [setDirectoryMode, bind_eq_ok, pure_eq_ok] at h
  obtain ⟨place, hplace, rfl⟩ := h
  rw [hpath.place hplace]
  exact evolves_setDirectory t hdir.fileAt mode

end Paths

/-! ### What is below a place -/

lemma mem_below {t : FileTree} {place names : Place} {node : FileNode} :
    (names, node) ∈ t.below place ↔ names ≠ [] ∧ t.get? (place ++ names) = some node := by
  have hnodes : ∀ q, q ≠ [] → ((q, node) ∈ t.nodes.toList ↔ t.get? q = some node) := by
    intro q hq
    unfold FileTree.get?
    simp only [List.isEmpty_iff, hq, if_false]
    exact (get?_eq_some t.nodes q node).symm
  unfold FileTree.below
  rw [List.mem_filterMap]
  constructor
  · rintro ⟨⟨q, node'⟩, hmem, h⟩
    dsimp only at h
    split at h
    · rename_i hbelow
      simp only [Bool.and_eq_true, List.isPrefixOf_iff_prefix, decide_eq_true_eq] at hbelow
      obtain ⟨⟨rest, rfl⟩, hlen⟩ := hbelow
      rw [List.drop_left] at h
      cases h
      have hrest : names ≠ [] := by
        rintro rfl
        simp at hlen
      exact ⟨hrest, (hnodes _ (by simp [hrest])).mp hmem⟩
    · cases h
  · rintro ⟨hne, hget⟩
    refine ⟨(place ++ names, node), (hnodes _ (by simp [hne])).mpr hget, ?_⟩
    have hpos := List.length_pos_iff.mpr hne
    simp [hpos]

/-- What holds between the places of a tree in their order holds between those below one of them. -/
lemma pairwise_below {r : Place → Place → Prop} {t : FileTree} (place : Place)
    (h : t.nodes.toList.Pairwise fun a b => r a.1 b.1) :
    (t.below place).Pairwise fun a b => r (place ++ a.1) (place ++ b.1) := by
  refine h.filterMap _ ?_
  rintro ⟨p, node⟩ ⟨q, node'⟩ hr a ha b hb
  dsimp only at ha hb
  split at ha
  · rename_i hp
    split at hb
    · rename_i hq
      cases ha
      cases hb
      simp only [Bool.and_eq_true, List.isPrefixOf_iff_prefix] at hp hq
      obtain ⟨⟨front, rfl⟩, _⟩ := hp
      obtain ⟨⟨back, rfl⟩, _⟩ := hq
      simpa only [List.drop_left] using hr
    · cases hb
  · cases ha

/-! ### Removing directories -/

lemma mem_directoriesBelow {t : FileTree} {place names : Place} :
    names ∈ Handoff.directoriesBelow t place ↔ names ≠ [] ∧ DirectoryAt t (place ++ names) := by
  rw [Handoff.directoriesBelow, List.mem_filterMap]
  constructor
  · rintro ⟨⟨found, node⟩, hbelow, hfound⟩
    obtain ⟨hne, hget⟩ := mem_below.mp hbelow
    cases node with
    | directory mode =>
      cases hfound
      exact ⟨hne, mode, hget⟩
    | file f => cases hfound
    | link target => cases hfound
  · rintro ⟨hne, mode, hmode⟩
    exact ⟨(names, .directory mode), mem_below.mpr ⟨hne, hmode⟩, rfl⟩

/-- A directory and those below it, in the order of the tree. -/
def branch (t : FileTree) (place : Place) : List Place :=
  place :: (Handoff.directoriesBelow t place).map (place ++ ·)

lemma mem_branch {t : FileTree} {place d : Place} (hdir : DirectoryAt t place) :
    d ∈ branch t place ↔ place <+: d ∧ DirectoryAt t d := by
  rw [branch, List.mem_cons, List.mem_map]
  constructor
  · rintro (rfl | ⟨names, hnames, rfl⟩)
    · exact ⟨List.prefix_rfl, hdir⟩
    · exact ⟨List.prefix_append _ _, (mem_directoriesBelow.mp hnames).2⟩
  · rintro ⟨⟨names, rfl⟩, hd⟩
    by_cases hnames : names = []
    · exact .inl (by rw [hnames, List.append_nil])
    · exact .inr ⟨names, mem_directoriesBelow.mpr ⟨hnames, hd⟩, rfl⟩

lemma directoryAt_of_mem_branch {t : FileTree} {place : Place} (hdir : DirectoryAt t place) :
    ∀ d ∈ branch t place, DirectoryAt t d := fun _ hd => ((mem_branch hdir).mp hd).2

/-- A directory is removed if it has no entries and entries of the one above it may be. -/
lemma removeIfEmpty_eq {t : FileTree} {place : Place} : Handoff.removeIfEmpty t place now =
    if (t.children place).isEmpty then
      (t.checkDirectory place.dropLast writeBit).map fun _ => (t.erase place).changed place.dropLast now
    else .ok t := by
  unfold Handoff.removeIfEmpty removeEmpty
  split
  · cases t.checkDirectory place.dropLast writeBit with
    | ok u => rfl
    | error fault => rfl
  · rfl

lemma removeIfEmpty_cases {t t' : FileTree} {place : Place} (h : Handoff.removeIfEmpty t place now = .ok t') :
    t' = t ∨ (t.children place).isEmpty = true ∧ t' = (t.erase place).changed place.dropLast now := by
  rw [removeIfEmpty_eq] at h
  split at h
  · rename_i hempty
    cases hcheck : t.checkDirectory place.dropLast writeBit with
    | error fault =>
      rw [hcheck] at h
      cases h
    | ok u =>
      rw [hcheck] at h
      exact .inr ⟨hempty, (Except.ok.inj h).symm⟩
  · exact .inl (Except.ok.inj h).symm

lemma mem_of_mem_placesBelow {d d' : Place} {rest : List Place} (h : d' ∈ Handoff.placesBelow d rest) :
    d' ∈ d :: rest := List.mem_cons_of_mem _ (List.mem_filter.mp h).1

lemma mem_of_mem_placesBeside {d d' : Place} {rest : List Place} (h : d' ∈ Handoff.placesBeside d rest) :
    d' ∈ d :: rest := List.mem_cons_of_mem _ (List.mem_filter.mp h).1

/-- What each removal keeps is kept by pruning, even if it fails halfway. -/
lemma prune_keeps {I : FileTree → Prop} {canList : Place → Bool} {directories : List Place}
    (hremove : ∀ d ∈ directories, ∀ {t t' : FileTree}, I t → Handoff.removeIfEmpty t d now = .ok t' → I t')
    {t : FileTree} (ht : I t) : I (Handoff.prune canList now t directories).1 := by
  induction t, directories using Handoff.prune.induct canList now with
  | case1 t =>
    rw [Handoff.prune]
    exact ht
  | case2 t d rest hlist between error hbelow ih =>
    rw [Handoff.prune, if_pos hlist, hbelow]
    have hbetween := ih (fun d' hd' => hremove d' (mem_of_mem_placesBelow hd')) ht
    rwa [hbelow] at hbetween
  | case3 t d rest hlist between hbelow next hnext ihBelow ihBeside =>
    have hbetween := ihBelow (fun d' hd' => hremove d' (mem_of_mem_placesBelow hd')) ht
    rw [hbelow] at hbetween
    rw [Handoff.prune, if_pos hlist, hbelow]
    dsimp only
    rw [hnext]
    exact ihBeside (fun d' hd' => hremove d' (mem_of_mem_placesBeside hd'))
      (hremove d List.mem_cons_self hbetween hnext)
  | case4 t d rest hlist between hbelow fault hfault ih =>
    have hbetween := ih (fun d' hd' => hremove d' (mem_of_mem_placesBelow hd')) ht
    rw [hbelow] at hbetween
    rw [Handoff.prune, if_pos hlist, hbelow]
    dsimp only
    rwa [hfault]
  | case5 t d rest hlist =>
    rw [Handoff.prune, if_neg hlist]
    exact ht

/-- Pruning takes away nothing but directories, even if it fails halfway. -/
lemma prune_evolves {t t' : FileTree} {canList : Place → Bool} {directories : List Place} {error? : Option HandoffError}
    (hdirs : ∀ d ∈ directories, DirectoryAt t d) (h : Handoff.prune canList now t directories = (t', error?)) :
    Evolves t t' (fileAt t) := by
  have hkept : Evolves t (Handoff.prune canList now t directories).1 (fileAt t) := by
    refine prune_keeps (I := fun t' => Evolves t t' (fileAt t)) ?_ (evolves_refl t)
    intro d hd between next hbetween hremove
    rcases removeIfEmpty_cases hremove with rfl | ⟨_, rfl⟩
    · exact hbetween
    · have hnext : Evolves between ((between.erase d).changed d.dropLast now) _ :=
        (evolves_erase between d).changed d.dropLast
      rw [hbetween.files, Function.update_eq_self_iff.mpr (hdirs d hd).fileAt.symm] at hnext
      exact hbetween.trans hnext
  rwa [h] at hkept

end CrossBuild.Proofs
