import CrossBuild.Proofs.KeyOrder
import CrossBuild.Proofs.Pruning
import CrossBuild.Proofs.WorkspacePaths

/-!
# Hollow directories

After a download the staging directory is pruned: of the directories at and below it those go that lead to
no file. The walk behind it lists every directory, and a directory goes from the one that holds it. So pruning
takes permissions, and it fails where they are missing; but all it can do to a tree, even then, is to take
hollow directories away.
-/

namespace CrossBuild.Proofs
open FileTree Handoff

variable {σ : Type}

/-- The path is that of a directory in a tree, and no link stands below it. -/
structure NamesTree (t : FileTree) (path : String) (root : Place) : Prop where
  rooted : Rooted t
  /-- It ends in a name: no directory is removed as `.` or `..`. -/
  named : ∃ base name, IsFileName name ∧ path = Path.join base name
  leads : t.spot false path = .ok (.taken root)
  directory : DirectoryAt t root
  linkFree : LinkFree t root

/-- A directory that leads to no file. -/
structure IsHollow (t : FileTree) (d : Place) : Prop where
  directory : DirectoryAt t d
  noFile : ∀ names, fileAt t (d ++ names) = none

/-- By the path that leads to it from the root of a walk, every directory there can be listed. -/
structure IsListable (t : FileTree) (path : String) (root : Place) : Prop where
  start : t.canList path = true
  below : ∀ names, names ≠ [] → DirectoryAt t (root ++ names) →
    t.canList (Path.join path (pathOfNames names)) = true

/-- What pruning makes of a machine, and when it succeeds. -/
structure ClearsHollow (path : String) (root : Place) (m : Machine σ) (result : Except HandoffError Unit)
    (m' : Machine σ) : Prop where
  /-- Nothing but the tree changes, and no file in it. -/
  rest : ∃ files, m' = { m with files }
  files : fileAt m'.files = fileAt m.files
  /-- Whether it succeeds or not, all that can change is that hollow directories go. -/
  kept : ∀ q, m'.files.get? q = m.files.get? q ∨ root <+: q ∧ IsHollow m.files q ∧ m'.files.get? q = none
  succeeds : result = .ok () ↔ IsListable m.files path root ∧
    ∀ d, root <+: d → IsHollow m.files d → m.files.checkDirectory d.dropLast writeBit = .ok ()
  /-- If it succeeds, they all go. -/
  cleared : result = .ok () → ∀ d, root <+: d → DirectoryAt m.files d →
    (m'.files.get? d = none ↔ ∀ names, fileAt m.files (d ++ names) = none)

section Clearing

variable {t : FileTree} {path : String} {root : Place}

lemma isListable_iff : IsListable t path root ↔ ∀ d ∈ branch t root, t.canList (walkedPath path root d) = true := by
  have hwalked : ∀ {names}, names ≠ [] → walkedPath path root (root ++ names) = Path.join path (pathOfNames names) := by
    intro names hne
    obtain ⟨name, more, rfl⟩ := List.exists_cons_of_ne_nil hne
    rw [walkedPath, List.drop_left]
    rfl
  have htop : walkedPath path root root = path := by rw [walkedPath, List.drop_length]
  rw [branch, List.forall_mem_cons, htop, List.forall_mem_map]
  constructor
  · rintro ⟨hroot, hbelow⟩
    refine ⟨hroot, fun names hnames => ?_⟩
    obtain ⟨hne, hdir⟩ := mem_directoriesBelow.mp hnames
    rw [hwalked hne]
    exact hbelow names hne hdir
  · rintro ⟨hroot, hbelow⟩
    refine ⟨hroot, fun names hne hdir => ?_⟩
    rw [← hwalked hne]
    exact hbelow names (mem_directoriesBelow.mpr ⟨hne, hdir⟩)

variable (hdir : DirectoryAt t root) (hfree : LinkFree t root)

include hfree

lemma isHollow_iff {d : Place} (hbegins : root <+: d) : IsHollow t d ↔ DirectoryAt t d ∧ OnlyDirectories t d := by
  obtain ⟨names, rfl⟩ := hbegins
  rw [onlyDirectories_iff (hfree.below names)]
  exact ⟨fun h => ⟨h.directory, h.noFile⟩, fun h => ⟨h.1, h.2⟩⟩

include hdir

lemma mem_branch_iff {d : Place} : d ∈ branch t root ∧ OnlyDirectories t d ↔ root <+: d ∧ IsHollow t d := by
  rw [mem_branch hdir, and_assoc]
  exact and_congr_right fun hbegins => (isHollow_iff hfree hbegins).symm

/-- Of the directories that have been dealt with the hollow ones are gone, and nothing else. -/
lemma Pruned.kept_or_gone {t' : FileTree} {handled : Set Place} (h : Pruned t t' handled)
    (hsub : ∀ d ∈ handled, d ∈ branch t root) (q : Place) :
    t'.get? q = t.get? q ∨ root <+: q ∧ IsHollow t q ∧ t'.get? q = none := by
  by_cases hgone : q ∈ handled ∧ OnlyDirectories t q
  · obtain ⟨hbegins, hollow⟩ := (mem_branch_iff hdir hfree).mp ⟨hsub q hgone.1, hgone.2⟩
    exact .inr ⟨hbegins, hollow, h.gone q hgone.1 hgone.2⟩
  · exact .inl (h.kept q hgone)

end Clearing

lemma run_pruneStaging {m : Machine σ} {path : String} {root : Place}
    (hspot : m.files.spot false path = .ok (.taken root)) (hdir : DirectoryAt m.files root) : pruneStaging path m =
      (match (pruneFrom m path root (branch m.files root)).2 with
        | none => .ok ()
        | some error => .error error, { m with files := (pruneFrom m path root (branch m.files root)).1 }) := by
  obtain ⟨mode, hmode⟩ := hdir
  have hprune : pruneStaging path m = pruneWalked path root [root] m := by
    simp only [pruneStaging, run_bind, run_get, hspot, hmode]
  rw [hprune, run_pruneWalked]
  rfl

/-- Where all had to be listed and nothing was held, all hollow directories are gone. -/
lemma Pruned.clearsHollow {m : Machine σ} {path : String} {root : Place} {t' : FileTree}
    (hpruned : Pruned m.files t' {q | q ∈ branch m.files root}) (h : NamesTree m.files path root)
    (hlisted : IsListable m.files path root) (hfiles : fileAt t' = fileAt m.files) :
    ClearsHollow path root m (.ok ()) { m with files := t' } where
  rest := ⟨t', rfl⟩
  files := hfiles
  kept := hpruned.kept_or_gone h.directory h.linkFree fun _ hd => hd
  succeeds := by
    refine iff_of_true rfl ⟨hlisted, fun d hbegins hollow => ?_⟩
    obtain ⟨hmem, honly⟩ := (mem_branch_iff h.directory h.linkFree).mpr ⟨hbegins, hollow⟩
    exact hpruned.removable d hmem honly
  cleared := by
    intro _ d hbegins hdir
    have hiff := mem_branch_iff (d := d) h.directory h.linkFree
    obtain ⟨mode, hmode⟩ := hdir
    constructor
    · intro hgone
      by_cases hbranch : d ∈ branch m.files root ∧ OnlyDirectories m.files d
      · exact (hiff.mp hbranch).2.noFile
      · have hkept := hpruned.kept d hbranch
        dsimp only at hgone
        rw [hgone, hmode] at hkept
        cases hkept
    · intro hnone
      have hbranch := hiff.mpr ⟨hbegins, ⟨mode, hmode⟩, hnone⟩
      exact hpruned.gone d hbranch.1 hbranch.2

/-- A walk that was stopped has taken nothing but hollow directories away. -/
lemma Pruned.stopped {m : Machine σ} {path : String} {root : Place} {t' : FileTree} {reached : Set Place}
    {error : HandoffError} (hpruned : Pruned m.files t' reached) (hsub : ∀ d ∈ reached, d ∈ branch m.files root)
    (h : NamesTree m.files path root) (hfiles : fileAt t' = fileAt m.files)
    (hstop : ¬(IsListable m.files path root ∧
      ∀ d, root <+: d → IsHollow m.files d → m.files.checkDirectory d.dropLast writeBit = .ok ())) :
    ClearsHollow path root m (.error error) { m with files := t' } where
  rest := ⟨t', rfl⟩
  files := hfiles
  kept := hpruned.kept_or_gone h.directory h.linkFree hsub
  succeeds := iff_of_false nofun hstop
  cleared := nofun

/-- Pruning a tree without links ends well just if all its directories can be listed and all hollow ones
removed, and then these are gone and nothing else. However it ends, no file is lost, and no directory that
leads to one. -/
theorem pruneStaging_clears {m : Machine σ} {path : String} {root : Place} (h : NamesTree m.files path root) :
    ClearsHollow path root m (pruneStaging path m).1 (pruneStaging path m).2 := by
  have hdir := h.directory
  rw [run_pruneStaging h.leads hdir]
  have hends := prune_ends h.rooted (fun d => m.files.canList (walkedPath path root d)) m.now
    (pruned_refl m.files) (areLeft_branch hdir)
  have hevolves : Evolves m.files (pruneFrom m path root (branch m.files root)).1 (fileAt m.files) :=
    prune_evolves (directoryAt_of_mem_branch hdir) (Prod.eta _).symm
  rw [← pruneFrom] at hends
  generalize pruneFrom m path root (branch m.files root) = result at hends hevolves
  cases hends with
  | done hpruned hlisted =>
    rw [Set.empty_union] at hpruned
    exact hpruned.clearsHollow h (isListable_iff.mpr hlisted) hevolves.files
  | unlisted hpruned hsub hmem hclosed =>
    rw [Set.empty_union] at hsub
    refine hpruned.stopped hsub h hevolves.files fun hall => ?_
    rw [isListable_iff.mp hall.1 _ hmem] at hclosed
    cases hclosed
  | held hpruned hsub hmem hollow hheld =>
    rw [Set.empty_union] at hsub
    refine hpruned.stopped hsub h hevolves.files fun hall => ?_
    obtain ⟨hbegins, hhollow⟩ := (mem_branch_iff hdir h.linkFree).mp ⟨hmem, hollow⟩
    have hfree := hall.2 _ hbegins hhollow
    rw [hheld] at hfree
    cases hfree

/-! ### A staging directory -/

/-- A staging directory with two directories, one in the other, and a file in a third one. -/
def stagedTree (mode : Nat) : FileTree :=
  ((sampleTree false none [[], ["1"], ["kept"]]).set ["w", stagingName, "1", "build"] (.directory mode)).set
    ["w", stagingName, "kept", "note"] (.file ⟨.empty, sampleTime, 0o644⟩)

lemma mem_stagedTree {mode : Nat} {q : Place} {node : FileNode} (hne : q ≠ [])
    (h : (stagedTree mode).get? q = some node) :
    (q, node) ∈ [(["w"], .directory 0o755), (["w", stagingName], .directory 0o755),
      (["w", stagingName, "1"], .directory 0o755), (["w", stagingName, "1", "build"], .directory mode),
      (["w", stagingName, "kept"], .directory 0o755),
      (["w", stagingName, "kept", "note"], .file ⟨.empty, sampleTime, 0o644⟩)] := by
  rw [FileTree.get?, if_neg (by simpa using hne)] at h
  exact (get?_eq_some _ _ _).mp h

lemma namesTree_staged (mode : Nat) : NamesTree (stagedTree mode) (Path.join "." stagingName) ["w", stagingName] where
  rooted := by
    intro place name hthere
    obtain ⟨node, hnode⟩ := Option.ne_none_iff_exists'.mp hthere
    have hmem := List.mem_map_of_mem (f := fun e => e.1.dropLast) (mem_stagedTree (by simp) hnode)
    rw [List.dropLast_concat] at hmem
    simp only [List.map_cons, List.map_nil, List.mem_cons, List.not_mem_nil, or_false] at hmem
    rcases hmem with rfl | rfl | rfl | rfl | rfl | rfl <;> exact ⟨_, rfl⟩
  named := ⟨".", stagingName, by decide, rfl⟩
  leads := by rfl
  directory := ⟨0o755, by rfl⟩
  linkFree := by
    intro names target hlink
    have hmem := mem_stagedTree (by simp) hlink
    simp at hmem

lemma isHollow_staged (mode : Nat) : IsHollow (stagedTree mode) ["w", stagingName, "1"] where
  directory := ⟨0o755, by rfl⟩
  noFile := by
    intro names
    cases hfile : fileAt (stagedTree mode) (["w", stagingName, "1"] ++ names) with
    | none => rfl
    | some f =>
      have hmem := mem_stagedTree (by simp) (get?_of_fileAt hfile)
      simp at hmem

lemma branch_staged (mode : Nat) : branch (stagedTree mode) ["w", stagingName] =
    [["w", stagingName], ["w", stagingName, "1"], ["w", stagingName, "1", "build"], ["w", stagingName, "kept"]] := by
  have hbelow : directoriesBelow (stagedTree mode) ["w", stagingName] = [["1"], ["1", "build"], ["kept"]] := by rfl
  rw [branch, hbelow]
  rfl

/-- Nothing is left but what leads to the file. -/
theorem pruneStaging_clears_staged : NamesTree (stagedTree 0o755) (Path.join "." stagingName) ["w", stagingName] ∧
    ∃ m' : Machine Unit, pruneStaging (Path.join "." stagingName) ⟨stagedTree 0o755, sampleTime, ()⟩ = (.ok (), m') ∧
      m'.files.get? ["w", stagingName, "1"] = none ∧ m'.files.get? ["w", stagingName, "1", "build"] = none ∧
      m'.files.get? ["w", stagingName, "kept"] ≠ none ∧
      fileAt m'.files ["w", stagingName, "kept", "note"] = some ⟨.empty, sampleTime, 0o644⟩ := by
  have hnames := namesTree_staged 0o755
  have hclears := pruneStaging_clears (m := (⟨stagedTree 0o755, sampleTime, ()⟩ : Machine Unit)) hnames
  have hpruned : (pruneFrom (⟨stagedTree 0o755, sampleTime, ()⟩ : Machine Unit) (Path.join "." stagingName)
      ["w", stagingName] (branch (stagedTree 0o755) ["w", stagingName])).2 = none := by
    rw [branch_staged]
    decide +kernel
  rw [run_pruneStaging hnames.leads hnames.directory, hpruned] at hclears ⊢
  have hcleared := hclears.cleared rfl
  refine ⟨hnames, _, rfl, ?_, ?_, ?_, ?_⟩
  · exact (hcleared _ ⟨["1"], rfl⟩ ⟨0o755, by rfl⟩).mpr (isHollow_staged 0o755).noFile
  · exact (hcleared _ ⟨["1", "build"], rfl⟩ ⟨0o755, by rfl⟩).mpr fun names =>
      (isHollow_staged 0o755).noFile ("build" :: names)
  · intro hgone
    have hnone := (hcleared _ ⟨["kept"], rfl⟩ ⟨0o755, by rfl⟩).mp hgone ["note"]
    cases hnone
  · rw [hclears.files]
    rfl

/-- A directory that cannot be listed stays, with the one that it is in, though neither leads to a file. -/
theorem pruneStaging_stops_at_locked : NamesTree (stagedTree 0) (Path.join "." stagingName) ["w", stagingName] ∧
    IsHollow (stagedTree 0) ["w", stagingName, "1"] ∧
    ∃ m' : Machine Unit, pruneStaging (Path.join "." stagingName) ⟨stagedTree 0, sampleTime, ()⟩ =
        (.error .walk, m') ∧
      m'.files.get? ["w", stagingName, "1"] = some (.directory 0o755) := by
  have hnames := namesTree_staged 0
  have hpruned : pruneFrom (⟨stagedTree 0, sampleTime, ()⟩ : Machine Unit) (Path.join "." stagingName)
      ["w", stagingName] (branch (stagedTree 0) ["w", stagingName]) = (stagedTree 0, some .walk) := by
    rw [branch_staged]
    decide +kernel
  rw [run_pruneStaging hnames.leads hnames.directory, hpruned]
  exact ⟨hnames, isHollow_staged 0, _, rfl, by rfl⟩

end CrossBuild.Proofs
