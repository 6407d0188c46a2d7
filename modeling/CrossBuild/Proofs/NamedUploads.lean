import CrossBuild.Proofs.UploadContent

/-!
# What an upload packs that names a path

A path that leads to a file selects this file, and one that leads to a directory selects the files below the
directory. Names that belong to the handoff are passed over where a walk starts, so here they are passed
over right below the directory that is named: a directory with a repository in it is not packed whole.
-/

namespace CrossBuild.Proofs
open CrossBuild.Path Handoff

/-! ### What a path selects -/

section Selected

variable {t : FileTree} {workspace path : String} (hplain : isPlain path = true)

include hplain

lemma artifactPath_of_plain : artifactPath workspace path = .ok path := by
  rw [artifactPath, (isPlain_names hplain).1, if_neg Bool.false_ne_true, safePath, if_pos hplain]

lemma selected_file (hfile : t.isFile (join workspace path) = true) :
    selected t workspace (.path path) = .ok [path] := by
  simp only [selected, namedFiles, artifactPath_of_plain hplain, bind, Except.bind, hfile, if_true]
  rfl

lemma selected_directory (ht : HasFileNames t) {d : Place} {mode : Nat}
    (hplace : t.place (join workspace path) = .ok d) (hdir : t.get? d = some (.directory mode)) {paths : List String} :
    selected t workspace (.path path) = .ok paths ↔ IsOpen t (join workspace path) d ∧
      (walkedFiles t d).map (fun own => join path (pathOfNames own.1)) = paths := by
  have hnode : t.node (join workspace path) = .ok (.directory mode) := node_iff_place.mpr ⟨d, hplace, hdir⟩
  have hnoFile : t.isFile (join workspace path) = false := by
    simp only [FileTree.isFile, FileTree.file, hnode, bind, Except.bind]
    rfl
  have hdirectory : t.isDirectory (join workspace path) = true := isDirectory_iff.mpr ⟨mode, hnode⟩
  have hbelow := mapM_inWorkspace_join (lead_of_plain hplain)
    (fun hmore => join_assoc workspace (isPlain_names hplain).1 hmore) fun own => isFileName_of_walked (w := d) ht
  simp only [selected, namedFiles, artifactPath_of_plain hplain, bind_eq_ok, Except.ok.injEq, exists_eq_left', hnoFile,
    hdirectory, Bool.not_true, Bool.false_eq_true, if_false, walkFiles_eq_ok hplace]
  constructor
  · rintro ⟨_, ⟨hopen, rfl⟩, hpaths⟩
    rw [hbelow, Except.ok.injEq] at hpaths
    exact ⟨hopen, hpaths⟩
  · rintro ⟨hopen, rfl⟩
    exact ⟨_, ⟨hopen, rfl⟩, hbelow⟩

end Selected

lemma join_pathOfNames_injective (path : String) (a b : Place) (ha : a ≠ []) (hb : b ≠ [])
    (hnames : ∀ name ∈ a, IsFileName name) (hnames' : ∀ name ∈ b, IsFileName name)
    (h : join path (pathOfNames a) = join path (pathOfNames b)) : a = b := by
  refine (same_join path hnames ha hnames' hb).mp ?_
  rw [h, Path.same, beq_self_eq_true]

/-! ### Uploads -/

/-- The paths are those of the files below a directory that is named by a path, but for what is passed over
right below it. -/
def ArePathsBelow (t : FileTree) (d : Place) (path : String) : List String → Prop :=
  ArePathsOf t d (fun _ => True) fun names => join path (pathOfNames names)

/-- No file below a directory is passed over. -/
def IsWalkedWhole (t : FileTree) (d : Place) : Prop :=
  ∀ name ∈ ignoredNames, ∀ names, fileAt t (d ++ name :: names) = none

lemma ArePathsBelow.whole_iff {t : FileTree} (ht : HasFileNames t) {d : Place} {path : String} {paths : List String}
    (h : ArePathsBelow t d path paths) :
    (∀ names f, names ≠ [] → fileAt t (d ++ names) = some f → join path (pathOfNames names) ∈ paths) ↔
      IsWalkedWhole t d := by
  constructor
  · intro hall name hignored names
    by_contra hsome
    obtain ⟨f, hf⟩ := Option.ne_none_iff_exists'.mp hsome
    obtain ⟨names', f', hkept, hf', _, heq⟩ := (h.mem _).mp (hall (name :: names) f (List.cons_ne_nil _ _) hf)
    have hnamed : ∀ {below : Place} {g : File}, fileAt t (d ++ below) = some g → ∀ part ∈ below, IsFileName part := by
      intro below g hg part hpart
      exact hasFileNames_iff.mp ht (d ++ below) (by simp [get?_of_fileAt hg]) part (List.mem_append_right d hpart)
    obtain rfl := join_pathOfNames_injective path _ _ hkept.nonempty (List.cons_ne_nil _ _) (hnamed hf') (hnamed hf) heq
    exact hkept.first name rfl hignored
  · intro hwhole names f hne hf
    refine (h.mem _).mpr ⟨names, f, ⟨hne, fun name hfirst hignored => ?_⟩, hf, trivial, rfl⟩
    obtain ⟨rest, rfl⟩ : ∃ rest, names = name :: rest := List.head?_eq_some_iff.mp hfirst
    rw [hwhole name hignored rest] at hf
    cases hf

/-- An upload of a path that leads to a file packs just this file. An upload of one that leads to a directory
packs, each once, the files below the directory at any depth whose names from there on do not begin with one
that is passed over, so it packs all files below it just if no file is passed over. -/
theorem upload_named {σ : Type} {store : Store σ} {request : UploadRequest} {m : Machine σ} {path : String}
    (hselection : request.selection = .path path) (hplain : isPlain path = true) (ht : IsSound m.files) :
    (m.files.isFile (join request.workspace path) = true →
      UploadsJust (Handoff.upload store request) .store m m store request (fun paths => paths = [path])
        (∃ data, m.files.read (join request.workspace path) = .ok data)) ∧
    ∀ d mode, m.files.place (join request.workspace path) = .ok d → m.files.get? d = some (.directory mode) →
      UploadsJust (Handoff.upload store request) .store m m store request (ArePathsBelow m.files d path)
        (CanPack m.files (join request.workspace path) d fun _ => True) ∧
      ∀ paths, ArePathsBelow m.files d path paths →
        ((∀ names f, names ≠ [] → fileAt m.files (d ++ names) = some f → join path (pathOfNames names) ∈ paths) ↔
          IsWalkedWhole m.files d) := by
  have hrelative : ∀ other, request.selection = .path other → isAbsolute other = false := by
    intro other hother
    rw [hselection] at hother
    cases hother
    exact (isPlain_names hplain).1
  refine ⟨fun hfile => ?_, fun d mode hplace hdir => ⟨?_, fun paths hpaths => hpaths.whole_iff ht.named⟩⟩
  · refine uploadsJust_of_selected ht hrelative (fun paths h => ?_) fun hread => ?_
    · rw [hselection, selected_file hplain hfile, Except.ok.injEq] at h
      exact h.symm
    · refine ⟨[path], by rw [hselection, selected_file hplain hfile], ?_⟩
      rwa [List.forall_mem_singleton]
  · have hpaths : ArePathsBelow m.files d path
        ((walkedFiles m.files d).map fun own => join path (pathOfNames own.1)) := by
      have hall := arePathsOf_map (w := d) ht.named (join_pathOfNames_injective path) fun _ => true
      rw [List.filter_true] at hall
      exact ⟨hall.nodup, by simpa using hall.mem⟩
    refine uploadsJust_of_selected ht hrelative (fun paths h => ?_) fun hcan => ?_
    · rw [hselection] at h
      obtain ⟨_, rfl⟩ := (selected_directory hplain ht.named hplace hdir).mp h
      exact hpaths
    · refine ⟨_, by rw [hselection]; exact (selected_directory hplain ht.named hplace hdir).mpr ⟨hcan.listed, rfl⟩, ?_⟩
      intro other hother
      obtain ⟨names, f, hkept, hf, _, rfl⟩ := (hpaths.mem other).mp hother
      obtain ⟨data, hdata⟩ := hcan.read names f hkept hf trivial
      have hnames : ∀ name ∈ names, IsFileName name :=
        (isFileName_of_walked ht.named (mem_walkedFiles.mpr ⟨hkept, hf⟩)).2
      have hmore : isAbsolute (pathOfNames names) = false :=
        isAbsolute_of_lead (by rw [cut_pathOfNames hnames hkept.nonempty])
      exact ⟨data, by rw [← join_assoc request.workspace (isPlain_names hplain).1 hmore, hdata]⟩

/-- A workspace that a repository was cloned into, below the directory that is named. -/
def clonedTree : FileTree where
  nodes := .ofList [
    (["w"], .directory 0o755),
    (["w", "out"], .directory 0o755),
    (["w", "out", ".git"], .directory 0o755),
    (["w", "out", ".git", "config"], .file (workFile 0o644)),
    (["w", "out", "made"], .file (workFile 0o644))]
  current := ["w"]

lemma get?_clonedTree {q : Place} {node : FileNode} (h : clonedTree.get? q = some node) :
    q = [] ∨ (q, node) ∈ clonedTree.nodes.entries := by
  by_cases hq : q = []
  · exact .inl hq
  · have hget : clonedTree.nodes.get? q = some node := by simpa [FileTree.get?, hq] using h
    exact .inr ((get?_eq_some _ _ _).mp hget)

lemma isSound_clonedTree : IsSound clonedTree := by
  refine ⟨fun place name hthere => ?_, by decide +kernel⟩
  obtain ⟨node, hnode⟩ := Option.ne_none_iff_exists'.mp hthere
  have hparents : ∀ e ∈ clonedTree.nodes.entries,
      e.1.dropLast = [] ∨ clonedTree.get? e.1.dropLast = some (.directory 0o755) := by decide +kernel
  rcases get?_clonedTree hnode with hroot | hmem
  · simp at hroot
  · have hparent := hparents _ hmem
    rw [List.dropLast_concat] at hparent
    rcases hparent with rfl | hparent
    · exact ⟨_, get?_root _⟩
    · exact ⟨0o755, hparent⟩

section Cloned

variable {names : Place} (hkept : IsKept names)

include hkept

/-- A walk from the directory comes by one file. -/
lemma kept_clonedTree {f : File} (hf : fileAt clonedTree (["w", "out"] ++ names) = some f) : names = ["made"] := by
  have hends : ∀ e ∈ clonedTree.nodes.entries, e.2 = .directory 0o755 ∨
      e.1 = ["w", "out", ".git", "config"] ∨ e.1 = ["w", "out", "made"] := by decide +kernel
  rcases get?_clonedTree (get?_of_fileAt hf) with hroot | hmem
  · simp at hroot
  · rcases hends _ hmem with hdir | hconfig | hmade
    · cases hdir
    · obtain rfl : names = [".git", "config"] := by simpa using hconfig
      exact (hkept.first ".git" rfl (by decide)).elim
    · simpa using hmade

lemma not_directory_clonedTree {mode : Nat} : clonedTree.get? (["w", "out"] ++ names) ≠ some (.directory mode) := by
  intro hdir
  have hends : ∀ e ∈ clonedTree.nodes.entries, e.1 ∈ [["w"], ["w", "out"], ["w", "out", ".git"]] ∨
      e.2 = .file (workFile 0o644) := by decide +kernel
  rcases get?_clonedTree hdir with hroot | hmem
  · simp at hroot
  · rcases hends _ hmem with hplaces | hfile
    · have hcases : names = [] ∨ names = [".git"] := by simpa using hplaces
      rcases hcases with rfl | rfl
      · exact hkept.nonempty rfl
      · exact hkept.first ".git" rfl (by decide)
    · cases hfile

end Cloned

lemma canPack_clonedTree : CanPack clonedTree (join "." "out") ["w", "out"] fun _ => True := by
  refine ⟨⟨fun _ _ => by rfl, fun _ _ hkept hdir => (not_directory_clonedTree hkept hdir).elim⟩,
    fun names f hkept hf => ?_, fun names f hkept hf _ => ?_⟩
  · rw [kept_clonedTree hkept hf]
    rfl
  · rw [kept_clonedTree hkept hf]
    exact ⟨_, by rfl⟩

lemma paths_clonedTree {paths : List String} (h : ArePathsBelow clonedTree ["w", "out"] "out" paths) :
    paths = ["out/made"] := by
  refine List.perm_singleton.mp ((List.perm_ext_iff_of_nodup h.nodup (List.nodup_singleton _)).mpr fun path => ?_)
  rw [h.mem, List.mem_singleton]
  constructor
  · rintro ⟨names, f, hkept, hf, _, rfl⟩
    rw [kept_clonedTree hkept hf]
    decide
  · rintro rfl
    exact ⟨["made"], workFile 0o644, ⟨by simp, by decide⟩, by rfl, trivial, by decide⟩

def namedRequest : UploadRequest := ⟨".", sampleKey "build", .path "out", none⟩

/-- Of a directory with a repository in it only what is beside the repository is packed. -/
theorem upload_named_cloned : isPlain "out" = true ∧ IsSound clonedTree ∧
    clonedTree.place (join "." "out") = .ok ["w", "out"] ∧
    fileAt clonedTree ["w", "out", ".git", "config"] = some (workFile 0o644) ∧ ¬IsWalkedWhole clonedTree ["w", "out"] ∧
    ∃ report m', Gives (Handoff.upload (Memory.store .standard) namedRequest) ⟨clonedTree, sampleTime, ∅⟩ report m' ∧
      report.files = 1 ∧ ∃ data expiry, Archive.pack clonedTree "." ["out/made"] = .ok data ∧
        Gives ((Memory.store .standard).put namedRequest.key.text data none) ⟨clonedTree, sampleTime, ∅⟩ expiry m' := by
  let m : Machine Memory := ⟨clonedTree, sampleTime, ∅⟩
  have hplain : isPlain "out" = true := by decide
  have hplace : clonedTree.place (join "." "out") = .ok ["w", "out"] := by rfl
  have hconfig : fileAt clonedTree (["w", "out"] ++ ".git" :: ["config"]) = some (workFile 0o644) := by rfl
  obtain ⟨hjust, _⟩ := (@upload_named _ (Memory.store .standard) namedRequest m "out" rfl hplain isSound_clonedTree).2
    _ 0o755 hplace (by rfl)
  have hput : ∀ data, ∃ expiry m', Gives ((Memory.store .standard).put namedRequest.key.text data namedRequest.tag) m
      expiry m' := fun data => ⟨_, _, by rfl⟩
  obtain ⟨_, data, _, _, hreport⟩ := hjust.reached canPack_clonedTree
  obtain ⟨_, m', hstored⟩ := hput data
  obtain ⟨report, hrun⟩ := hreport _ _ hstored
  obtain ⟨paths, data, expiry, hpaths, hfiles, hdata, hstored⟩ := hjust.stored report m' hrun
  obtain rfl := paths_clonedTree hpaths
  refine ⟨hplain, isSound_clonedTree, hplace, hconfig, fun hwhole => ?_, report, m', hrun, hfiles, data, expiry,
    hdata, hstored⟩
  rw [hwhole ".git" (by decide) ["config"]] at hconfig
  cases hconfig

end CrossBuild.Proofs
