import CrossBuild.CommandLine.Handoff
import CrossBuild.Proofs.UploadContent

/-!
# What an upload packs that names no path

Such an upload packs the files of the workspace that are later than its marker. The marker may be any path,
and whether it is there is only known when it is looked at: a job that has failed may not have come as far
as making it, and then all files count, while for any other job there is nothing to compare files with and
nothing is stored.
-/

namespace CrossBuild.Proofs
open CrossBuild.Path Handoff

variable {σ : Type}

/-! ### Errors of a selection -/

lemma walkFiles_eq_error {t : FileTree} {root : String} {e : HandoffError} (h : walkFiles t root = .error e) :
    e = .walk := by
  simp only [walkFiles, bind_eq_error] at h
  rcases h with h | ⟨_, _, h⟩
  · unfold walk at h
    split at h
    · cases h
      rfl
    · dsimp only at h
      split at h
      · cases h
        rfl
      · cases h
  · cases h

lemma inWorkspace_ne_markerMissing {workspace path marker : String} :
    inWorkspace workspace path ≠ .error (.markerMissing marker) := by
  unfold inWorkspace
  split
  · simp
  · simp

lemma artifactPath_ne_markerMissing {workspace path marker : String} :
    artifactPath workspace path ≠ .error (.markerMissing marker) := by
  unfold artifactPath safePath
  split
  · split
    · simp
    · simp
  · split
    · simp
    · simp

lemma markerTime_markerMissing {t : FileTree} {path missing : String}
    (h : markerTime t path = .error (.markerMissing missing)) : t.node path = .error .notFound := by
  cases hnode : t.node path with
  | ok node =>
    obtain ⟨q, hplace, hget⟩ := node_iff_place.mp hnode
    rw [markerTime_of_place hplace hget] at h
    cases h
  | error fault =>
    rw [markerTime_of_error hnode] at h
    by_cases hfault : fault = .notFound
    · rw [hfault]
    · rw [if_neg hfault] at h
      cases h

/-- Only a marker that is looked for can be missing. -/
lemma selected_markerMissing {t : FileTree} {workspace missing : String} {selection : UploadSelection}
    (h : selected t workspace selection = .error (.markerMissing missing)) :
    ∃ marker, selection = .modifiedSince marker ∧ t.node (join workspace marker) = .error .notFound := by
  have hmapM : ∀ found : List Found,
      found.mapM (fun x => inWorkspace workspace x.1) ≠ .error (.markerMissing missing) := by
    intro found herror
    obtain ⟨_, x, _, _, _, hx⟩ := mapM_eq_error.mp herror
    exact inWorkspace_ne_markerMissing hx
  cases selection with
  | all =>
    simp only [selected, bind_eq_error] at h
    rcases h with h | ⟨found, _, h⟩
    · cases walkFiles_eq_error h
    · exact (hmapM found h).elim
  | path path =>
    simp only [selected, namedFiles, bind_eq_error] at h
    rcases h with h | ⟨rest, _, h⟩
    · exact (artifactPath_ne_markerMissing h).elim
    · split at h
      · cases h
      · split at h
        · cases h
        · rcases bind_eq_error.mp h with h | ⟨found, _, h⟩
          · cases walkFiles_eq_error h
          · exact (hmapM found h).elim
  | modifiedSince marker =>
    refine ⟨marker, rfl, ?_⟩
    simp only [selected, modifiedSince, datedFiles, bind_eq_error] at h
    rcases h with h | ⟨time, htime, ⟨h | ⟨files, hfiles, h⟩⟩ | ⟨files, hfiles, h⟩⟩
    · exact markerTime_markerMissing h
    · cases walkFiles_eq_error h
    · split at h
      · cases h
      · cases h
    · exact (hmapM _ h).elim

/-! ### Calls -/

/-- Where the call looks for its marker. -/
def markerPath (store : CommandLine.StoreOptions) (options : CommandLine.UploadOptions) : String :=
  join store.workspace (options.marker.getD startMarker)

/-- What is asked of the store that has been opened. -/
def requestOf (files : FileTree) (store : CommandLine.StoreOptions) (options : CommandLine.UploadOptions)
    (key : BundleKey) : UploadRequest :=
  ⟨store.workspace, key, store.selection files options, options.tag.map BundleTag.ofName⟩

section Calls

variable {exec : Executor (Machine σ)} {store : CommandLine.StoreOptions} {options : CommandLine.UploadOptions}
  {m m₁ : Machine σ} {opened : Store σ} {key : BundleKey} (hopen : Gives (store.openStore exec) m opened m₁)
  (hkey : store.bundleKey options = .ok key)

include hopen

/-- A store that is opened may need directories, but no file is touched for it. -/
lemma opened_spares : fileAt m₁.files = fileAt m.files ∧ (IsSound m.files → IsSound m₁.files) := by
  unfold CommandLine.StoreOptions.openStore at hopen
  cases hdir : store.storeDir with
  | some dir =>
    simp only [hdir, Directory.setUp, gives_bind, gives_widen, gives_makeDirectories, gives_pure] at hopen
    obtain ⟨_, _, ⟨_, _, ⟨objects, hobjects, rfl⟩, records, hrecords, rfl⟩, _, rfl⟩ := hopen
    refine ⟨?_, fun ht => ?_⟩
    · exact (makeDirectories_evolves hrecords).files.trans (makeDirectories_evolves hobjects).files
    · have hsound := ht.makeDirectories (Directory.objectsDir ⟨dir, .standard⟩) m.now
      rw [hobjects] at hsound
      have hsound := hsound.makeDirectories (Directory.recordsDir ⟨dir, .standard⟩) m.now
      rwa [hrecords] at hsound
  | none =>
    cases hbucket : store.bucket with
    | some name =>
      simp only [hdir, hbucket, gives_pure] at hopen
      obtain ⟨_, rfl⟩ := hopen
      exact ⟨rfl, id⟩
    | none =>
      simp only [hdir, hbucket] at hopen
      exact (gives_throw hopen).elim

include hkey

lemma upload_eq : CommandLine.upload exec store options m =
    Task.widen (.upload options.job) (Handoff.upload opened (requestOf m₁.files store options key)) m₁ := by
  have hrequest : store.uploadRequest m₁.files options = .ok (requestOf m₁.files store options key) := by
    simp only [CommandLine.StoreOptions.uploadRequest, hkey]
    rfl
  unfold CommandLine.upload
  rw [run_bind, show store.openStore exec m = (.ok opened, m₁) from hopen]
  dsimp only
  rw [run_bind, show (get : Task σ CommandLine.Failure (Machine σ)) m₁ = (.ok m₁, m₁) from rfl]
  dsimp only
  rw [run_bind, hrequest]
  rfl

lemma upload_fails {e : HandoffError} {m' : Machine σ}
    (h : Handoff.upload opened (requestOf m₁.files store options key) m₁ = (.error e, m')) :
    CommandLine.upload exec store options m = (.error (.upload options.job e), m') := by
  rw [upload_eq hopen hkey, Task.widen, h]

lemma exists_of_upload_fails {e : HandoffError}
    (h : (CommandLine.upload exec store options m).1 = .error (.upload options.job e)) :
    ∃ m', Handoff.upload opened (requestOf m₁.files store options key) m₁ = (.error e, m') := by
  rw [upload_eq hopen hkey, Task.widen] at h
  rcases hrun : Handoff.upload opened (requestOf m₁.files store options key) m₁ with ⟨fault | report, after⟩
  · rw [hrun] at h
    cases h
    exact ⟨_, rfl⟩
  · rw [hrun] at h
    cases h

end Calls

/-! ### Uploads of what is wanted -/

/-- Of the files that there were before the call, it packs just the wanted ones below a place. -/
def UploadsWanted (exec : Executor (Machine σ)) (store : CommandLine.StoreOptions)
    (options : CommandLine.UploadOptions) (m m₁ : Machine σ) (opened : Store σ) (key : BundleKey) (w : Place)
    (wanted : File → Prop) : Prop :=
  UploadsJust (CommandLine.upload exec store options) (fun fault => .upload options.job (.store fault)) m m₁ opened
    (requestOf m₁.files store options key) (ArePathsOf m.files w wanted pathOfNames)
    (CanPack m₁.files store.workspace w wanted)

lemma pathOfNames_injective (a b : Place) (ha : a ≠ []) (hb : b ≠ []) (hnames : ∀ name ∈ a, IsFileName name)
    (hnames' : ∀ name ∈ b, IsFileName name) (h : pathOfNames a = pathOfNames b) : a = b := by
  rw [← namesOf_pathOfNames hnames ha, h, namesOf_pathOfNames hnames' hb]

section Unnamed

variable {exec : Executor (Machine σ)} {store : CommandLine.StoreOptions} {options : CommandLine.UploadOptions}
  {m m₁ : Machine σ} {opened : Store σ} {key : BundleKey} (hopen : Gives (store.openStore exec) m opened m₁)
  (hkey : store.bundleKey options = .ok key) (ht : IsSound m.files) {w : Place}

include hopen hkey ht

/-- It is enough to know when a selection succeeds and what it is then. -/
lemma uploadsWanted_of_selected (hpath : options.path = none) (wanted : File → Bool) (Selectable : Prop)
    (hselected : ∀ paths, selected m₁.files store.workspace (store.selection m₁.files options) = .ok paths ↔
      Selectable ∧ ((walkedFiles m₁.files w).filter fun own => wanted own.2).map (fun own => pathOfNames own.1) = paths)
    (hselectable : CanPack m₁.files store.workspace w (wanted · = true) → Selectable) :
    UploadsWanted exec store options m m₁ opened key w (wanted · = true) := by
  obtain ⟨hfiles, hopened⟩ := opened_spares hopen
  have hpaths : ArePathsOf m₁.files w (wanted · = true) pathOfNames
      (((walkedFiles m₁.files w).filter fun own => wanted own.2).map fun own => pathOfNames own.1) :=
    arePathsOf_map (hopened ht).named pathOfNames_injective wanted
  refine (uploadsJust_of_selected (hopened ht) (fun path hselection => ?_) (fun paths h => ?_) fun hcan => ?_).widen
    (upload_eq hopen hkey)
  · simp only [requestOf, CommandLine.StoreOptions.selection, hpath] at hselection
    split at hselection
    · cases hselection
    · cases hselection
  · obtain ⟨_, rfl⟩ := (hselected paths).mp h
    exact hpaths.of_files hfiles
  · refine ⟨_, (hselected _).mpr ⟨hselectable hcan, rfl⟩, fun path hmem => ?_⟩
    obtain ⟨names, f, hkept, hf, hwanted, rfl⟩ := (hpaths.mem path).mp hmem
    exact hcan.read names f hkept hf hwanted

/-- What an upload packs that names no path, once its store is open and its key is accepted. If its marker
leads anywhere, these are the files later than what it leads to, a file or a directory. Otherwise all files
are packed for a job that has failed, while for any other job nothing is stored: the marker is said to be
missing if it is not found, and where its path cannot be followed the reason is told. -/
theorem upload_unnamed (hpath : options.path = none) (hw : m₁.files.place store.workspace = .ok w) :
    (∀ q node, m₁.files.place (markerPath store options) = .ok q → m₁.files.get? q = some node →
      UploadsWanted exec store options m m₁ opened key w
        fun f => f.modified.isAfter (modifiedAt m₁.files q node) = true) ∧
    (∀ fault, m₁.files.node (markerPath store options) = .error fault →
      (options.failed = true → UploadsWanted exec store options m m₁ opened key w fun _ => True) ∧
      (options.failed = false → CommandLine.upload exec store options m =
        (.error (.upload options.job
          (if fault = .notFound then .markerMissing (markerPath store options) else .file fault)), m₁))) ∧
    (options.failed = true → ∀ path,
      (CommandLine.upload exec store options m).1 ≠ .error (.upload options.job (.markerMissing path))) := by
  have hleads : ∀ node, m₁.files.node (markerPath store options) = .ok node →
      store.selection m₁.files options = .modifiedSince (options.marker.getD startMarker) := by
    intro node hnode
    have hany : m₁.files.leadsToAny (join store.workspace (options.marker.getD startMarker)) = true := by
      unfold FileTree.leadsToAny
      rw [show m₁.files.node (join store.workspace _) = .ok node from hnode]
    simp [CommandLine.StoreOptions.selection, hpath, hany]
  have hlost : ∀ fault, m₁.files.node (markerPath store options) = .error fault → store.selection m₁.files options =
      if options.failed then .all else .modifiedSince (options.marker.getD startMarker) := by
    intro fault hfault
    have hnone : m₁.files.leadsToAny (join store.workspace (options.marker.getD startMarker)) = false := by
      unfold FileTree.leadsToAny
      rw [show m₁.files.node (join store.workspace _) = .error fault from hfault]
    simp [CommandLine.StoreOptions.selection, hpath, hnone]
  obtain ⟨_, hopened⟩ := opened_spares hopen
  have hsound := hopened ht
  refine ⟨fun q node hplace hnode => ?_, fun fault hfault => ⟨fun hfailed => ?_, fun hfine => ?_⟩, fun hfailed path h => ?_⟩
  · refine uploadsWanted_of_selected hopen hkey ht hpath (fun f => f.modified.isAfter (modifiedAt m₁.files q node))
      (IsOpen m₁.files store.workspace w ∧ ∀ own ∈ walkedFiles m₁.files w,
        m₁.files.isFile (join store.workspace (pathOfNames own.1)) = true) (fun paths => ?_) (fun hcan => ?_)
    · rw [hleads node (node_iff_place.mpr ⟨q, hplace, hnode⟩),
        selected_since hw hsound (markerTime_of_place hplace hnode), and_assoc]
    · refine ⟨hcan.listed, fun own hown => ?_⟩
      obtain ⟨hkept, hf⟩ := mem_walkedFiles.mp hown
      exact hcan.seen own.1 own.2 hkept hf
  · have hall : UploadsWanted exec store options m m₁ opened key w fun _ => true = true := by
      refine uploadsWanted_of_selected hopen hkey ht hpath (fun _ => true) (IsOpen m₁.files store.workspace w)
        (fun paths => ?_) (fun hcan => hcan.listed)
      rw [hlost fault hfault, hfailed, if_pos rfl, selected_all hw hsound.named, List.filter_true]
    simpa using hall
  · refine upload_fails hopen hkey (upload_of_unselected ?_)
    dsimp only [requestOf]
    rw [hlost fault hfault, hfine, if_neg Bool.false_ne_true]
    simp only [selected, modifiedSince]
    rw [show markerTime m₁.files (join store.workspace _) = _ from markerTime_of_error hfault]
    rfl
  · obtain ⟨m', hrun⟩ := exists_of_upload_fails hopen hkey h
    have hmissing : selected m₁.files store.workspace (store.selection m₁.files options) =
        .error (.markerMissing path) := by
      cases hsel : selected m₁.files store.workspace (store.selection m₁.files options) with
      | error e =>
        rw [upload_of_unselected hsel] at hrun
        cases hrun
        rfl
      | ok paths =>
        rcases fault_of_selected hsel hrun with ⟨_, heq, _⟩ | ⟨_, heq⟩
        · cases heq
        · cases heq
    obtain ⟨marker, hselection, hnode⟩ := selected_markerMissing hmissing
    cases hfound : m₁.files.node (markerPath store options) with
    | ok node =>
      rw [hleads node hfound] at hselection
      cases hselection
      rw [markerPath, hnode] at hfound
      cases hfound
    | error fault =>
      rw [hlost fault hfound, hfailed, if_pos rfl] at hselection
      cases hselection

end Unnamed

/-- A directory that is the marker is as late as the last change of its entries. -/
example : [sampleTime, (workFile 0o644).modified].map (fun now =>
    (selected ((workTree 0o644).makeDirectories "src" now).1 "." (.modifiedSince "src")).toOption) =
      [some ["made"], some []] := by
  decide +kernel

/-- A job that dies early, with a bucket as its store. -/
def bucketStore : CommandLine.StoreOptions := ⟨none, some "bundles", "7", "."⟩

def bucketExec : Executor (Machine Unit) := fun _ => pure (.ok ⟨0, "", ""⟩)

def bucketOptions (failed : Bool) (marker : Option String) : CommandLine.UploadOptions :=
  ⟨"build", "job", failed, none, marker, none⟩

lemma gives_openStore_bucket (m : Machine Unit) : Gives (bucketStore.openStore bucketExec) m
    (Bucket.store ⟨"bundles", CommandLine.bucketClient, CommandLine.scratchFile⟩ bucketExec) m := rfl

lemma bundleKey_bucket (failed : Bool) (marker : Option String) :
    bucketStore.bundleKey (bucketOptions failed marker) = .ok ⟨"7", "build", "job", failed⟩ := by
  have hparts : BundleKey.ofParts "7" "build" "job" = .ok ⟨"7", "build", "job", false⟩ := by decide +kernel
  unfold CommandLine.StoreOptions.bundleKey
  dsimp only [bucketStore, bucketOptions]
  rw [hparts]
  cases failed with
  | false | true => rfl

/-- A job that has made one file before it died packs this file. -/
theorem upload_unnamed_died : IsSound (workTree 0o644) ∧
    (workTree 0o644).node (markerPath bucketStore (bucketOptions true none)) = .error .notFound ∧
    ∃ paths data, Archive.pack (workTree 0o644) "." paths = .ok data ∧ "made" ∈ paths := by
  let m : Machine Unit := ⟨workTree 0o644, sampleTime, ()⟩
  have hsound : IsSound m.files := isSound_workTree 0o644
  have hlost : m.files.node (markerPath bucketStore (bucketOptions true none)) = .error .notFound := by rfl
  obtain ⟨_, hall, _⟩ := upload_unnamed (gives_openStore_bucket m) (bundleKey_bucket true none) hsound rfl
    (show m.files.place "." = .ok ["w"] by rfl)
  have hmade : ∀ names f, fileAt m.files (["w"] ++ names) = some f → names = ["made"] := by
    intro names f hf
    rcases get?_workTree (get?_of_fileAt hf) with h | h | ⟨h, _⟩
    · simp at h
    · obtain rfl : names = [] := by simpa using h
      cases hf
    · simpa using h
  have hcan : CanPack m.files "." ["w"] fun _ => True := by
    refine ⟨⟨fun _ _ => by rfl, fun names mode hkept hnode => ?_⟩, fun names f _ hf => ?_, fun names f _ hf _ => ?_⟩
    · rcases get?_workTree hnode with h | h | ⟨_, h⟩
      · simp at h
      · exact (hkept.nonempty (by simpa using h)).elim
      · cases h
    · rw [hmade names f hf]
      rfl
    · rw [hmade names f hf]
      exact ⟨_, by rfl⟩
  obtain ⟨paths, data, hpaths, hdata, _⟩ := ((hall _ hlost).1 rfl).reached hcan
  refine ⟨hsound, hlost, paths, data, hdata, (hpaths.mem "made").mpr ?_⟩
  exact ⟨["made"], workFile 0o644, ⟨by simp, by decide⟩, by rfl, trivial, by decide⟩

/-- A name of so many letters. -/
def letters (n : Nat) : String := String.ofList (List.replicate n 'a')

lemma utf8ByteSize_letters (n : Nat) : (letters n).utf8ByteSize = n := by
  rw [← length_toUTF8, toUTF8_toList, letters, String.toList_ofList]
  induction n with
  | zero => rfl
  | succ n ih =>
    rw [List.replicate_succ, List.flatMap_cons, List.length_append, ih, Nat.add_comm]
    rfl

lemma not_mem_letters {n : Nat} {c : Char} (h : c ≠ 'a') : c ∉ (letters n).toList := by
  rw [letters, String.toList_ofList]
  exact fun hmem => h (List.eq_of_mem_replicate hmem)

/-- A name that no file can have is refused, whether or not there could be one. -/
lemma node_letters {t : FileTree} (h : t.checkDirectory t.current FileTree.searchBit = .ok ()) {n : Nat}
    (hlong : FileTree.longestName < n) (hn : n + 2 ≤ FileTree.longestPath) :
    t.node (join "." (letters n)) = .error .nameTooLong := by
  have hname : IsFileName (letters n) := by
    have hother : ∀ name : String, name.utf8ByteSize ≤ FileTree.longestName → letters n ≠ name := by
      rintro _ hsize rfl
      rw [utf8ByteSize_letters] at hsize
      omega
    exact ⟨hother _ (by decide), not_mem_letters (by decide), hother _ (by decide), hother _ (by decide)⟩
  have hrelative : isAbsolute (letters n) = false := by
    unfold isAbsolute
    rw [beq_eq_false_iff_ne]
    exact fun hhead => hname.slashless (List.mem_of_head? hhead)
  have hjoin : join "." (letters n) = "./" ++ letters n := by
    rw [join_eq "." hrelative]
    rfl
  have hsize : (join "." (letters n)).utf8ByteSize = n + 2 := by
    rw [hjoin, String.utf8ByteSize_append, utf8ByteSize_letters, Nat.add_comm]
    rfl
  have hzero : '\x00' ∉ (join "." (letters n)).toList := by
    rw [hjoin, String.toList_append, List.mem_append, not_or]
    exact ⟨by decide, not_mem_letters (by decide)⟩
  have hempty : join "." (letters n) ≠ "" := by
    intro hempty
    rw [hempty] at hsize
    cases hsize
  have hcheck : FileTree.checkPath (join "." (letters n)) = .ok () := by
    simp [FileTree.checkPath, hzero, hsize, hempty, hn]
  have hstart : isAbsolute (join "." (letters n)) = false := by
    rw [isAbsolute_join "." hrelative]
    decide
  have hspot : t.spotOfSteps true (join "." (letters n)) [.into (letters n)] = .error .nameTooLong := by
    simp [FileTree.spotOfSteps, FileTree.walkLinks, FileTree.walk, hstart, h, utf8ByteSize_letters, hlong]
  have hsteps : FileTree.stepsOf (join "." (letters n)) = [.into (letters n)] := stepsOf_join_name "." hname
  simp only [FileTree.node, FileTree.place, FileTree.spot, hcheck, hsteps, bind, Except.bind, hspot]

/-- A workspace with a file that is later than its marker and cannot be read. -/
def lockedTree : FileTree := (workTree 0).set ["w", startMarker] (.file ⟨.empty, sampleTime, 0o644⟩)

/-- A marker with a name that is too long is not said to be missing, although there is no file that its path
could lead through, and a file that is later than the marker is not packed if it cannot be read. -/
theorem upload_unnamed_faults :
    ((∀ q, fileAt (sampleTree false none []) q = none) ∧
      CommandLine.upload bucketExec bucketStore (bucketOptions false (some (letters 256)))
          ⟨sampleTree false none [], sampleTime, ()⟩ =
        (.error (.upload "job" (.file .nameTooLong)), ⟨sampleTree false none [], sampleTime, ()⟩)) ∧
    fileAt lockedTree ["w", "made"] = some (workFile 0) ∧ (workFile 0).modified.isAfter sampleTime = true ∧
      lockedTree.node (markerPath bucketStore (bucketOptions false none)) = .ok (.file ⟨.empty, sampleTime, 0o644⟩) ∧
      CommandLine.upload bucketExec bucketStore (bucketOptions false none) ⟨lockedTree, sampleTime, ()⟩ =
        (.error (.upload "job" (.archive (.file .denied))), ⟨lockedTree, sampleTime, ()⟩) := by
  refine ⟨⟨fun q => ?_, ?_⟩, by rfl, by decide, by rfl, ?_⟩
  · cases hf : fileAt (sampleTree false none []) q with
    | none => rfl
    | some f =>
      by_cases hq : q = []
      · rw [hq] at hf
        cases hf
      · have hnode := get?_of_fileAt hf
        obtain rfl := eq_of_get?_sampleTree hq (by simp [hnode])
        cases hf
  · have hnode : (sampleTree false none []).node (join "." (letters 256)) = .error .nameTooLong :=
      node_letters (by rfl) (by decide) (by decide)
    have hselection : bucketStore.selection (sampleTree false none []) (bucketOptions false (some (letters 256))) =
        .modifiedSince (letters 256) := rfl
    have hmarker : markerTime (sampleTree false none []) (join "." (letters 256)) =
        .error (.file .nameTooLong) := markerTime_of_error hnode
    refine upload_fails (gives_openStore_bucket _) (bundleKey_bucket false _) (upload_of_unselected ?_)
    dsimp only [requestOf]
    rw [hselection]
    simp only [selected, modifiedSince]
    rw [show markerTime _ (join bucketStore.workspace (letters 256)) = _ from hmarker]
    rfl
  · have hselected : selected lockedTree "." (.modifiedSince startMarker) = .ok ["made"] := by
      decide +kernel
    have hselection : bucketStore.selection lockedTree (bucketOptions false none) = .modifiedSince startMarker := by rfl
    refine upload_fails (gives_openStore_bucket _) (bundleKey_bucket false none) (upload_of_unpacked ?_
      (show Archive.pack lockedTree "." ["made"] = .error (.file .denied) by rfl))
    dsimp only [requestOf]
    rw [hselection]
    exact hselected

end CrossBuild.Proofs
