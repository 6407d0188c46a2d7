import CrossBuild.Proofs.PackedFiles

/-!
# What an upload packs

Whatever an upload packs is told by what it selects: the paths can be packed if their files can be read, and
then the store is all that is left to depend on. A walk selects the files that it comes by, each once.
-/

namespace CrossBuild.Proofs
open CrossBuild.Path Handoff

/-! ### Paths of wanted files -/

/-- The paths are those of the wanted files that a walk from a place comes by, each once. -/
structure ArePathsOf (t : FileTree) (w : Place) (wanted : File → Prop) (pathOf : Place → String)
    (paths : List String) : Prop where
  nodup : paths.Nodup
  mem : ∀ path, path ∈ paths ↔
    ∃ names f, IsKept names ∧ fileAt t (w ++ names) = some f ∧ wanted f ∧ pathOf names = path

/-- Nothing stands in the way of packing the wanted files: the directories can be listed, all files can be
looked at and the wanted ones can be read. -/
structure CanPack (t : FileTree) (root : String) (w : Place) (wanted : File → Prop) : Prop where
  listed : IsOpen t root w
  seen : ∀ names f, IsKept names → fileAt t (w ++ names) = some f → t.isFile (join root (pathOfNames names)) = true
  read : ∀ names f, IsKept names → fileAt t (w ++ names) = some f → wanted f →
    ∃ data, t.read (join root (pathOfNames names)) = .ok data

section Paths

variable {t : FileTree} {w : Place}

lemma arePathsOf_map (ht : HasFileNames t) {pathOf : Place → String}
    (hinjective : ∀ a b : Place, a ≠ [] → b ≠ [] → (∀ name ∈ a, IsFileName name) → (∀ name ∈ b, IsFileName name) →
      pathOf a = pathOf b → a = b) (wanted : File → Bool) :
    ArePathsOf t w (wanted · = true) pathOf
      (((walkedFiles t w).filter fun own => wanted own.2).map fun own => pathOf own.1) := by
  constructor
  · have hnames : (((walkedFiles t w).filter fun own => wanted own.2).map (·.1)).Nodup :=
      (nodup_walkedFiles t w).sublist (List.filter_sublist.map _)
    rw [List.Nodup, List.pairwise_map] at hnames ⊢
    refine hnames.imp_of_mem fun {a b} ha hb hne heq => hne ?_
    obtain ⟨hne, hnamed⟩ := isFileName_of_walked ht (List.mem_filter.mp ha).1
    obtain ⟨hne', hnamed'⟩ := isFileName_of_walked ht (List.mem_filter.mp hb).1
    exact hinjective _ _ hne hne' hnamed hnamed' heq
  · intro path
    simp only [List.mem_map, List.mem_filter]
    constructor
    · rintro ⟨⟨names, f⟩, ⟨hown, hwanted⟩, rfl⟩
      obtain ⟨hkept, hf⟩ := mem_walkedFiles.mp hown
      exact ⟨names, f, hkept, hf, hwanted, rfl⟩
    · rintro ⟨names, f, hkept, hf, hwanted, rfl⟩
      exact ⟨(names, f), ⟨mem_walkedFiles.mpr ⟨hkept, hf⟩, hwanted⟩, rfl⟩

/-- They are told by the files of the tree alone. -/
lemma ArePathsOf.of_files {t' : FileTree} {wanted : File → Prop} {pathOf : Place → String} {paths : List String}
    (h : ArePathsOf t w wanted pathOf paths) (hfiles : fileAt t = fileAt t') : ArePathsOf t' w wanted pathOf paths :=
  ⟨h.nodup, hfiles ▸ h.mem⟩

/-- Files that can be read can be packed. -/
lemma exists_pack {workspace : String} {paths : List String} (hplain : ∀ path ∈ paths, isPlain path = true)
    (hread : ∀ path ∈ paths, ∃ data, t.read (join workspace path) = .ok data) :
    ∃ data, Archive.pack t workspace paths = .ok data := by
  have hentries : ∃ entries, paths.mapM (Archive.entryOf t workspace) = .ok entries := by
    rw [mapM_succeeds_iff]
    intro path hpath
    obtain ⟨data, hdata⟩ := hread path hpath
    obtain ⟨f, hf, _, rfl⟩ := read_iff_file.mp hdata
    obtain ⟨rest, _, hentry⟩ := entryOf_of_read (hplain path hpath) (namesFile hf) hdata
    exact ⟨_, hentry⟩
  obtain ⟨entries, hentries⟩ := hentries
  refine ⟨Archive.encode entries, ?_⟩
  simp only [Archive.pack, Archive.entriesOf, bind_eq_ok, pure_eq_ok]
  exact ⟨entries, hentries, rfl⟩

end Paths

/-! ### Uploads that fail -/

section Failures

variable {σ : Type} {store : Store σ} {request : UploadRequest} {m : Machine σ}

/-- Nothing is stored if nothing can be selected. -/
lemma upload_of_unselected {e : HandoffError}
    (h : selected m.files request.workspace request.selection = .error e) :
    Handoff.upload store request m = (.error e, m) := by
  unfold Handoff.upload
  rw [run_bind, show (get : Task σ HandoffError (Machine σ)) m = (.ok m, m) from rfl]
  dsimp only
  rw [run_bind, h]
  rfl

variable {paths : List String} (hselected : selected m.files request.workspace request.selection = .ok paths)

include hselected

lemma upload_of_selected : Handoff.upload store request m =
    (Task.ofExcept .archive (Archive.pack m.files request.workspace paths) >>= fun data =>
      Task.widen .store (store.put request.key.text data request.tag) >>= fun expiresAt =>
        (pure ⟨request.key.text, paths.length, data.size, Archive.Digest.sha256 data, expiresAt⟩ :
          Task σ HandoffError UploadReport)) m := by
  unfold Handoff.upload
  rw [run_bind, show (get : Task σ HandoffError (Machine σ)) m = (.ok m, m) from rfl]
  dsimp only
  rw [run_bind, hselected]
  rfl

/-- Nothing is stored either if what is selected cannot be packed. -/
lemma upload_of_unpacked {fault : ArchiveError} (h : Archive.pack m.files request.workspace paths = .error fault) :
    Handoff.upload store request m = (.error (.archive fault), m) := by
  rw [upload_of_selected hselected, run_bind, h]
  rfl

/-- What an upload fails with if all can be selected. -/
lemma fault_of_selected {e : HandoffError} {m' : Machine σ} (h : Handoff.upload store request m = (.error e, m')) :
    (∃ fault, e = .archive fault ∧ m' = m) ∨ ∃ fault, e = .store fault := by
  cases hpack : Archive.pack m.files request.workspace paths with
  | error fault =>
    rw [upload_of_unpacked hselected hpack] at h
    cases h
    exact .inl ⟨fault, rfl, rfl⟩
  | ok data =>
    rw [upload_of_selected hselected, run_bind, hpack] at h
    dsimp only [Task.ofExcept] at h
    rw [show (pure data : Task σ HandoffError ByteArray) m = (.ok data, m) from rfl] at h
    dsimp only at h
    rw [run_bind, Task.widen] at h
    rcases hput : store.put request.key.text data request.tag m with ⟨fault | expiry, after⟩
    · rw [hput] at h
      cases h
      exact .inr ⟨fault, rfl⟩
    · rw [hput] at h
      cases h

end Failures

/-! ### Uploads of what is wanted -/

/-- A call makes a request of a store that it has opened, and packs just such paths. If it succeeds it has
stored an archive of them, and where nothing stands in the way of packing them the store is all that it
depends on. If it fails for any other reason than the store's it leaves all as it is. -/
structure UploadsJust {σ ε : Type} (call : Task σ ε UploadReport) (ofStore : StoreError → ε) (m m₁ : Machine σ)
    (store : Store σ) (request : UploadRequest) (arePaths : List String → Prop) (canPack : Prop) : Prop where
  stored : ∀ report m', Gives call m report m' → ∃ paths data expiry, arePaths paths ∧
    report.files = paths.length ∧ Archive.pack m₁.files request.workspace paths = .ok data ∧
    Gives (store.put request.key.text data request.tag) m₁ expiry m'
  reached : canPack → ∃ paths data, arePaths paths ∧ Archive.pack m₁.files request.workspace paths = .ok data ∧
    ∀ expiry m', Gives (store.put request.key.text data request.tag) m₁ expiry m' → ∃ report, Gives call m report m'
  spared : ∀ e m', call m = (.error e, m') → m' = m₁ ∨ ∃ fault, e = ofStore fault

section Uploads

variable {σ : Type} {store : Store σ} {request : UploadRequest} {m : Machine σ} {arePaths : List String → Prop}
  {canPack : Prop}

/-- It is enough to know what is selected, and that it can be read. -/
lemma uploadsJust_of_selected (ht : IsSound m.files)
    (hrelative : ∀ path, request.selection = .path path → isAbsolute path = false)
    (hpaths : ∀ paths, selected m.files request.workspace request.selection = .ok paths → arePaths paths)
    (hread : canPack → ∃ paths, selected m.files request.workspace request.selection = .ok paths ∧
      ∀ path ∈ paths, ∃ data, m.files.read (join request.workspace path) = .ok data) :
    UploadsJust (Handoff.upload store request) .store m m store request arePaths canPack := by
  constructor
  · intro report m' h
    obtain ⟨paths, data, expiry, hselected, hdata, hput, rfl⟩ := gives_upload.mp h
    exact ⟨paths, data, expiry, hpaths paths hselected, rfl, hdata, hput⟩
  · intro hcan
    obtain ⟨paths, hselected, hall⟩ := hread hcan
    obtain ⟨data, hdata⟩ := exists_pack (selected_areApart ht hrelative hselected).plain hall
    exact ⟨paths, data, hpaths paths hselected, hdata, fun expiry m' hput => upload_gives hselected hdata hput⟩
  · intro e m' h
    cases hselected : selected m.files request.workspace request.selection with
    | error e =>
      rw [upload_of_unselected hselected] at h
      cases h
      exact .inl rfl
    | ok paths => exact (fault_of_selected hselected h).imp_left fun ⟨_, _, hsame⟩ => hsame

/-- A call that only says differently why it failed packs the same. -/
lemma UploadsJust.widen {ε : Type} {call : Task σ ε UploadReport} {m₀ : Machine σ} {wrap : HandoffError → ε}
    (h : UploadsJust (Handoff.upload store request) .store m m store request arePaths canPack)
    (hcall : call m₀ = Task.widen wrap (Handoff.upload store request) m) :
    UploadsJust call (fun fault => wrap (.store fault)) m₀ m store request arePaths canPack := by
  have hgives : ∀ report m', Gives call m₀ report m' ↔ Gives (Handoff.upload store request) m report m' := by
    intro report m'
    rw [Gives, hcall]
    exact gives_widen
  constructor
  · intro report m' hrun
    exact h.stored report m' ((hgives report m').mp hrun)
  · intro hcan
    obtain ⟨paths, data, hpaths, hdata, hput⟩ := h.reached hcan
    refine ⟨paths, data, hpaths, hdata, fun expiry m' hstored => ?_⟩
    obtain ⟨report, hrun⟩ := hput expiry m' hstored
    exact ⟨report, (hgives report m').mpr hrun⟩
  · intro e m' hrun
    rw [hcall, Task.widen] at hrun
    rcases hupload : Handoff.upload store request m with ⟨fault | report, after⟩
    · rw [hupload] at hrun
      cases hrun
      exact (h.spared _ _ hupload).imp_right fun ⟨cause, hcause⟩ => ⟨cause, by rw [hcause]⟩
    · rw [hupload] at hrun
      cases hrun

end Uploads

end CrossBuild.Proofs
