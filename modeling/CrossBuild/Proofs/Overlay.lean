import CrossBuild.Proofs.DownloadRun
import CrossBuild.Proofs.TreeChanges

/-!
# Bundles laid over one another

A download into a directory without links lays the entries of all bundles over the files there, one after
another, so of several entries with one path the last one stays. What passes through the staging directory
is the only other thing that changes.
-/

namespace CrossBuild.Proofs
open Archive Handoff

variable {σ : Type}

/-- The entry is a file with these names. -/
def HasFile (names : Place) (e : Entry) : Prop := e.kind = .file ∧ entryNames? e = some names

instance (names : Place) (e : Entry) : Decidable (HasFile names e) :=
  inferInstanceAs (Decidable (e.kind = .file ∧ entryNames? e = some names))

/-- The last of the entries that is a file with these names. -/
def lastFile? (names : Place) (entries : List Entry) : Option Entry :=
  entries.reverse.find? (HasFile names)

/-- The files after an entry has been laid over those below a place. -/
def overlayEntry (w : Place) (now : Instant) (files : Place → Option File) (e : Entry) :
    Place → Option File :=
  match entryNames? e with
  | some names =>
    if e.kind = .file ∧ names ≠ [] then Function.update files (w ++ names) (some (unpackedFile e now))
    else files
  | none => files

def overlay (w : Place) (now : Instant) (entries : List Entry) (files : Place → Option File) :
    Place → Option File :=
  entries.foldl (overlayEntry w now) files

lemma lastFile?_append (names : Place) (entries later : List Entry) :
    lastFile? names (entries ++ later) = (lastFile? names later).or (lastFile? names entries) := by
  unfold lastFile?
  rw [List.reverse_append, List.find?_append]

lemma overlayEntry_apply {names : Place} (hne : names ≠ []) (w : Place) (now : Instant)
    (files : Place → Option File) (e : Entry) : overlayEntry w now files e (w ++ names) =
      if HasFile names e then some (unpackedFile e now) else files (w ++ names) := by
  cases hnames : entryNames? e with
  | none =>
    have hno : ¬HasFile names e := by simp [HasFile, hnames]
    simp [overlayEntry, hnames, hno]
  | some own =>
    have hiff : HasFile names e ↔ e.kind = .file ∧ own = names := by simp [HasFile, hnames]
    simp only [overlayEntry, hnames, hiff]
    by_cases hown : own = names
    · by_cases hkind : e.kind = .file
      · simp [hkind, hown, hne]
      · simp [hkind]
    · have hplace : w ++ names ≠ w ++ own := by simpa using Ne.symm hown
      by_cases hfile : e.kind = .file ∧ own ≠ []
      · simp [hfile, hown, Function.update_of_ne hplace]
      · simp [hfile, hown]

/-- Below the place, the last entry with a name decides what is there. -/
lemma overlay_apply {names : Place} (hne : names ≠ []) (w : Place) (now : Instant) (entries : List Entry)
    (files : Place → Option File) : overlay w now entries files (w ++ names) =
      ((lastFile? names entries).map (unpackedFile · now)).or (files (w ++ names)) := by
  induction entries generalizing files with
  | nil => rfl
  | cons e rest ih =>
    have hsplit : lastFile? names (e :: rest) = (lastFile? names rest).or (lastFile? names [e]) :=
      lastFile?_append names [e] rest
    change overlay w now rest (overlayEntry w now files e) (w ++ names) = _
    rw [ih, overlayEntry_apply hne, hsplit]
    cases lastFile? names rest with
    | some last => rfl
    | none =>
      by_cases he : HasFile names e
      · simp [lastFile?, he]
      · simp [lastFile?, he]

/-! ### One entry -/

section Entries

variable {dest : String} {w : Place} {m m' : Machine σ} {count : Nat}

/-- After a task that only changes what is below the place, the path leads there as before. -/
lemma IsClean.after {ε α : Type} {task : Task σ ε α} {a : α} (h : IsClean m.files dest w)
    (hkeeps : Keeps m.now (StaysWithin m.files dest w) task) (hrun : Gives task m a m') :
    Within w m.files m'.files ∧ IsClean m'.files dest w ∧ ∃ files, m' = { m with files } := by
  obtain ⟨files, rfl, hstays⟩ := hkeeps.gives hrun rfl ⟨within_refl w m.files, h⟩
  exact ⟨hstays.within, hstays.clean, files, rfl⟩

lemma makeParents_evolves {target : String} {u : Unit} (h : Gives (makeParents target) m u m') :
    Evolves m.files m'.files (fileAt m.files) := by
  unfold makeParents at h
  split at h
  · obtain ⟨files, hmake, rfl⟩ := gives_makeDirectories.mp h
    exact makeDirectories_evolves hmake
  · obtain ⟨_, rfl⟩ := gives_pure.mp h
    exact evolves_refl _

lemma makeNamedDirectory_evolves (hclean : IsClean m.files dest w) {target : String} {names : Place}
    (htarget : LiesBelow dest names target) (hne : names ≠ []) {e : Entry} {u : Unit}
    (h : Gives (makeNamedDirectory target e) m u m') : Evolves m.files m'.files (fileAt m.files) := by
  simp only [makeNamedDirectory, gives_bind, gives_changeFiles] at h
  obtain ⟨_, _, ⟨files, hensure, rfl⟩, h⟩ := h
  have hensured := ensureDirectory_evolves hensure
  split at h
  · obtain ⟨files', hmode, rfl⟩ := gives_changeFiles.mp h
    have hdir := directoryAt_ensureDirectory (hclean.reaches htarget hne) hensure
    have hclean' : IsClean files dest w := by
      have hbears := bears_staysWithin m.now m.files dest w
      exact (hbears.ensure ⟨within_refl w m.files, hclean⟩ htarget hne (isFront_refl _) hensure).clean
    have hset := setDirectoryMode_evolves (hclean'.reaches htarget hne) hdir hmode
    rw [hensured.files] at hset
    exact hensured.trans hset
  · obtain ⟨_, rfl⟩ := gives_pure.mp h
    exact hensured

lemma unpackEntry_evolves {e : Entry} (hclean : IsClean m.files dest w)
    (h : Gives (unpackEntry unpackedFile dest e) m count m') :
    Evolves m.files m'.files (overlayEntry w m.now (fileAt m.files) e) := by
  simp only [unpackEntry, gives_bind, gives_ofExcept] at h
  obtain ⟨rest, _, ⟨hrest, rfl⟩, h⟩ := h
  have hplain := relativePath_plain hrest
  have htarget : LiesBelow dest (namesOf rest) (Path.join dest rest) := (liesBelow_refl dest).join hplain
  have hbears := bears_staysWithin m.now m.files dest w
  unfold overlayEntry
  simp only [entryNames?_of_ok hrest]
  split at h
  · rename_i hempty
    obtain ⟨_, rfl⟩ := gives_pure.mp h
    have hnone : namesOf rest = [] := by
      rw [String.isEmpty_iff.mp hempty]
      decide
    rw [if_neg (by simp [hnone])]
    exact evolves_refl _
  · rename_i hnonempty
    have hne : namesOf rest ≠ [] := (isPlain_names hplain).2.2 (by simpa using hnonempty)
    split at h
    · rename_i hkind
      simp only [gives_bind, gives_makeDirectories, gives_pure] at h
      obtain ⟨_, _, ⟨files, hmake, rfl⟩, _, rfl⟩ := h
      rw [if_neg (by simp [hkind])]
      exact makeDirectories_evolves hmake
    · rename_i hkind
      simp only [gives_bind, gives_changeFiles, gives_pure] at h
      obtain ⟨_, between, hparents, _, _, ⟨files, hreplace, rfl⟩, _, rfl⟩ := h
      have hmade := makeParents_evolves hparents
      obtain ⟨_, hclean', made, rfl⟩ := hclean.after (keeps_makeParents hbears htarget hne) hparents
      have hplaced := replace_evolves (hclean'.reaches htarget hne) hne hreplace
      rw [hmade.files] at hplaced
      rw [if_pos ⟨hkind, hne⟩]
      exact hmade.trans hplaced
    · rename_i hkind
      simp only [gives_bind, gives_pure] at h
      obtain ⟨_, between, hparents, _, _, hnamed, _, rfl⟩ := h
      have hmade := makeParents_evolves hparents
      obtain ⟨_, hclean', _⟩ := hclean.after (keeps_makeParents hbears htarget hne) hparents
      have hdone := makeNamedDirectory_evolves hclean' htarget hne hnamed
      rw [hmade.files] at hdone
      rw [if_neg (by simp [hkind])]
      exact hmade.trans hdone
    · exact (gives_throw h).elim

/-! ### Archives -/

lemma unpackEntries_evolves {entries : List Entry} (hclean : IsClean m.files dest w)
    (h : Gives (unpackEntries dest entries) m count m') :
    Evolves m.files m'.files (overlay w m.now entries (fileAt m.files)) := by
  induction entries generalizing m count with
  | nil =>
    obtain ⟨_, rfl⟩ := gives_pure.mp h
    exact evolves_refl _
  | cons e rest ih =>
    simp only [unpackEntries, gives_bind, gives_pure] at h
    obtain ⟨_, between, hone, _, _, hrest, _, rfl⟩ := h
    have hfirst := unpackEntry_evolves hclean hone
    have hbears := bears_staysWithin m.now m.files dest w
    obtain ⟨_, hclean', files, rfl⟩ := hclean.after (keeps_unpackEntry hbears _ trivial) hone
    have hothers := ih hclean' hrest
    rw [hfirst.files] at hothers
    exact hfirst.trans hothers

end Entries

/-! ### Bundles -/

/-- A bundle is put into the staging directory, and then its entries are unpacked and it is removed. -/
lemma unpackBundle_staged {workspace key : String} {w : Place} {data : ByteArray} {m m' : Machine σ}
    {count : Nat} (hclean : IsClean m.files workspace w)
    (h : Gives (unpackBundle workspace key data) m count m') :
    ∃ (written unpacked : FileTree) (mode : Nat), StaysWithin m.files workspace w written ∧
      Evolves m.files written (Function.update (fileAt m.files) (w ++ stagingName :: namesOf key)
        (some ⟨data, m.now, mode⟩)) ∧
      Gives (unpackEntries workspace (decode data).entries) { m with files := written } count
        { m with files := unpacked } ∧
      Evolves unpacked m'.files (Function.update (fileAt unpacked) (w ++ stagingName :: namesOf key) none) := by
  obtain ⟨hplain, _, _, made, written, unpacked, removed, hmake, hwrite, hentries, hremove, rfl⟩ :=
    unpackBundle_run h
  have htarget := liesBelow_stagingPath workspace hplain
  have hne : stagingName :: namesOf key ≠ [] := by simp
  have hstays := bears_staysWithin m.now m.files workspace w
  have hmadeStays := hstays.makeParent htarget hne ⟨within_refl w m.files, hclean⟩
  rw [show m.files.makeDirectories _ m.now = (made, none) from hmake] at hmadeStays
  have hwrittenStays := hstays.write hmadeStays htarget hne hwrite
  have hmade := makeDirectories_evolves hmake
  obtain ⟨mode, hwritten⟩ := write_evolves (hmadeStays.clean.reaches htarget hne) hne hwrite
  rw [hmade.files] at hwritten
  have hbears := bears_staysWithin m.now written workspace w
  obtain ⟨_, heq, hunpackedStays⟩ := (keeps_unpackEntries hbears fun _ _ => trivial).gives hentries rfl
    ⟨within_refl w written, hwrittenStays.clean⟩
  cases heq
  exact ⟨written, unpacked, mode, hwrittenStays, hmade.trans hwritten, hentries,
    remove_evolves (hunpackedStays.clean.reaches htarget hne) hremove⟩

/-- The staging directory itself is no place for a bundle. -/
lemma unpackBundle_named {workspace key : String} {w : Place} {data : ByteArray} {m m' : Machine σ}
    {count : Nat} (hclean : IsClean m.files workspace w) (hdir : DirectoryAt m.files (w ++ [stagingName]))
    (h : Gives (unpackBundle workspace key data) m count m') : namesOf key ≠ [] := by
  intro hnil
  obtain ⟨written, _, mode, hstays, hwritten, _⟩ := unpackBundle_staged hclean h
  have hfile : fileAt written (w ++ [stagingName]) = some ⟨data, m.now, mode⟩ := by
    rw [hwritten.files, hnil, Function.update_self]
  rw [(hstays.within.directories _ hdir).fileAt] at hfile
  cases hfile

/-- After one bundle, the files are those before with its entries laid over them, but for the place where
the bundle itself was. -/
lemma unpackBundle_evolves {workspace key : String} {w : Place} {data : ByteArray} {m m' : Machine σ}
    {count : Nat} (hclean : IsClean m.files workspace w)
    (h : Gives (unpackBundle workspace key data) m count m') :
    StaysWithin m.files workspace w m'.files ∧
      ∃ files, Evolves m.files m'.files files ∧ files (w ++ stagingName :: namesOf key) = none ∧
        ∀ names, names ≠ [] → names ≠ stagingName :: namesOf key → files (w ++ names) =
          ((lastFile? names (decode data).entries).map (unpackedFile · m.now)).or
            (fileAt m.files (w ++ names)) := by
  refine ⟨(bears_staysWithin m.now m.files workspace w).unpackBundle (fun _ _ => trivial) rfl
    ⟨within_refl w m.files, hclean⟩ h, ?_⟩
  obtain ⟨written, unpacked, _, hwrittenStays, hwritten, hentries, hremoved⟩ :=
    unpackBundle_staged hclean h
  have hunpacked := unpackEntries_evolves hwrittenStays.clean hentries
  refine ⟨_, (hwritten.trans hunpacked).trans hremoved, Function.update_self _ _ _, ?_⟩
  intro names hnames hstaged
  -- the archive comes and goes at this one place only
  have hplace : w ++ names ≠ w ++ stagingName :: namesOf key :=
    fun heq => hstaged (List.append_cancel_left heq)
  dsimp only at hunpacked ⊢
  rw [hunpacked.files, Function.update_of_ne hplace, overlay_apply hnames, hwritten.files,
    Function.update_of_ne hplace]

lemma Unpacked.named {workspace : String} {w : Place} {now : Instant}
    {bundles : List (String × ByteArray)} {t t' : FileTree} (h : Unpacked workspace now bundles t t')
    (hclean : IsClean t workspace w) (hdir : DirectoryAt t (w ++ [stagingName])) :
    ∀ b ∈ bundles, namesOf b.1 ≠ [] := by
  induction h with
  | nil => simp
  | cons _ hone _ ih =>
    obtain ⟨hstays, _⟩ := unpackBundle_evolves hclean hone
    exact List.forall_mem_cons.mpr
      ⟨unpackBundle_named hclean hdir hone, ih hstays.clean (hstays.within.directories _ hdir)⟩

/-! ### Downloads -/

section Downloads

variable {store : Store σ} {holds : Machine σ → Prop} {content : Memory} {request : DownloadRequest}
  {m m' : Machine σ} {report : DownloadReport}

lemma liesBelow_staging (workspace : String) :
    LiesBelow workspace [stagingName] (Path.join workspace stagingName) := by
  have hjoin := (liesBelow_refl workspace).join (show Path.isPlain stagingName = true by decide)
  rwa [List.nil_append, show namesOf stagingName = [stagingName] by decide] at hjoin

end Downloads

end CrossBuild.Proofs
