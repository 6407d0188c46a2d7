import CrossBuild.Proofs.DownloadRun
import CrossBuild.Proofs.Pruning
import CrossBuild.Proofs.SurveyedTree

/-!
# Sound trees

In the tree of a file system whatever stands anywhere stands in a directory, under a name that an entry of
one can have. Every change keeps it so, wherever links lead it: a walk ends at something that is there or
at a free name in a directory, and no step of a path or of a link's target has any other name.
-/

namespace CrossBuild.Proofs
open FileTree

/-- A tree in which all stands in directories, under names of entries. -/
structure IsSound (t : FileTree) : Prop where
  rooted : Rooted t
  named : HasFileNames t

/-! ### Walks -/

/-- Where a walk in a sound tree ends. -/
def EndsSoundly (t : FileTree) : Spot → Prop
  | .taken place => t.get? place ≠ none
  | .free parent name => DirectoryAt t parent ∧ IsFileName name

lemma isFileName_of_mem_stepsOf {path name : String} (h : Step.into name ∈ stepsOf path) : IsFileName name := by
  have hmem : Step.into name ∈ (activePieces path).map stepOf := by
    rcases stepsOf_eq path with hsteps | hsteps
    · rwa [hsteps] at h
    · simpa [hsteps] using h
  obtain ⟨piece, hpiece, hstep⟩ := List.mem_map.mp hmem
  have hup : piece ≠ ['.', '.'] := by
    rintro rfl
    cases hstep
  rw [stepOf_eq_into hup] at hstep
  obtain rfl := Step.into.inj hstep
  rw [activePieces, List.mem_filter] at hpiece
  obtain ⟨hpiece, hactive⟩ := hpiece
  simp only [Path.isIdle, Bool.not_eq_true', Bool.or_eq_false_iff, beq_eq_false_iff_ne] at hactive
  constructor
  · exact fun hempty => hactive.1 (String.ofList_injective hempty)
  · intro hslash
    rw [String.toList_ofList] at hslash
    have hsep := (mem_piece hpiece hslash).2
    cases hsep
  · exact fun hdot => hactive.2 (String.ofList_injective hdot)
  · exact fun hdots => hup (String.ofList_injective hdots)

lemma stepsOf_ne_nil (path : String) : stepsOf path ≠ [] := by
  unfold stepsOf
  dsimp only
  split
  · simp
  · rename_i hlast
    obtain ⟨front, last, hpieces⟩ := List.eq_nil_or_concat (Text.pieces (· == '/') path.toList)
      |>.resolve_left (pieces_ne_nil _ _)
    rw [hpieces] at hlast ⊢
    simp only [List.concat_eq_append, List.getLast?_append, List.getLast?_singleton, Option.some_or, Option.any_some,
      Bool.not_eq_true] at hlast
    simp [hlast]

section Walks

variable {t : FileTree} (ht : Rooted t)

include ht

lemma Rooted.get?_dropLast {place : Place} (h : t.get? place ≠ none) : t.get? place.dropLast ≠ none := by
  rcases List.eq_nil_or_concat place with rfl | ⟨front, name, rfl⟩
  · exact h
  · rw [List.concat_eq_append] at h ⊢
    obtain ⟨mode, hmode⟩ := ht front name h
    simp [hmode]

lemma walk_endsSoundly {followLast : Bool} {onLink : Place → List Step → Except FileFault Spot}
    (honLink : ∀ {place steps s}, steps ≠ [] → (∀ name, .into name ∈ steps → IsFileName name) →
      onLink place steps = .ok s → EndsSoundly t s)
    {place : Place} {steps : List Step} {s : Spot} (hsteps : ∀ name, .into name ∈ steps → IsFileName name)
    (hplace : steps = [] → t.get? place ≠ none) (h : walk t followLast onLink place steps = .ok s) :
    EndsSoundly t s := by
  induction steps generalizing place with
  | nil =>
    cases h
    exact hplace rfl
  | cons step rest ih =>
    have hrest : ∀ name, .into name ∈ rest → IsFileName name :=
      fun name hname => hsteps name (List.mem_cons_of_mem _ hname)
    obtain ⟨hcheck, hstep⟩ := walksOn_of_walk h
    obtain ⟨mode, hmode⟩ := directoryAt_of_check hcheck
    cases hstep with
    | here hwalk => exact ih hrest (fun _ => by simp [hmode]) hwalk
    | up hwalk => exact ih hrest (fun _ => ht.get?_dropLast (by simp [hmode])) hwalk
    | free => exact ⟨⟨mode, hmode⟩, hsteps _ List.mem_cons_self⟩
    | last _ hlink =>
      rw [EndsSoundly, hlink]
      simp
    | link _ _ _ hwalk =>
      refine honLink (by simp [stepsOf_ne_nil]) (fun other hother => ?_) hwalk
      rcases List.mem_append.mp hother with hother | hother
      · exact isFileName_of_mem_stepsOf hother
      · exact hrest other hother
    | into _ hnode _ hwalk => exact ih hrest (fun _ => by simp [hnode]) hwalk

lemma walkLinks_endsSoundly {followLast : Bool} {limit : Nat} {place : Place} {steps : List Step} {s : Spot}
    (hne : steps ≠ []) (hsteps : ∀ name, .into name ∈ steps → IsFileName name)
    (h : walkLinks t followLast limit place steps = .ok s) : EndsSoundly t s := by
  induction limit generalizing place steps s with
  | zero => cases h
  | succ limit ih => exact walk_endsSoundly ht ih hsteps (fun hnil => (hne hnil).elim) h

lemma spotOfSteps_endsSoundly {followLast : Bool} {path other : String} {s : Spot}
    (h : t.spotOfSteps followLast path (stepsOf other) = .ok s) : EndsSoundly t s :=
  walkLinks_endsSoundly ht (stepsOf_ne_nil other) (fun _ => isFileName_of_mem_stepsOf) h

lemma spot_endsSoundly {followLast : Bool} {path : String} {s : Spot} (h : t.spot followLast path = .ok s) :
    EndsSoundly t s :=
  spotOfSteps_endsSoundly ht (spot_iff_walk.mp h).2

end Walks

/-! ### Changes -/

lemma hasFileNames_iff {t : FileTree} :
    HasFileNames t ↔ ∀ place, t.get? place ≠ none → ∀ name ∈ place, IsFileName name := by
  have hkey : ∀ place, place ≠ [] → (place ∈ t.nodes.keys ↔ t.get? place ≠ none) := by
    intro place hne
    rw [mem_keys, contains_eq_true, FileTree.get?, if_neg (by simpa using hne), Option.ne_none_iff_exists']
  constructor
  · intro h place hthere name hname
    exact h place ((hkey place (List.ne_nil_of_mem hname)).mpr hthere) name hname
  · intro h place hplace name hname
    exact h place ((hkey place (List.ne_nil_of_mem hname)).mp hplace) name hname

section Changes

variable {t t' : FileTree} {path : String} {now : Instant}

lemma IsSound.named_placeOf (ht : IsSound t) {s : Spot} (h : EndsSoundly t s) :
    ∀ name ∈ placeOf s, IsFileName name := by
  cases s with
  | taken place => exact hasFileNames_iff.mp ht.named place h
  | free parent name =>
    obtain ⟨⟨mode, hmode⟩, hname⟩ := h
    intro other hother
    rcases List.mem_append.mp hother with hother | hother
    · exact hasFileNames_iff.mp ht.named parent (by simp [hmode]) other hother
    · rwa [List.mem_singleton.mp hother]

lemma Edit.isSound {q : Place} (h : Edit t q t') (ht : IsSound t) (hq : ∀ name ∈ q, IsFileName name) :
    IsSound t' := by
  refine ⟨h.rooted ht.rooted, hasFileNames_iff.mpr fun place hthere => ?_⟩
  by_cases hplace : place = q
  · rwa [hplace]
  · rw [h.get?_of_ne hplace] at hthere
    exact hasFileNames_iff.mp ht.named place hthere

lemma IsSound.ensureDirectory (ht : IsSound t) (h : t.ensureDirectory path now = .ok t') : IsSound t' := by
  rcases ensureDirectory_cases h with ⟨rfl, _⟩ | ⟨parent, name, hspot, hedit⟩
  · exact ht
  · exact hedit.isSound ht (ht.named_placeOf (spotOfSteps_endsSoundly ht.rooted hspot))

lemma IsSound.makeDirectories (ht : IsSound t) (path : String) (now : Instant) :
    IsSound (t.makeDirectories path now).1 :=
  makeDirectories_keeps (fun _ _ _ _ hmade hensure => hmade.ensureDirectory hensure) ht

lemma IsSound.replace (ht : IsSound t) {f : File} (h : t.replace path f now = .ok t') : IsSound t' := by
  obtain ⟨s, hspot, hedit, _⟩ := replace_edit h
  exact hedit.isSound ht (ht.named_placeOf (spot_endsSoundly ht.rooted hspot))

lemma IsSound.update (ht : IsSound t) {f : Option File → File} (h : t.update path f now = .ok t') : IsSound t' := by
  obtain ⟨s, hspot, hedit, _⟩ := update_edit h
  exact hedit.isSound ht (ht.named_placeOf (spot_endsSoundly ht.rooted hspot))

lemma IsSound.remove (ht : IsSound t) (h : t.remove path now = .ok t') : IsSound t' := by
  obtain ⟨s, hspot, hedit, _⟩ := remove_edit h
  exact hedit.isSound ht (ht.named_placeOf (spot_endsSoundly ht.rooted hspot))

lemma IsSound.setDirectoryMode (ht : IsSound t) {mode : Nat} (h : t.setDirectoryMode path mode = .ok t') :
    IsSound t' := by
  obtain ⟨place, hplace, rfl⟩ := setDirectoryMode_edit h
  have hends := spot_endsSoundly ht.rooted (place_iff_spot.mp hplace)
  exact (Edit.moded mode hends).isSound ht (ht.named_placeOf hends)

lemma IsSound.removeIfEmpty (ht : IsSound t) {place : Place} (h : Handoff.removeIfEmpty t place now = .ok t') :
    IsSound t' := by
  rcases removeIfEmpty_cases h with rfl | ⟨hempty, rfl⟩
  · exact ht
  have hsome : ∀ {q}, ((t.erase place).changed place.dropLast now).get? q ≠ none → t.get? q ≠ none := by
    intro q hq
    rw [get?_changed, get?_erase_place] at hq
    split at hq
    · exact (hq rfl).elim
    · exact hq
  constructor
  · intro above name hthere
    obtain ⟨mode, hmode⟩ := ht.rooted above name (hsome hthere)
    refine ⟨mode, ?_⟩
    rw [get?_changed, get?_erase_place, if_neg, hmode]
    -- nothing stands in the directory that goes
    rintro ⟨rfl, _⟩
    exact hsome hthere (children_isEmpty.mp hempty name)
  · exact hasFileNames_iff.mpr fun q hthere => hasFileNames_iff.mp ht.named q (hsome hthere)

lemma IsSound.prune (ht : IsSound t) (canList : Place → Bool) (now : Instant) (directories : List Place) :
    IsSound (Handoff.prune canList now t directories).1 :=
  prune_keeps (fun _ _ _ _ hbetween hremove => hbetween.removeIfEmpty hremove) ht

end Changes

/-! ### Files below a place -/

/-- All files at and below a place have a property. -/
def FilesBelow (w : Place) (P : File → Prop) (t : FileTree) : Prop :=
  ∀ names f, fileAt t (w ++ names) = some f → P f

section Files

variable {t t' : FileTree} {w place : Place} {P : File → Prop}

lemma FilesBelow.of_files (h : FilesBelow w P t) (hfiles : fileAt t' = fileAt t) : FilesBelow w P t' := by
  intro names f hf
  rw [hfiles] at hf
  exact h names f hf

lemma FilesBelow.setFile (h : FilesBelow w P t) {f : File} (hf : P f) : FilesBelow w P (t.set place (.file f)) := by
  intro names found hfound
  have hget := get?_of_fileAt hfound
  rw [get?_set] at hget
  split at hget
  · cases hget
    exact hf
  · refine h names found ?_
    rw [fileAt, hget]

lemma FilesBelow.setDirectory (h : FilesBelow w P t) (mode : Nat) : FilesBelow w P (t.set place (.directory mode)) := by
  intro names found hfound
  have hget := get?_of_fileAt hfound
  rw [get?_set] at hget
  split at hget
  · cases hget
  · refine h names found ?_
    rw [fileAt, hget]

lemma FilesBelow.erase (h : FilesBelow w P t) : FilesBelow w P (t.erase place) := by
  intro names found hfound
  have hget := get?_of_fileAt hfound
  rw [get?_erase_place] at hget
  split at hget
  · cases hget
  · refine h names found ?_
    rw [fileAt, hget]

/-- The property of files is kept by what is done anywhere, if all files that come in have it. -/
lemma bears_filesBelow {now : Instant} (hnow : ∀ data mode, P ⟨data, now, mode⟩) (w : Place) (dest : String) :
    Bears now (fun t => IsSound t ∧ FilesBelow w P t) dest P where
  ensure := fun ht _ _ _ hensure =>
    ⟨ht.1.ensureDirectory hensure, ht.2.of_files (ensureDirectory_evolves hensure).files⟩
  mode := by
    intro t t' target names mode ht _ _ hmode
    obtain ⟨place, _, heq⟩ := setDirectoryMode_edit hmode
    exact ⟨ht.1.setDirectoryMode hmode, heq ▸ ht.2.setDirectory mode⟩
  replace := by
    intro t t' target names f ht _ _ hf hreplace
    obtain ⟨s, _, _, heq⟩ := replace_edit hreplace
    exact ⟨ht.1.replace hreplace, heq ▸ (ht.2.setFile hf).of_files rfl⟩
  write := by
    intro t t' target names data ht _ _ hwrite
    obtain ⟨s, _, _, ⟨_, heq⟩, _⟩ := update_edit hwrite
    exact ⟨ht.1.update hwrite, heq ▸ (ht.2.setFile (hnow _ _)).of_files rfl⟩
  remove := by
    intro t t' target names ht _ _ hremove
    obtain ⟨s, _, _, heq⟩ := remove_edit hremove
    exact ⟨ht.1.remove hremove, heq ▸ ht.2.erase.of_files rfl⟩

end Files

/-! ### Downloads -/

variable {σ : Type}

/-- A download keeps a tree sound, and all files below a place have a property after it if they had it and
so have all that the store's bundles and the time of the download make. -/
lemma download_filesBelow {store : Store σ} {holds : Machine σ → Prop} {content : Memory}
    {request : DownloadRequest} (hs : Serves store request.workspace holds content) {m m' : Machine σ}
    {report : DownloadReport} (hm : holds m) {w : Place} {P : File → Prop}
    (hnow : ∀ data mode, P ⟨data, m.now, mode⟩)
    (hgiven : ∀ key blob, content.get? key = some blob → ∀ e ∈ (Archive.decode blob.data).entries,
      P (Archive.unpackedFile e m.now))
    (hsound : IsSound m.files) (hfiles : FilesBelow w P m.files)
    (h : Gives (Handoff.download store request) m report m') : IsSound m'.files ∧ FilesBelow w P m'.files := by
  obtain ⟨_, bundles, staged, unpacked, _, _, hdata, hstaged, hunpacked, _, directories, _, hdirs, _,
    _, _, hpruned⟩ :=
    download_run hs hm h
  have hstagedSound : IsSound staged := by
    have hmade := hsound.makeDirectories (Path.join request.workspace Handoff.stagingName) m.now
    rwa [hstaged] at hmade
  have hstagedFiles := hfiles.of_files (makeDirectories_evolves hstaged).files
  have hall : ∀ b ∈ bundles, ∀ e ∈ (Archive.decode b.2).entries, P (Archive.unpackedFile e m.now) := by
    intro b hb e he
    obtain ⟨blob, hblob, heq⟩ := Option.map_eq_some_iff.mp (hdata b hb)
    exact hgiven b.1 blob hblob e (heq ▸ he)
  obtain ⟨hunpackedSound, hunpackedFiles⟩ :=
    (bears_filesBelow hnow w request.workspace).unpacked hunpacked hall ⟨hstagedSound, hstagedFiles⟩
  have hprunedSound : IsSound (m'.files, (none : Option HandoffError)).1 :=
    hpruned ▸ hunpackedSound.prune _ _ directories
  exact ⟨hprunedSound, hunpackedFiles.of_files (prune_evolves hdirs hpruned).files⟩

end CrossBuild.Proofs
