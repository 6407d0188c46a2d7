import CrossBuild.Proofs.SoundTrees

/-!
# The files of a walk

A walk from a directory comes by all files below it but those that are passed over right where it starts,
each once, or it fails because some directory on its way does not let its entries be listed. The paths of
these files below the workspace can always be told.
-/

namespace CrossBuild.Proofs
open CrossBuild.Path Handoff

/-! ### Places of files -/

section Places

variable {t : FileTree} {w : Place} {names : Place} {f : File}

/-- In a tree where all stands in directories, names lead to whatever stands under them, unless it is a
link. -/
lemma leads_names (ht : Rooted t) {node : FileNode} (h : t.get? (w ++ names) = some node)
    (hlink : ∀ target, node ≠ .link target) : Leads t w (names.map .into) (w ++ names) := by
  induction names generalizing w with
  | nil =>
    rw [List.append_nil]
    exact .done w
  | cons name rest ih =>
    have hfirst : w ++ name :: rest = (w ++ [name]) ++ rest := by simp
    rw [hfirst] at h ⊢
    have hthere : t.get? (w ++ name :: rest) ≠ none := by
      rw [hfirst, h]
      exact Option.some_ne_none node
    rw [hfirst] at hthere
    have hdir := ht w name (ht.get?_front rest hthere)
    cases rest with
    | nil =>
      have hend := ih h
      rw [List.append_nil] at h
      exact .into hdir h hlink hend
    | cons next rest =>
      have hend := ih h
      have hnext : (w ++ [name]) ++ next :: rest = ((w ++ [name]) ++ [next]) ++ rest := by simp
      rw [hnext] at hthere
      obtain ⟨mode, hmode⟩ := ht _ next (ht.get?_front rest hthere)
      exact .into hdir hmode (by simp) hend

/-- A path that goes on from the workspace along the names of a file leads to the file. -/
lemma place_below (ht : Rooted t) {workspace path : String} (hw : t.place workspace = .ok w)
    (hbelow : LiesBelow workspace names path) (hf : fileAt t (w ++ names) = some f) {q : Place}
    (h : t.place path = .ok q) : q = w ++ names := by
  have hstart : startOf t path = startOf t workspace := by rw [startOf, startOf, hbelow.start]
  have hleads := leads_of_place h
  rw [hstart, hbelow.steps] at hleads
  obtain ⟨between, hfront, hback⟩ := hleads.split
  obtain rfl := hfront.unique (leads_of_place hw)
  exact hback.unique (leads_names ht (get?_of_fileAt hf) (by simp))

lemma liesBelow_pathOfNames (workspace : String) (hnames : ∀ name ∈ names, IsFileName name) (hne : names ≠ []) :
    LiesBelow workspace names (join workspace (pathOfNames names)) := by
  have hbelow := (liesBelow_refl workspace).join (isPlain_pathOfNames hnames hne)
  rwa [List.nil_append, namesOf_pathOfNames hnames hne] at hbelow

lemma place_join (ht : Rooted t) {workspace : String} (hw : t.place workspace = .ok w)
    (hnames : ∀ name ∈ names, IsFileName name) (hne : names ≠ []) (hf : fileAt t (w ++ names) = some f)
    {q : Place} (h : t.place (join workspace (pathOfNames names)) = .ok q) : q = w ++ names :=
  place_below ht hw (liesBelow_pathOfNames workspace hnames hne) hf h

end Places

/-! ### What a walk comes by -/

/-- Names that lead on from where a walk starts, the first of them not being passed over. -/
structure IsKept (names : Place) : Prop where
  nonempty : names ≠ []
  first : ∀ name, names.head? = some name → name ∉ ignoredNames

lemma isKept_iff {names : Place} : IsKept names ↔ names ≠ [] ∧ names.head?.any ignoredNames.contains = false := by
  have hfirst : names.head?.any ignoredNames.contains = false ↔
      ∀ name, names.head? = some name → name ∉ ignoredNames := by
    cases names.head? with
    | none => simp
    | some name => simp
  rw [hfirst]
  exact ⟨fun h => ⟨h.nonempty, h.first⟩, fun h => ⟨h.1, h.2⟩⟩

def walkedFile? : Place × FileNode → Option (Place × File)
  | (names, .file f) => some (names, f)
  | _ => none

lemma walkedFile?_eq_some {x : Place × FileNode} {own : Place × File} (h : walkedFile? x = some own) :
    x = (own.1, .file own.2) := by
  obtain ⟨names, node⟩ := x
  cases node with
  | directory | link => cases h
  | file f =>
    cases h
    rfl

/-- The files that a walk from a place comes by, with the names that lead to them. -/
def walkedFiles (t : FileTree) (w : Place) : List (Place × File) :=
  ((t.below w).filter fun x => !x.1.head?.any ignoredNames.contains).filterMap walkedFile?

section Walked

variable {t : FileTree} {w names : Place} {f : File}

lemma mem_walkedFiles : (names, f) ∈ walkedFiles t w ↔ IsKept names ∧ fileAt t (w ++ names) = some f := by
  rw [isKept_iff, walkedFiles, List.mem_filterMap]
  constructor
  · rintro ⟨x, hx, hsome⟩
    obtain rfl := walkedFile?_eq_some hsome
    rw [List.mem_filter, mem_below] at hx
    obtain ⟨⟨hne, hget⟩, hkept⟩ := hx
    exact ⟨⟨hne, by simpa using hkept⟩, by rw [fileAt, hget]⟩
  · rintro ⟨⟨hne, hkept⟩, hf⟩
    refine ⟨(names, .file f), ?_, rfl⟩
    rw [List.mem_filter, mem_below]
    exact ⟨⟨hne, get?_of_fileAt hf⟩, by simpa using hkept⟩

lemma nodup_walkedFiles (t : FileTree) (w : Place) : ((walkedFiles t w).map (·.1)).Nodup := by
  have hbelow : (t.below w).Pairwise (fun a b => a.1 ≠ b.1) := List.pairwise_map.mp (nodup_below t w)
  rw [walkedFiles, List.Nodup, List.pairwise_map]
  refine (hbelow.filter _).filterMap _ ?_
  intro x y hne a ha b hb
  obtain rfl := walkedFile?_eq_some ha
  obtain rfl := walkedFile?_eq_some hb
  exact hne

lemma isFileName_of_walked (ht : HasFileNames t) {own : Place × File} (h : own ∈ walkedFiles t w) :
    own.1 ≠ [] ∧ ∀ name ∈ own.1, IsFileName name := by
  obtain ⟨hkept, hf⟩ := mem_walkedFiles.mp h
  refine ⟨hkept.nonempty, fun name hname => ?_⟩
  exact hasFileNames_iff.mp ht (w ++ own.1) (by simp [get?_of_fileAt hf]) name (List.mem_append_right w hname)

end Walked

/-! ### Walks that are not held up -/

/-- The directory where a walk starts and all that it comes by let their entries be listed. -/
structure IsOpen (t : FileTree) (root : String) (w : Place) : Prop where
  start : ∀ mode, t.get? w = some (.directory mode) → t.canList root = true
  below : ∀ names mode, IsKept names → t.get? (w ++ names) = some (.directory mode) →
    t.canList (join root (pathOfNames names)) = true

lemma isClosed_eq_true {t : FileTree} {path : String} {node : FileNode} :
    isClosed t path node = true ↔ (∃ mode, node = .directory mode) ∧ t.canList path = false := by
  cases node with
  | directory mode => simp [isClosed]
  | file | link => simp [isClosed]

lemma isOpen_iff {t : FileTree} {root : String} {w : Place} : IsOpen t root w ↔
    ((t.get? w).any (isClosed t root) || ((t.below w).filter fun x => !x.1.head?.any ignoredNames.contains).any
      fun x => isClosed t (join root (Text.join "/" x.1)) x.2) = false := by
  rw [Bool.or_eq_false_iff, List.any_eq_false]
  constructor
  · intro h
    constructor
    · rw [Bool.eq_false_iff]
      intro hclosed
      obtain ⟨node, hnode, hclosed⟩ := (Option.any_eq_true _ _).mp hclosed
      obtain ⟨⟨mode, rfl⟩, hlist⟩ := isClosed_eq_true.mp hclosed
      rw [h.start mode hnode] at hlist
      cases hlist
    · rintro ⟨names, node⟩ hx hclosed
      rw [List.mem_filter, mem_below] at hx
      obtain ⟨⟨hne, hget⟩, hkept⟩ := hx
      obtain ⟨⟨mode, rfl⟩, hlist⟩ := isClosed_eq_true.mp hclosed
      have hopen := h.below names mode (isKept_iff.mpr ⟨hne, by simpa using hkept⟩) hget
      exact absurd (hopen.symm.trans hlist) (by decide)
  · rintro ⟨hstart, hbelow⟩
    constructor
    · intro mode hmode
      rw [hmode] at hstart
      simpa [isClosed] using hstart
    · intro names mode hkept hget
      obtain ⟨hne, hnot⟩ := isKept_iff.mp hkept
      have hopen := hbelow (names, .directory mode) (List.mem_filter.mpr ⟨mem_below.mpr ⟨hne, hget⟩, by simp [hnot]⟩)
      simpa [isClosed, pathOfNames] using hopen

lemma walk_eq_ok {t : FileTree} {root : String} {w : Place} (hw : t.place root = .ok w)
    {walked : List (Place × FileNode)} : walk t root = .ok walked ↔ IsOpen t root w ∧
      (t.below w).filter (fun x => !x.1.head?.any ignoredNames.contains) = walked := by
  unfold walk
  rw [hw, isOpen_iff]
  dsimp only
  split
  · rename_i hclosed
    rw [hclosed]
    constructor
    · intro h
      cases h
    · rintro ⟨h, _⟩
      cases h
  · rename_i hopen
    rw [Bool.not_eq_true] at hopen
    rw [hopen, Except.ok.injEq]
    exact (and_iff_right rfl).symm

/-- What the files of a walk are, if it is not held up. -/
lemma walkFiles_eq_ok {t : FileTree} {root : String} {w : Place} (hw : t.place root = .ok w) {found : List Found} :
    walkFiles t root = .ok found ↔ IsOpen t root w ∧
      (walkedFiles t w).map (fun own => (join root (pathOfNames own.1), own.2)) = found := by
  simp only [walkFiles, bind_eq_ok, pure_eq_ok, walk_eq_ok hw, and_assoc, exists_and_left, exists_eq_left']
  refine and_congr_right fun _ => Eq.congr_left ?_
  rw [walkedFiles, List.map_filterMap]
  refine List.filterMap_congr fun x _ => ?_
  obtain ⟨names, node⟩ := x
  cases node with
  | directory | link | file => rfl

lemma place_of_walkFiles {t : FileTree} {root : String} {found : List Found} (h : walkFiles t root = .ok found) :
    ∃ w, t.place root = .ok w := by
  cases hplace : t.place root with
  | ok w => exact ⟨w, rfl⟩
  | error fault =>
    simp only [walkFiles, walk, hplace, bind_eq_ok] at h
    obtain ⟨_, hwalk, _⟩ := h
    cases hwalk

/-! ### Paths below a workspace -/

/-- Paths in a walk that starts somewhere below a workspace, as what they are below the workspace, lead on
through the names that were walked. -/
lemma mapM_inWorkspace_join {workspace root rest : String} (hlead : (cut rest).lead = [])
    (hroot : ∀ {more}, isAbsolute more = false → join root more = join workspace (join rest more))
    {found : List (Place × File)} (hfound : ∀ own ∈ found, own.1 ≠ [] ∧ ∀ name ∈ own.1, IsFileName name) :
    (found.map fun own => (join root (pathOfNames own.1), own.2)).mapM
      (fun own => inWorkspace workspace own.1) = .ok (found.map fun own => join rest (pathOfNames own.1)) := by
  rw [mapM_eq_ok]
  induction found with
  | nil => exact .nil
  | cons own others ih =>
    rw [List.forall_mem_cons] at hfound
    obtain ⟨⟨hne, hnames⟩, hothers⟩ := hfound
    have hnamed : (cut (pathOfNames own.1)).lead = [] := by rw [cut_pathOfNames hnames hne]
    have hends := (endsActive_pathOfNames hnames hne).join rest (isAbsolute_of_lead hnamed)
    refine .cons ?_ (ih hothers)
    dsimp only
    rw [hroot (isAbsolute_of_lead hnamed), inWorkspace,
      below?_join_of_active workspace (lead_join hlead hnamed) hends]

lemma mapM_inWorkspace {workspace : String} {found : List (Place × File)}
    (hfound : ∀ own ∈ found, own.1 ≠ [] ∧ ∀ name ∈ own.1, IsFileName name) :
    (found.map fun own => (join workspace (pathOfNames own.1), own.2)).mapM
      (fun own => inWorkspace workspace own.1) = .ok (found.map fun own => pathOfNames own.1) := by
  rw [mapM_inWorkspace_join (by decide) (joined_empty workspace) hfound, Except.ok.injEq]
  refine List.map_congr_left fun own hown => join_empty (isAbsolute_of_lead ?_)
  rw [cut_pathOfNames (hfound own hown).2 (hfound own hown).1]

lemma datedFiles_eq_ok {t : FileTree} {root : String} {files : List Found} :
    datedFiles t root = .ok files ↔
      walkFiles t root = .ok files ∧ ∀ found ∈ files, t.isFile found.1 = true := by
  simp only [datedFiles, bind_eq_ok]
  constructor
  · rintro ⟨walked, hwalked, h⟩
    split at h
    · rename_i hall
      obtain rfl := Except.ok.inj h
      exact ⟨hwalked, List.all_eq_true.mp hall⟩
    · cases h
  · rintro ⟨hwalked, hall⟩
    exact ⟨files, hwalked, if_pos (List.all_eq_true.mpr hall)⟩

/-! ### What is later than a marker -/

/-- The step of a component, if it is one. -/
def stepOfComponent? : Component → Option Step
  | .up => some .up
  | .name s => some (.into s)
  | _ => none

lemma stepOfComponent?_ofPiece (piece : List Char) :
    stepOfComponent? (ofPiece piece) = some (FileTree.stepOf piece) := by
  unfold ofPiece FileTree.stepOf
  split
  · rfl
  · rfl

lemma steps_eq_components (path : String) :
    (activePieces path).map FileTree.stepOf = (components path).filterMap stepOfComponent? := by
  have hlead : (leadComponents (cut path).lead).filterMap stepOfComponent? = [] := by
    rcases cut_lead path with h | h | h
    · rw [h]
      rfl
    · rw [h]
      rfl
    · rw [h]
      rfl
  rw [components_eq, List.filterMap_append, hlead, List.nil_append, List.filterMap_map]
  exact (List.filterMap_eq_map_iff_forall_eq_some.mpr fun piece _ => stepOfComponent?_ofPiece piece).symm

lemma isAbsolute_eq_components (path : String) : isAbsolute path = ((components path).head? == some .root) := by
  rcases cut_lead path with hlead | hlead | hlead
  · have habsolute : isAbsolute path = true := by
      unfold cut at hlead
      split at hlead
      · rename_i heq
        simp [isAbsolute, heq]
      · cases hlead
      · cases hlead
      · cases hlead
    rw [habsolute, components_eq, hlead]
    rfl
  · have hrelative : isAbsolute path = false := by
      unfold cut at hlead
      split at hlead
      · cases hlead
      · rename_i heq
        simp [isAbsolute, heq]
      · rename_i heq
        simp [isAbsolute, heq]
      · cases hlead
    rw [hrelative, components_eq, hlead]
    rfl
  · rw [isAbsolute_of_lead hlead, components_eq, hlead]
    cases activePieces path with
    | nil => rfl
    | cons piece _ =>
      by_cases hup : piece = ['.', '.']
      · simp [leadComponents, ofPiece, hup]
      · simp [leadComponents, ofPiece, hup]

/-- Where a path goes on from another one shows in its components. -/
lemma LiesBelow.of_same {base path other : String} {names : Place} (h : LiesBelow base names path)
    (hsame : Path.same path other = true) : LiesBelow base names other := by
  have hcomponents : components path = components other := by simpa [Path.same] using hsame
  constructor
  · rw [← h.start, isAbsolute_eq_components, isAbsolute_eq_components, hcomponents]
  · rw [← h.steps, steps_eq_components, steps_eq_components, hcomponents]

/-- When what stands at a place was modified: a file when it was written, anything else when its entries last
changed. -/
def modifiedAt (t : FileTree) (q : Place) : FileNode → Instant
  | .file f => f.modified
  | _ => t.changedAt q

lemma modified_of_place {t : FileTree} {path : String} {q : Place} {node : FileNode} (hplace : t.place path = .ok q)
    (hnode : t.get? q = some node) : t.modified path = .ok (modifiedAt t q node) := by
  unfold FileTree.modified
  simp only [hplace, bind, Except.bind, hnode]
  cases node with
  | directory | file | link => rfl

lemma modified_of_node_error {t : FileTree} {path : String} {fault : FileFault} (h : t.node path = .error fault) :
    t.modified path = .error fault := by
  cases hplace : t.place path with
  | error other =>
    rw [FileTree.node, hplace] at h
    cases h
    rw [FileTree.modified, hplace]
    rfl
  | ok q =>
    cases hnode : t.get? q with
    | some node =>
      rw [node_iff_place.mpr ⟨q, hplace, hnode⟩] at h
      cases h
    | none =>
      simp only [FileTree.node, hplace, bind, Except.bind, hnode] at h
      cases h
      simp only [FileTree.modified, hplace, bind, Except.bind, hnode]
      rfl

lemma markerTime_of_place {t : FileTree} {path : String} {q : Place} {node : FileNode} (hplace : t.place path = .ok q)
    (hnode : t.get? q = some node) : markerTime t path = .ok (modifiedAt t q node) := by
  rw [markerTime, modified_of_place hplace hnode]

lemma markerTime_of_error {t : FileTree} {path : String} {fault : FileFault} (h : t.node path = .error fault) :
    markerTime t path = .error (if fault = .notFound then .markerMissing path else .file fault) := by
  rw [markerTime, modified_of_node_error h]
  cases fault <;> rfl

/-- There is a time just if the path leads to something, and then it is that of what it leads to. -/
lemma markerTime_eq_ok {t : FileTree} {path : String} {time : Instant} : markerTime t path = .ok time ↔
    ∃ q node, t.place path = .ok q ∧ t.get? q = some node ∧ modifiedAt t q node = time := by
  constructor
  · intro h
    cases hnode : t.node path with
    | error fault =>
      rw [markerTime_of_error hnode] at h
      cases h
    | ok node =>
      obtain ⟨q, hplace, hget⟩ := node_iff_place.mp hnode
      rw [markerTime_of_place hplace hget] at h
      exact ⟨q, node, hplace, hget, Except.ok.inj h⟩
  · rintro ⟨q, node, hplace, hget, rfl⟩
    exact markerTime_of_place hplace hget

/-- A marker that is a file of the workspace itself is not later than it is. -/
lemma not_isAfter_marker {t : FileTree} (ht : IsSound t) {workspace marker : String} {w names : Place} {f : File}
    (hw : t.place workspace = .ok w) (hnames : ∀ name ∈ names, IsFileName name) (hne : names ≠ [])
    (hf : fileAt t (w ++ names) = some f) (hsame : Path.same (join workspace (pathOfNames names)) marker = true)
    {time : Instant} (htime : markerTime t marker = .ok time) : f.modified.isAfter time = false := by
  have hbelow := (liesBelow_pathOfNames workspace hnames hne).of_same hsame
  obtain ⟨q, node, hplace, hnode, rfl⟩ := markerTime_eq_ok.mp htime
  obtain rfl := place_below ht.rooted hw hbelow hf hplace
  rw [get?_of_fileAt hf] at hnode
  cases hnode
  simp [modifiedAt, Instant.isAfter]

/-! ### What of a whole workspace is selected -/

section Whole

variable {t : FileTree} {workspace : String} {w : Place} (hw : t.place workspace = .ok w) {paths : List String}

include hw

lemma selected_all (ht : HasFileNames t) : selected t workspace .all = .ok paths ↔
    IsOpen t workspace w ∧ (walkedFiles t w).map (fun own => pathOfNames own.1) = paths := by
  simp only [selected, bind_eq_ok, walkFiles_eq_ok hw]
  constructor
  · rintro ⟨_, ⟨hopen, rfl⟩, hpaths⟩
    rw [mapM_inWorkspace fun own => isFileName_of_walked ht, Except.ok.injEq] at hpaths
    exact ⟨hopen, hpaths⟩
  · rintro ⟨hopen, rfl⟩
    exact ⟨_, ⟨hopen, rfl⟩, mapM_inWorkspace fun own => isFileName_of_walked ht⟩

/-- The marker itself does not have to be passed over, as no file is later than it is. -/
lemma filter_marker (ht : IsSound t) {marker : String} {time : Instant} (htime : markerTime t marker = .ok time) :
    (((walkedFiles t w).map fun own => (join workspace (pathOfNames own.1), own.2)).filter
      fun found => !Path.same found.1 marker && found.2.modified.isAfter time) =
      ((walkedFiles t w).filter fun own => own.2.modified.isAfter time).map
        fun own => (join workspace (pathOfNames own.1), own.2) := by
  rw [List.filter_map]
  refine congrArg _ (List.filter_congr fun own hown => ?_)
  obtain ⟨hne, hnames⟩ := isFileName_of_walked ht.named hown
  dsimp only [Function.comp]
  cases hsame : Path.same (join workspace (pathOfNames own.1)) marker with
  | false => rfl
  | true => rw [not_isAfter_marker ht hw hnames hne (mem_walkedFiles.mp hown).2 hsame htime, Bool.and_false]

lemma selected_since (ht : IsSound t) {marker : String} {time : Instant}
    (htime : markerTime t (join workspace marker) = .ok time) :
    selected t workspace (.modifiedSince marker) = .ok paths ↔ IsOpen t workspace w ∧
      (∀ own ∈ walkedFiles t w, t.isFile (join workspace (pathOfNames own.1)) = true) ∧
      ((walkedFiles t w).filter fun own => own.2.modified.isAfter time).map (fun own => pathOfNames own.1) = paths := by
  have hnames : ∀ own ∈ (walkedFiles t w).filter fun own => own.2.modified.isAfter time,
      own.1 ≠ [] ∧ ∀ name ∈ own.1, IsFileName name :=
    fun own hown => isFileName_of_walked ht.named (List.mem_filter.mp hown).1
  simp only [selected, modifiedSince, bind_eq_ok, htime, Except.ok.injEq, exists_eq_left', datedFiles_eq_ok,
    walkFiles_eq_ok hw]
  constructor
  · rintro ⟨_, ⟨⟨hopen, rfl⟩, hseen⟩, hpaths⟩
    rw [filter_marker hw ht htime, mapM_inWorkspace hnames, Except.ok.injEq] at hpaths
    exact ⟨hopen, List.forall_mem_map.mp hseen, hpaths⟩
  · rintro ⟨hopen, hseen, rfl⟩
    refine ⟨_, ⟨⟨hopen, rfl⟩, List.forall_mem_map.mpr hseen⟩, ?_⟩
    rw [filter_marker hw ht htime, mapM_inWorkspace hnames]

end Whole

end CrossBuild.Proofs
