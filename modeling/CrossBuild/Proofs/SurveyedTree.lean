import CrossBuild.Inventory.Survey
import CrossBuild.Proofs.JobNames
import CrossBuild.Proofs.SelectionMeaning
import CrossBuild.Proofs.TreeChanges
import CrossBuild.Proofs.WorkspacePaths

/-!
# Names in a surveyed tree

The projects, libraries and platforms of an inventory are named after directories, and a directory has
no two entries of one name. So names differ within a project and between projects, platforms differ
because later ones of a name are left out, and the labels of a project's libraries differ although a
component library may be called what a hardware library is.
-/

namespace CrossBuild.Proofs
open Inventory

/-! ### Entries of directories -/

/-- A tree whose places are reached by names of entries, as in every file system. -/
def HasFileNames (t : FileTree) : Prop := ∀ place ∈ t.nodes.keys, ∀ name ∈ place, IsFileName name

instance (t : FileTree) : Decidable (HasFileNames t) :=
  inferInstanceAs (Decidable (∀ place ∈ t.nodes.keys, ∀ name ∈ place, IsFileName name))

lemma nodup_below (t : FileTree) (place : Place) : ((t.below place).map (·.1)).Nodup := by
  have hplaces : t.nodes.toList.Pairwise (fun a b => a.1 ≠ b.1) := List.pairwise_map.mp (nodup_keys t.nodes)
  rw [List.Nodup, List.pairwise_map]
  exact (pairwise_below place hplaces).imp fun hne heq => hne (by rw [heq])

lemma nodup_children (t : FileTree) (place : Place) : ((t.children place).map (·.1)).Nodup := by
  have hbelow : (t.below place).Pairwise (fun a b => a.1 ≠ b.1) := List.pairwise_map.mp (nodup_below t place)
  rw [FileTree.children, List.Nodup, List.pairwise_map]
  refine hbelow.filterMap _ ?_
  rintro ⟨names, node⟩ ⟨names', node'⟩ hne a ha b hb heq
  dsimp only at ha hb
  split at ha
  · split at hb
    · cases ha
      cases hb
      dsimp only at heq
      exact hne (by rw [heq])
    · cases hb
  · cases ha

lemma nodup_subdirectories (t : FileTree) (path : String) : (subdirectories t path).Nodup := by
  unfold subdirectories
  split
  · exact List.nodup_nil
  · exact (nodup_children t _).filter _

lemma HasFileNames.subdirectory {t : FileTree} (h : HasFileNames t) {path name : String}
    (hname : name ∈ subdirectories t path) : IsFileName name := by
  unfold subdirectories at hname
  split at hname
  · cases hname
  · rename_i place _
    obtain ⟨⟨entry, node⟩, hmem, hentry⟩ := List.mem_map.mp (List.mem_filter.mp hname).1
    obtain rfl : entry = name := hentry
    unfold FileTree.children at hmem
    obtain ⟨⟨names, node'⟩, hbelow, hsome⟩ := List.mem_filterMap.mp hmem
    dsimp only at hsome
    split at hsome
    · cases hsome
      obtain ⟨_, hget⟩ := mem_below.mp hbelow
      have hkey : place ++ [entry] ∈ t.nodes.keys := by
        rw [mem_keys, contains_eq_true]
        unfold FileTree.get? at hget
        rw [if_neg (by simp)] at hget
        exact ⟨_, hget⟩
      exact h _ hkey entry (by simp)
    · cases hsome

/-- What is found below a path is named after directories, each of which holds one at most. -/
lemma foundBelow_names {α : Type} {t : FileTree} {path : String} {find? : String → String → Option α}
    {name : α → String} (hname : ∀ dir entry a, find? dir entry = some a → name a = entry) :
    ((foundBelow t path find?).map name).Sublist (subdirectories t path) := by
  unfold foundBelow
  rw [map_filterMap_of_eq fun entry a => hname _ entry a]
  exact List.filter_sublist

/-! ### Libraries -/

lemma hdlLibrary?_eq_some {t : FileTree} {dir name : String} {library : Library}
    (h : hdlLibrary? t dir name = some library) :
    library.name = name ∧ library.kind.isHdl = true ∧ library.kind.name = name := by
  unfold hdlLibrary? at h
  split at h
  · rename_i kind hkind
    split at h
    · rename_i hfound
      cases h
      rw [Bool.and_eq_true] at hfound
      have hname := List.find?_some hkind
      exact ⟨rfl, hfound.1, by simpa using hname⟩
    · cases h
  · cases h

lemma componentLibrary?_eq_some {t : FileTree} {dir name : String} {library : Library}
    (h : componentLibrary? t dir name = some library) :
    library = ⟨name, .components, Path.join "components" name⟩ := by
  unfold componentLibrary? at h
  split at h
  · cases h
    rfl
  · cases h

lemma label_of_isHdl {library : Library} (h : library.kind.isHdl = true) : library.label = library.name := by
  have hkind : (library.kind == .components) = false := by simpa [LibraryKind.isHdl] using h
  simp [Library.label, hkind]

/-- The directory of a component library is not the one in which all of them are. -/
lemma same_components {name : String} (h : IsFileName name) :
    Path.same (Path.join "components" name) "components" = false := by
  have hnames : ∀ other ∈ [name], IsFileName other := List.forall_mem_singleton.mpr h
  have hcut := cut_pathOfNames hnames (by simp)
  have hcomponents := components_pathOfNames hnames (by simp)
  rw [pathOfNames_singleton] at hcut hcomponents
  rw [Path.same, components_join "components" (by rw [hcut]), hcomponents, beq_eq_false_iff_ne]
  simp

lemma label_of_component {name : String} (h : IsFileName name) :
    (⟨name, .components, Path.join "components" name⟩ : Library).label = "components-" ++ name := by
  simp [Library.label, same_components h]

lemma isPart_label {library : Library} (hne : library.name ≠ "") (hcolon : ':' ∉ library.name.toList) :
    IsPart library.label := by
  unfold Library.label
  split
  · refine ⟨by simp, ?_⟩
    have hstart : ':' ∉ "components-".toList := by decide
    rw [String.toList_append, List.mem_append, not_or]
    exact ⟨hstart, hcolon⟩
  · exact ⟨hne, hcolon⟩

lemma nodup_componentLabels {t : FileTree} (h : HasFileNames t) (dir : String) :
    ((componentLibraries t dir).map Library.label).Nodup ∧
      ∀ library ∈ componentLibraries t dir, "components".toList <+: library.label.toList := by
  unfold componentLibraries
  dsimp only
  split
  · refine ⟨List.nodup_singleton _, fun library hlibrary => ?_⟩
    obtain rfl := List.mem_singleton.mp hlibrary
    decide
  · have hnamed : ∀ library ∈ foundBelow t (Path.join dir "components") (componentLibrary? t),
        library.label = "components-" ++ library.name := by
      intro library hlibrary
      obtain ⟨entry, hentry, hfound⟩ := List.mem_filterMap.mp hlibrary
      rw [componentLibrary?_eq_some hfound]
      exact label_of_component (h.subdirectory hentry)
    have hnames : ((foundBelow t (Path.join dir "components") (componentLibrary? t)).map
        Library.name).Nodup := by
      refine (nodup_subdirectories t _).sublist (foundBelow_names ?_)
      intro _ entry library hfound
      rw [componentLibrary?_eq_some hfound]
    constructor
    · refine hnames.of_map.map_on fun library hlibrary other hother heq => ?_
      rw [hnamed library hlibrary, hnamed other hother, String.append_right_inj] at heq
      exact List.inj_on_of_nodup_map hnames hlibrary hother heq
    · intro library hlibrary
      rw [hnamed library hlibrary, String.toList_append]
      exact List.IsPrefix.trans (by decide) (List.prefix_append "components-".toList _)

lemma nodup_labels {t : FileTree} (h : HasFileNames t) (dir : String) :
    ((projectLibraries t dir).map Library.label).Nodup := by
  obtain ⟨hcomponents, hstart⟩ := nodup_componentLabels h dir
  have hhdl : ∀ library ∈ foundBelow t (Path.join dir "hdl") (hdlLibrary? t),
      library.label = library.kind.name ∧ library.kind.isHdl = true ∧ library.label = library.name := by
    intro library hlibrary
    obtain ⟨entry, _, hfound⟩ := List.mem_filterMap.mp hlibrary
    obtain ⟨hname, hisHdl, hkind⟩ := hdlLibrary?_eq_some hfound
    have hlabel := label_of_isHdl hisHdl
    exact ⟨by rw [hlabel, hname, hkind], hisHdl, hlabel⟩
  have hnames : ((foundBelow t (Path.join dir "hdl") (hdlLibrary? t)).map Library.name).Nodup := by
    refine (nodup_subdirectories t _).sublist (foundBelow_names ?_)
    intro _ entry library hfound
    exact (hdlLibrary?_eq_some hfound).1
  have hother : ∀ kind : LibraryKind, kind.isHdl = true → ¬"components".toList <+: kind.name.toList := by
    intro kind
    cases kind <;> decide
  rw [projectLibraries, List.map_append, List.nodup_append]
  refine ⟨?_, hcomponents, ?_⟩
  · rw [List.map_congr_left fun library hlibrary => (hhdl library hlibrary).2.2]
    exact hnames
  · intro label hleft label' hright heq
    obtain ⟨library, hlibrary, rfl⟩ := List.mem_map.mp hleft
    obtain ⟨component, hcomponent, rfl⟩ := List.mem_map.mp hright
    obtain ⟨hkind, hisHdl, _⟩ := hhdl library hlibrary
    apply hother library.kind hisHdl
    rw [← hkind, heq]
    exact hstart component hcomponent

/-! ### Platforms -/

lemma firstOfEachName_spec (platforms : List Platform) :
    ((firstOfEachName platforms).map (·.name)).Nodup ∧
      ∀ platform ∈ firstOfEachName platforms, platform ∈ platforms := by
  have hfold : ∀ kept : List Platform, (kept.map (·.name)).Nodup →
      ((platforms.foldl (fun kept p => if kept.any (·.name == p.name) then kept else kept ++ [p]) kept).map
        (·.name)).Nodup ∧
      ∀ platform ∈ platforms.foldl (fun kept p => if kept.any (·.name == p.name) then kept else kept ++ [p])
        kept, platform ∈ kept ∨ platform ∈ platforms := by
    induction platforms with
    | nil =>
      intro kept hkept
      exact ⟨hkept, fun platform hplatform => .inl hplatform⟩
    | cons first rest ih =>
      intro kept hkept
      rw [List.foldl_cons]
      split
      · obtain ⟨hnodup, hmem⟩ := ih kept hkept
        refine ⟨hnodup, fun platform hplatform => ?_⟩
        exact (hmem platform hplatform).imp_right (List.mem_cons_of_mem first)
      · rename_i hnew
        have hfresh : first.name ∉ kept.map (·.name) := by
          simpa using hnew
        have hnext : ((kept ++ [first]).map (·.name)).Nodup := by
          rw [List.map_append]
          exact List.nodup_append_comm.mp (List.nodup_cons.mpr ⟨hfresh, hkept⟩)
        obtain ⟨hnodup, hmem⟩ := ih (kept ++ [first]) hnext
        refine ⟨hnodup, fun platform hplatform => ?_⟩
        rcases hmem platform hplatform with hold | hrest
        · rcases List.mem_append.mp hold with hold | hfirst
          · exact .inl hold
          · exact .inr (List.mem_cons.mpr (.inl (List.mem_singleton.mp hfirst)))
        · exact .inr (List.mem_cons_of_mem first hrest)
  obtain ⟨hnodup, hmem⟩ := hfold [] List.nodup_nil
  refine ⟨hnodup, fun platform hplatform => ?_⟩
  exact (hmem platform hplatform).resolve_left List.not_mem_nil

lemma platform_isFileName {t : FileTree} (h : HasFileNames t) {dir project : String} {platform : Platform}
    (hplatform : platform ∈ projectPlatforms t dir project) : IsFileName platform.name := by
  have hhdl : ∀ dir entry platform, hdlPlatform? t project dir entry = some platform →
      platform.name = entry := by
    intro dir entry platform hfound
    unfold hdlPlatform? at hfound
    split at hfound
    · cases hfound
      rfl
    · cases hfound
  have hrcc : ∀ dir entry platform, rccPlatform? t project dir entry = some platform →
      platform.name = entry := by
    intro dir entry platform hfound
    unfold rccPlatform? at hfound
    split at hfound
    · cases hfound
      rfl
    · cases hfound
  unfold projectPlatforms at hplatform
  rcases List.mem_append.mp hplatform with hfound | hfound
  · exact h.subdirectory ((foundBelow_names hhdl).subset (List.mem_map_of_mem hfound))
  · exact h.subdirectory ((foundBelow_names hrcc).subset (List.mem_map_of_mem hfound))

/-! ### Inventories -/

/-- A survey succeeds where the root is a directory and no directory that it looks through is closed to it. -/
lemma survey_eq_ok_iff {t : FileTree} {root : String} {i : Inventory} : survey t root = .ok i ↔
    t.isDirectory root = true ∧ unreadable? t root = none ∧
      (projectNames t root).map (fun name => ⟨name, projectLibraries t (Path.join root name)⟩) = i.projects ∧
      (firstOfEachName ((projectNames t root).flatMap fun name => projectPlatforms t (Path.join root name) name)).mergeSort
        (fun a b => a.name ≤ b.name) = i.platforms := by
  unfold survey
  cases hroot : t.isDirectory root with
  | false => simp
  | true =>
    cases hclosed : unreadable? t root with
    | some path => simp
    | none =>
      obtain ⟨projects, platforms⟩ := i
      simp

/-- An inventory in which names tell things apart. -/
structure IsWellNamed (i : Inventory) : Prop where
  projects : (i.projects.map (·.name)).Nodup
  labels : ∀ project ∈ i.projects, (project.libraries.map Library.label).Nodup
  platforms : (i.platforms.map (·.name)).Nodup
  nonempty : (∀ project ∈ i.projects, project.name ≠ "" ∧ ∀ library ∈ project.libraries, library.name ≠ "") ∧
    ∀ platform ∈ i.platforms, platform.name ≠ ""

lemma library_isFileName {t : FileTree} (h : HasFileNames t) {dir : String} {library : Library}
    (hlibrary : library ∈ projectLibraries t dir) : IsFileName library.name := by
  have hentry : ∀ {path : String} {find? : String → String → Option Library},
      (∀ dir entry found, find? dir entry = some found → found.name = entry) →
      library ∈ foundBelow t path find? → IsFileName library.name := by
    intro path find? hname hfound
    exact h.subdirectory ((foundBelow_names hname).subset (List.mem_map_of_mem hfound))
  unfold projectLibraries at hlibrary
  rcases List.mem_append.mp hlibrary with hfound | hfound
  · exact hentry (fun _ _ _ hsome => (hdlLibrary?_eq_some hsome).1) hfound
  · unfold componentLibraries at hfound
    dsimp only at hfound
    split at hfound
    · obtain rfl := List.mem_singleton.mp hfound
      decide
    · refine hentry (fun _ _ _ hsome => ?_) hfound
      rw [componentLibrary?_eq_some hsome]

/-- An inventory whose names are those of entries in directories. -/
structure IsNamedByFiles (i : Inventory) : Prop where
  projects : ∀ project ∈ i.projects, IsFileName project.name
  libraries : ∀ project ∈ i.projects, ∀ library ∈ project.libraries, IsFileName library.name
  platforms : ∀ platform ∈ i.platforms, IsFileName platform.name

lemma survey_isNamedByFiles {t : FileTree} (h : HasFileNames t) {root : String} {i : Inventory}
    (hsurvey : survey t root = .ok i) : IsNamedByFiles i := by
  obtain ⟨_, _, hprojects, hplatforms⟩ := survey_eq_ok_iff.mp hsurvey
  refine ⟨?_, ?_, ?_⟩
  · rw [← hprojects]
    intro project hproject
    obtain ⟨name, hname, rfl⟩ := List.mem_map.mp hproject
    exact h.subdirectory (List.mem_filter.mp hname).1
  · rw [← hprojects]
    intro project hproject library hlibrary
    obtain ⟨name, _, rfl⟩ := List.mem_map.mp hproject
    exact library_isFileName h hlibrary
  · rw [← hplatforms]
    intro platform hplatform
    have hkept := (firstOfEachName_spec _).2 platform (List.mem_mergeSort.mp hplatform)
    obtain ⟨name, _, hfound⟩ := List.mem_flatMap.mp hkept
    exact platform_isFileName h hfound

/-- What is found in a tree is well named. -/
theorem survey_isWellNamed {t : FileTree} (h : HasFileNames t) {root : String} {i : Inventory}
    (hsurvey : survey t root = .ok i) : IsWellNamed i := by
  have hfiles := survey_isNamedByFiles h hsurvey
  have hnonempty : (∀ project ∈ i.projects, project.name ≠ "" ∧ ∀ library ∈ project.libraries, library.name ≠ "") ∧
      ∀ platform ∈ i.platforms, platform.name ≠ "" :=
    ⟨fun project hproject => ⟨(hfiles.projects project hproject).nonempty,
      fun library hlibrary => (hfiles.libraries project hproject library hlibrary).nonempty⟩,
      fun platform hplatform => (hfiles.platforms platform hplatform).nonempty⟩
  obtain ⟨_, _, hprojects, hplatforms⟩ := survey_eq_ok_iff.mp hsurvey
  have hunique := (firstOfEachName_spec
    ((projectNames t root).flatMap fun name => projectPlatforms t (Path.join root name) name)).1
  have hperm := List.mergeSort_perm (firstOfEachName
    ((projectNames t root).flatMap fun name => projectPlatforms t (Path.join root name) name))
    fun a b => a.name ≤ b.name
  refine ⟨?_, ?_, ?_, hnonempty⟩
  · rw [← hprojects, List.map_map]
    have hnames : (projectNames t root).Nodup := (nodup_subdirectories t root).filter _
    exact hnames.map fun _ _ heq => heq
  · rw [← hprojects]
    intro project hproject
    obtain ⟨name, _, rfl⟩ := List.mem_map.mp hproject
    exact nodup_labels h _
  · rw [← hplatforms]
    exact (hperm.map _).nodup_iff.mpr hunique

/-- The survey of a tree whose platforms are found in the order of their names. -/
lemma survey_eq_ok {t : FileTree} {root : String} {projects : List Project} {platforms : List Platform}
    (hroot : t.isDirectory root = true) (hopen : unreadable? t root = none)
    (hprojects : (projectNames t root).map
      (fun name => (⟨name, projectLibraries t (Path.join root name)⟩ : Project)) = projects)
    (hplatforms : firstOfEachName ((projectNames t root).flatMap fun name =>
      projectPlatforms t (Path.join root name) name) = platforms)
    (hsorted : platforms.Pairwise fun a b => a.name ≤ b.name) :
    survey t root = .ok ⟨projects, platforms⟩ := by
  refine survey_eq_ok_iff.mpr ⟨hroot, hopen, hprojects, ?_⟩
  rw [hplatforms, List.mergeSort_of_pairwise (by simpa using hsorted)]

end CrossBuild.Proofs
