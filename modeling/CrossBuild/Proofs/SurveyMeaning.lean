import CrossBuild.Proofs.ByteOrder
import CrossBuild.Proofs.KeyOrder
import CrossBuild.Proofs.SurveyedTree

/-!
# What a survey finds

An inventory is told by the tree alone: which directories and files there are says which projects, which
libraries and which platforms it has, and the order of names says in which order they come. Where several
projects define platforms of one name, the first of them in that order counts, and within one project
hardware comes before software.
-/

namespace CrossBuild.Proofs
open Inventory

/-! ### Directories below a path -/

/-- An entry of the directory that a path leads to which leads to a directory itself. -/
structure IsSubdirectory (t : FileTree) (path name : String) : Prop where
  entry : ∃ place, t.place path = .ok place ∧ t.get? (place ++ [name]) ≠ none
  directory : t.isDirectory (Path.join path name) = true

lemma mem_children {t : FileTree} {place : Place} {name : String} {node : FileNode} :
    (name, node) ∈ t.children place ↔ t.get? (place ++ [name]) = some node := by
  unfold FileTree.children
  rw [List.mem_filterMap]
  constructor
  · rintro ⟨⟨names, node'⟩, hbelow, h⟩
    dsimp only at h
    split at h
    · cases h
      exact (mem_below.mp hbelow).2
    · cases h
  · intro h
    exact ⟨([name], node), mem_below.mpr ⟨by simp, h⟩, rfl⟩

lemma mem_subdirectories {t : FileTree} {path name : String} :
    name ∈ subdirectories t path ↔ IsSubdirectory t path name := by
  unfold subdirectories
  split
  · rename_i fault hfault
    constructor
    · intro h
      cases h
    · rintro ⟨⟨place, hplace, _⟩, _⟩
      rw [hfault] at hplace
      cases hplace
  · rename_i place hplace
    rw [List.mem_filter]
    constructor
    · rintro ⟨hmem, hdirectory⟩
      obtain ⟨⟨entry, node⟩, hentry, rfl⟩ := List.mem_map.mp hmem
      exact ⟨⟨place, hplace, by simp [mem_children.mp hentry]⟩, hdirectory⟩
    · rintro ⟨⟨place', hplace', hsome⟩, hdirectory⟩
      obtain rfl : place = place' := Except.ok.inj (hplace.symm.trans hplace')
      obtain ⟨node, hnode⟩ := Option.ne_none_iff_exists'.mp hsome
      exact ⟨List.mem_map.mpr ⟨(name, node), mem_children.mpr hnode, rfl⟩, hdirectory⟩

lemma compare_entries (place : Place) (a b : String) :
    compare (place ++ [a]) (place ++ [b]) = compare a b := by
  induction place with
  | nil => rw [List.nil_append, List.nil_append, List.compare_cons_cons, List.compare_nil_nil, Ordering.then_eq]
  | cons first place ih =>
    have hfirst : compare first first = .eq := Std.ReflCmp.compare_self
    rw [List.cons_append, List.cons_append, List.compare_cons_cons, hfirst, Ordering.eq_then, ih]

lemma children_sorted (t : FileTree) (place : Place) : ((t.children place).map (·.1)).Pairwise (· < ·) := by
  have hbelow := pairwise_below (r := fun p q => compare p q = .lt) place t.nodes.increasing
  rw [FileTree.children, List.pairwise_map]
  refine hbelow.filterMap _ ?_
  rintro ⟨names, node⟩ ⟨names', node'⟩ hlt a ha b hb
  dsimp only at hlt ha hb
  split at ha
  · split at hb
    · cases ha
      cases hb
      rw [compare_entries] at hlt
      exact compare_eq_lt.mp hlt
    · cases hb
  · cases ha

lemma subdirectories_sorted (t : FileTree) (path : String) : (subdirectories t path).Pairwise (· < ·) := by
  unfold subdirectories
  split
  · exact .nil
  · exact (children_sorted t _).filter _

lemma mem_foundBelow {α : Type} {t : FileTree} {path : String} {find? : String → String → Option α} {a : α} :
    a ∈ foundBelow t path find? ↔ ∃ name, IsSubdirectory t path name ∧ find? (Path.join path name) name = some a := by
  simp only [foundBelow, List.mem_filterMap, mem_subdirectories]

/-- What is found below a path is in the order of the names of directories. -/
lemma foundBelow_sorted {α : Type} {t : FileTree} {path : String} {find? : String → String → Option α}
    {name : α → String} (hname : ∀ dir entry a, find? dir entry = some a → name a = entry) :
    InByteOrder ((foundBelow t path find?).map name) :=
  inByteOrder_iff.mpr ((subdirectories_sorted t path).sublist (foundBelow_names hname))

/-! ### Projects -/

/-- A directory right below the root that holds the marker of a project. -/
structure IsProject (t : FileTree) (root name : String) : Prop where
  directory : IsSubdirectory t root name
  marker : t.isFile (Path.join (Path.join root name) "Project.mk") = true

lemma mem_projectNames {t : FileTree} {root name : String} : name ∈ projectNames t root ↔ IsProject t root name := by
  rw [projectNames, List.mem_filter, mem_subdirectories]
  exact ⟨fun h => ⟨h.1, h.2⟩, fun h => ⟨h.directory, h.marker⟩⟩

lemma projectNames_sorted (t : FileTree) (root : String) : (projectNames t root).Pairwise (· < ·) :=
  (subdirectories_sorted t root).filter _

/-! ### Libraries -/

/-- A hardware library of the project in a directory: it is called what a recognised kind is called and has
a `Makefile`. -/
structure IsHdlLibrary (t : FileTree) (dir : String) (library : Library) : Prop where
  recognised : library.kind ≠ .components ∧ library.name = library.kind.name
  path : library.path = Path.join "hdl" library.name
  directory : IsSubdirectory t (Path.join dir "hdl") library.name
  marker : t.isFile (Path.join (Path.join (Path.join dir "hdl") library.name) "Makefile") = true

/-- One of the component libraries that a project has below `components`. -/
structure IsComponentLibrary (t : FileTree) (dir : String) (library : Library) : Prop where
  kind : library.kind = .components
  path : library.path = Path.join "components" library.name
  directory : IsSubdirectory t (Path.join dir "components") library.name
  specs : t.isDirectory (Path.join (Path.join (Path.join dir "components") library.name) "specs") = true

/-- The component libraries of the project in a directory: the only one is `components` itself, or they are
those that it holds. -/
def AreComponentLibraries (t : FileTree) (dir : String) (libraries : List Library) : Prop :=
  if t.isDirectory (Path.join (Path.join dir "components") "specs") then
    libraries = [⟨"components", .components, "components"⟩]
  else
    InByteOrder (libraries.map (·.name)) ∧ ∀ library, library ∈ libraries ↔ IsComponentLibrary t dir library

/-- The libraries of the project in a directory, hardware libraries first. -/
def AreLibraries (t : FileTree) (dir : String) (libraries : List Library) : Prop :=
  ∃ hdl components, libraries = hdl ++ components ∧
    InByteOrder (hdl.map (·.name)) ∧ (∀ library, library ∈ hdl ↔ IsHdlLibrary t dir library) ∧
    AreComponentLibraries t dir components

lemma ofName?_name (kind : LibraryKind) : LibraryKind.ofName? kind.name = some kind := by
  cases kind <;> rfl

lemma mem_hdlLibraries {t : FileTree} {dir : String} {library : Library} :
    library ∈ foundBelow t (Path.join dir "hdl") (hdlLibrary? t) ↔ IsHdlLibrary t dir library := by
  rw [mem_foundBelow]
  constructor
  · rintro ⟨name, hdirectory, hfound⟩
    obtain ⟨hname, hhdl, hkind⟩ := hdlLibrary?_eq_some hfound
    unfold hdlLibrary? at hfound
    split at hfound
    · split at hfound
      · rename_i hmarker
        cases hfound
        rw [Bool.and_eq_true] at hmarker
        exact ⟨⟨by simpa [LibraryKind.isHdl] using hhdl, hkind.symm⟩, rfl, hdirectory, hmarker.2⟩
      · cases hfound
    · cases hfound
  · rintro ⟨⟨hkind, hname⟩, hpath, hdirectory, hmarker⟩
    refine ⟨library.name, hdirectory, ?_⟩
    have hrecognised : LibraryKind.ofName? library.name = some library.kind := by rw [hname, ofName?_name]
    unfold hdlLibrary?
    rw [hrecognised]
    dsimp only
    rw [hmarker, if_pos (by simpa [LibraryKind.isHdl] using hkind), ← hpath]

lemma mem_componentLibraries {t : FileTree} {dir : String} {library : Library} :
    library ∈ foundBelow t (Path.join dir "components") (componentLibrary? t) ↔ IsComponentLibrary t dir library := by
  rw [mem_foundBelow]
  constructor
  · rintro ⟨name, hdirectory, hfound⟩
    unfold componentLibrary? at hfound
    split at hfound
    · rename_i hspecs
      cases hfound
      exact ⟨rfl, rfl, hdirectory, hspecs⟩
    · cases hfound
  · rintro ⟨hkind, hpath, hdirectory, hspecs⟩
    refine ⟨library.name, hdirectory, ?_⟩
    rw [componentLibrary?, isComponentLibrary, if_pos hspecs, ← hpath, ← hkind]

lemma areLibraries_projectLibraries (t : FileTree) (dir : String) : AreLibraries t dir (projectLibraries t dir) := by
  refine ⟨_, _, rfl, foundBelow_sorted fun _ _ _ hfound => (hdlLibrary?_eq_some hfound).1,
    fun _ => mem_hdlLibraries, ?_⟩
  unfold AreComponentLibraries componentLibraries
  dsimp only
  rw [isComponentLibrary]
  split
  · rfl
  · refine ⟨foundBelow_sorted fun _ _ _ hfound => ?_, fun _ => mem_componentLibraries⟩
    rw [componentLibrary?_eq_some hfound]

/-! ### Platforms of one project -/

/-- Where the platforms of a model are in a project. -/
def platformsPath (root project : String) (model : Model) : String :=
  Path.join (Path.join (Path.join root project) model.name) "platforms"

/-- The file that makes a directory one of a platform. -/
def platformMarker : Model → String → String
  | .hdl, _ => "Makefile"
  | .rcc, name => name ++ ".mk"

/-- A project has a directory for a platform of a model, with the marker in it. -/
structure Defines (t : FileTree) (root project name : String) (model : Model) : Prop where
  owner : IsProject t root project
  directory : IsSubdirectory t (platformsPath root project model) name
  marker : t.isFile (Path.join (Path.join (platformsPath root project model) name) (platformMarker model name)) = true

/-- A platform is recorded as its directory shows it. -/
structure IsRecorded (t : FileTree) (root : String) (p : Platform) : Prop where
  defined : Defines t root p.project p.name p.model
  host : p.role = .host ↔
    t.isFile (Path.join (Path.join (platformsPath root p.project p.model) p.name) (p.name ++ "-check.sh")) = true
  simulator : p.isSimulator = true ↔ p.model = .hdl ∧
    t.isFile (Path.join (Path.join (platformsPath root p.project p.model) p.name) ("runSimExec." ++ p.name)) = true
  unlinked : p.linked = ∅

lemma roleIn_eq_host {t : FileTree} {dir name : String} :
    roleIn t dir name = .host ↔ t.isFile (Path.join dir (name ++ "-check.sh")) = true := by
  unfold roleIn
  split
  · simp [*]
  · simp [*]

lemma hdlPlatform?_eq_some {t : FileTree} {project dir name : String} {p : Platform} :
    hdlPlatform? t project dir name = some p ↔ t.isFile (Path.join dir "Makefile") = true ∧
      p = ⟨name, project, .hdl (roleIn t dir name) (t.isFile (Path.join dir ("runSimExec." ++ name))), ∅⟩ := by
  unfold hdlPlatform?
  split
  · simp [*, eq_comm]
  · simp [*]

lemma rccPlatform?_eq_some {t : FileTree} {project dir name : String} {p : Platform} :
    rccPlatform? t project dir name = some p ↔ t.isFile (Path.join dir (name ++ ".mk")) = true ∧
      p = ⟨name, project, .rcc (roleIn t dir name), ∅⟩ := by
  unfold rccPlatform?
  split
  · simp [*, eq_comm]
  · simp [*]

/-- The platforms of one model that a project has. -/
def platformsOf (t : FileTree) (root project : String) : Model → List Platform
  | .hdl => foundBelow t (platformsPath root project .hdl) (hdlPlatform? t project)
  | .rcc => foundBelow t (platformsPath root project .rcc) (rccPlatform? t project)

lemma projectPlatforms_eq (t : FileTree) (root project : String) :
    projectPlatforms t (Path.join root project) project =
      platformsOf t root project .hdl ++ platformsOf t root project .rcc := rfl

section OneProject

variable {t : FileTree} {root project : String} (hproject : IsProject t root project)

include hproject

lemma recorded_of_mem {model : Model} {p : Platform} (h : p ∈ platformsOf t root project model) :
    p.project = project ∧ p.model = model ∧ IsRecorded t root p := by
  cases model with
  | hdl =>
    obtain ⟨name, hdirectory, hfound⟩ := mem_foundBelow.mp h
    obtain ⟨hmarker, rfl⟩ := hdlPlatform?_eq_some.mp hfound
    refine ⟨rfl, rfl, ⟨hproject, hdirectory, hmarker⟩, roleIn_eq_host, ?_, rfl⟩
    simp [Platform.isSimulator, Platform.model, platformsPath]
  | rcc =>
    obtain ⟨name, hdirectory, hfound⟩ := mem_foundBelow.mp h
    obtain ⟨hmarker, rfl⟩ := rccPlatform?_eq_some.mp hfound
    refine ⟨rfl, rfl, ⟨hproject, hdirectory, hmarker⟩, roleIn_eq_host, ?_, rfl⟩
    constructor
    · intro hsimulator
      cases hsimulator
    · rintro ⟨hmodel, _⟩
      cases hmodel

omit hproject in
lemma Defines.exists_mem {name : String} {model : Model} (h : Defines t root project name model) :
    ∃ p ∈ platformsOf t root project model, p.name = name := by
  cases model with
  | hdl => exact ⟨_, mem_foundBelow.mpr ⟨name, h.directory, hdlPlatform?_eq_some.mpr ⟨h.marker, rfl⟩⟩, rfl⟩
  | rcc => exact ⟨_, mem_foundBelow.mpr ⟨name, h.directory, rccPlatform?_eq_some.mpr ⟨h.marker, rfl⟩⟩, rfl⟩

lemma find?_platformsOf_eq_none {name : String} {model : Model} :
    (platformsOf t root project model).find? (·.name == name) = none ↔ ¬Defines t root project name model := by
  rw [List.find?_eq_none]
  constructor
  · intro hnone hdefines
    obtain ⟨p, hp, hname⟩ := hdefines.exists_mem
    exact hnone p hp (by simpa using hname)
  · intro hnot p hp hname
    obtain ⟨rfl, rfl, hrecorded⟩ := recorded_of_mem hproject hp
    rw [beq_iff_eq] at hname
    exact hnot (hname ▸ hrecorded.defined)

/-- The first platform of a name in a project is a hardware platform if there is one. -/
lemma find?_projectPlatforms {name : String} {p : Platform}
    (h : (projectPlatforms t (Path.join root project) project).find? (·.name == name) = some p) :
    p.name = name ∧ p.project = project ∧ IsRecorded t root p ∧
      (Defines t root project name .hdl → p.model = .hdl) := by
  have hname : p.name = name := by simpa using List.find?_some h
  rw [projectPlatforms_eq, List.find?_append, Option.or_eq_some_iff] at h
  rcases h with hhdl | ⟨hnone, hrcc⟩
  · obtain ⟨hown, hmodel, hrecorded⟩ := recorded_of_mem hproject (List.mem_of_find?_eq_some hhdl)
    exact ⟨hname, hown, hrecorded, fun _ => hmodel⟩
  · obtain ⟨hown, _, hrecorded⟩ := recorded_of_mem hproject (List.mem_of_find?_eq_some hrcc)
    exact ⟨hname, hown, hrecorded, fun hdefines => absurd hdefines ((find?_platformsOf_eq_none hproject).mp hnone)⟩

lemma find?_projectPlatforms_eq_none {name : String} :
    (projectPlatforms t (Path.join root project) project).find? (·.name == name) = none ↔
      ∀ model, ¬Defines t root project name model := by
  rw [projectPlatforms_eq, List.find?_append, Option.or_eq_none_iff, find?_platformsOf_eq_none hproject,
    find?_platformsOf_eq_none hproject]
  constructor
  · rintro ⟨hhdl, hrcc⟩ model
    cases model with
    | hdl => exact hhdl
    | rcc => exact hrcc
  · intro h
    exact ⟨h .hdl, h .rcc⟩

end OneProject

/-! ### Platforms of all projects -/

/-- The first platforms of their names are those that a search by name comes to. -/
lemma mem_firstOfEachName {platforms : List Platform} {p : Platform} :
    p ∈ firstOfEachName platforms ↔ platforms.find? (·.name == p.name) = some p := by
  have hfold : ∀ kept : List Platform, p ∈ platforms.foldl (fun kept p =>
      if kept.any (·.name == p.name) then kept else kept ++ [p]) kept ↔
        p ∈ kept ∨ p.name ∉ kept.map (·.name) ∧ platforms.find? (·.name == p.name) = some p := by
    induction platforms with
    | nil => simp
    | cons first rest ih =>
      intro kept
      rw [List.foldl_cons, ih]
      by_cases hkept : kept.any (·.name == first.name) = true
      · have hold : first.name ∈ kept.map (·.name) := by simpa using hkept
        rw [if_pos hkept]
        refine or_congr_right (and_congr_right fun hnew => ?_)
        rw [List.find?_cons_of_neg]
        rw [beq_iff_eq]
        rintro hsame
        exact hnew (hsame ▸ hold)
      · have hfresh : first.name ∉ kept.map (·.name) := by simpa using hkept
        rw [if_neg hkept, List.mem_append, List.mem_singleton, or_assoc, List.map_append, List.mem_append, not_or]
        refine or_congr_right ?_
        by_cases hsame : first.name = p.name
        · rw [List.find?_cons_of_pos (by simpa using hsame), Option.some_inj, eq_comm (a := first)]
          simp [hsame, hsame ▸ hfresh]
        · rw [List.find?_cons_of_neg (by simpa using hsame)]
          have hne : p ≠ first := fun heq => hsame (by rw [heq])
          simp [hne, Ne.symm hsame]
  rw [firstOfEachName, hfold]
  simp

/-- Of the platforms of a name, the one that counts is that of the first project, and there that of
hardware. -/
structure IsFirstOfName (t : FileTree) (root : String) (p : Platform) : Prop where
  recorded : IsRecorded t root p
  project : ∀ project model, Defines t root project p.name model →
    p.project = project ∨ p.project.toUTF8.toList < project.toUTF8.toList
  model : Defines t root p.project p.name .hdl → p.model = .hdl

/-- The platforms of all projects, one project after the other. -/
def allPlatforms (t : FileTree) (root : String) : List Platform :=
  (projectNames t root).flatMap fun name => projectPlatforms t (Path.join root name) name

lemma isFirstOfName_of_mem {t : FileTree} {root : String} {p : Platform}
    (h : p ∈ firstOfEachName (allPlatforms t root)) : IsFirstOfName t root p := by
  rw [mem_firstOfEachName, allPlatforms, List.find?_flatMap, List.findSome?_eq_some_iff] at h
  obtain ⟨earlier, project, later, hnames, hfound, hnone⟩ := h
  have hmem : ∀ name, name ∈ earlier ++ project :: later ↔ IsProject t root name := by
    intro name
    rw [← hnames, mem_projectNames]
  have hproject : IsProject t root project := (hmem project).mp (by simp)
  have hsorted := projectNames_sorted t root
  rw [hnames, List.pairwise_append] at hsorted
  obtain ⟨_, rfl, hrecorded, hhdl⟩ := find?_projectPlatforms hproject hfound
  refine ⟨hrecorded, fun other model hdefines => ?_, hhdl⟩
  have hother := (hmem other).mpr hdefines.owner
  rw [List.mem_append, List.mem_cons] at hother
  rcases hother with hearlier | rfl | hlater
  · have hnot := (find?_projectPlatforms_eq_none hdefines.owner).mp (hnone other hearlier)
    exact absurd hdefines (hnot model)
  · exact .inl rfl
  · have hlt := (List.pairwise_cons.mp hsorted.2.1).1 other hlater
    exact .inr ((lt_iff_toUTF8_lt _ _).mp hlt)

lemma mem_names_firstOfEachName {t : FileTree} {root name : String} :
    name ∈ (firstOfEachName (allPlatforms t root)).map (·.name) ↔
      ∃ project model, Defines t root project name model := by
  constructor
  · intro h
    obtain ⟨p, hp, rfl⟩ := List.mem_map.mp h
    exact ⟨_, _, (isFirstOfName_of_mem hp).recorded.defined⟩
  · rintro ⟨project, model, hdefines⟩
    have hsome : (allPlatforms t root).find? (·.name == name) ≠ none := by
      intro hnone
      rw [allPlatforms, List.find?_flatMap, List.findSome?_eq_none_iff] at hnone
      have hproject := hnone project (mem_projectNames.mpr hdefines.owner)
      exact (find?_projectPlatforms_eq_none hdefines.owner).mp hproject model hdefines
    obtain ⟨p, hp⟩ := Option.ne_none_iff_exists'.mp hsome
    have hname : p.name = name := by simpa using List.find?_some hp
    exact List.mem_map.mpr ⟨p, mem_firstOfEachName.mpr (by rw [hname]; exact hp), hname⟩

/-- Platforms with different names, sorted by name. -/
lemma inByteOrder_mergeSort {platforms : List Platform} (h : (platforms.map (·.name)).Nodup) :
    InByteOrder ((platforms.mergeSort fun a b => a.name ≤ b.name).map (·.name)) := by
  have hsorted : (platforms.mergeSort fun a b => a.name ≤ b.name).Pairwise fun a b => a.name ≤ b.name := by
    refine (List.pairwise_mergeSort ?_ ?_ platforms).imp fun hle => by simpa using hle
    · intro a b c hab hbc
      rw [decide_eq_true_eq] at *
      exact String.le_trans hab hbc
    · intro a b
      simpa using String.le_total a.name b.name
  have hnodup : ((platforms.mergeSort fun a b => a.name ≤ b.name).map (·.name)).Nodup :=
    ((List.mergeSort_perm platforms _).map _).nodup_iff.mpr h
  rw [inByteOrder_iff, List.pairwise_map]
  rw [List.Nodup, List.pairwise_map] at hnodup
  exact (hsorted.and hnodup).imp fun hboth => Std.lt_of_le_of_ne hboth.1 hboth.2

/-! ### Inventories -/

/-- An inventory is what a tree holds below a root. -/
structure IsInventoryOf (t : FileTree) (root : String) (i : Inventory) : Prop where
  projectOrder : InByteOrder (i.projects.map (·.name))
  projects : ∀ name, name ∈ i.projects.map (·.name) ↔ IsProject t root name
  libraries : ∀ project ∈ i.projects, AreLibraries t (Path.join root project.name) project.libraries
  labels : ∀ project ∈ i.projects, (project.libraries.map Library.label).Nodup
  platformOrder : InByteOrder (i.platforms.map (·.name))
  platformNames : ∀ name, name ∈ i.platforms.map (·.name) ↔ ∃ project model, Defines t root project name model
  platforms : ∀ p ∈ i.platforms, IsFirstOfName t root p

lemma eq_of_inByteOrder {α : Type} {name : α → String} {l l' : List α} (h : InByteOrder (l.map name))
    (h' : InByteOrder (l'.map name)) (hmem : ∀ a, a ∈ l ↔ a ∈ l') : l = l' := by
  rw [inByteOrder_iff, List.pairwise_map] at h h'
  have hnodup : ∀ {l : List α}, l.Pairwise (fun a b => name a < name b) → l.Nodup := by
    intro l hl
    refine hl.imp fun hlt heq => ?_
    rw [heq] at hlt
    exact String.lt_irrefl _ hlt
  have hperm := (List.perm_ext_iff_of_nodup (hnodup h) (hnodup h')).mpr hmem
  refine hperm.eq_of_pairwise ?_ h h'
  intro a b _ _ hab hba
  exact absurd (String.lt_trans hab hba) (String.lt_irrefl _)

lemma AreLibraries.eq {t : FileTree} {dir : String} {l l' : List Library} (h : AreLibraries t dir l)
    (h' : AreLibraries t dir l') : l = l' := by
  obtain ⟨hdl, components, rfl, horder, hhdl, hcomponents⟩ := h
  obtain ⟨hdl', components', rfl, horder', hhdl', hcomponents'⟩ := h'
  obtain rfl : hdl = hdl' := eq_of_inByteOrder horder horder' fun library => (hhdl library).trans (hhdl' library).symm
  unfold AreComponentLibraries at hcomponents hcomponents'
  split at hcomponents
  · rename_i hsingle
    rw [if_pos hsingle] at hcomponents'
    rw [hcomponents, hcomponents']
  · rename_i hseveral
    rw [if_neg hseveral] at hcomponents'
    rw [eq_of_inByteOrder hcomponents.1 hcomponents'.1 fun library =>
      (hcomponents.2 library).trans (hcomponents'.2 library).symm]

lemma role_eq {role role' : Role} (h : role = .host ↔ role' = .host) : role = role' := by
  cases role <;> cases role' <;> simp_all

lemma model_eq {model model' : Model} (h : model = .hdl ↔ model' = .hdl) : model = model' := by
  cases model <;> cases model' <;> simp_all

lemma eq_of_parts {p q : Platform} (hname : p.name = q.name) (hproject : p.project = q.project)
    (hmodel : p.model = q.model) (hrole : p.role = q.role) (hsimulator : p.isSimulator = q.isSimulator)
    (hlinked : p.linked = q.linked) : p = q := by
  obtain ⟨name, project, kind, linked⟩ := p
  obtain ⟨name', project', kind', linked'⟩ := q
  obtain rfl : name = name' := hname
  obtain rfl : project = project' := hproject
  obtain rfl : linked = linked' := hlinked
  cases kind with
  | hdl role simulator =>
    cases kind' with
    | hdl role' simulator' =>
      obtain rfl : role = role' := hrole
      obtain rfl : simulator = simulator' := hsimulator
      rfl
    | rcc role' => cases hmodel
  | rcc role =>
    cases kind' with
    | hdl role' simulator' => cases hmodel
    | rcc role' =>
      obtain rfl : role = role' := hrole
      rfl

lemma IsRecorded.eq {t : FileTree} {root : String} {p q : Platform} (hp : IsRecorded t root p)
    (hq : IsRecorded t root q) (hname : p.name = q.name) (hproject : p.project = q.project)
    (hmodel : p.model = q.model) : p = q := by
  have hrole : p.role = .host ↔ q.role = .host := by rw [hp.host, hq.host, hname, hproject, hmodel]
  have hsimulator : p.isSimulator = q.isSimulator := by
    rw [Bool.eq_iff_iff, hp.simulator, hq.simulator, hname, hproject, hmodel]
  have hlinked : p.linked = q.linked := hp.unlinked.trans hq.unlinked.symm
  exact eq_of_parts hname hproject hmodel (role_eq hrole) hsimulator hlinked

lemma IsFirstOfName.model_iff {t : FileTree} {root : String} {p : Platform} (h : IsFirstOfName t root p) :
    p.model = .hdl ↔ Defines t root p.project p.name .hdl :=
  ⟨fun hmodel => hmodel ▸ h.recorded.defined, h.model⟩

lemma IsFirstOfName.eq {t : FileTree} {root : String} {p q : Platform} (hp : IsFirstOfName t root p)
    (hq : IsFirstOfName t root q) (hname : p.name = q.name) : p = q := by
  have hproject : p.project = q.project := by
    rcases hp.project _ _ (hname ▸ hq.recorded.defined) with heq | hlt
    · exact heq
    · rcases hq.project _ _ (hname ▸ hp.recorded.defined) with heq | hgt
      · exact heq.symm
      · exact absurd hgt (List.lt_asymm hlt)
  have hmodel : p.model = q.model := by
    refine model_eq ?_
    rw [hp.model_iff, hq.model_iff, hname, hproject]
  exact hp.recorded.eq hq.recorded hname hproject hmodel

lemma IsInventoryOf.project_mem {t : FileTree} {root : String} {i j : Inventory} (hi : IsInventoryOf t root i)
    (hj : IsInventoryOf t root j) {project : Project} (h : project ∈ i.projects) : project ∈ j.projects := by
  have hname : project.name ∈ j.projects.map (·.name) :=
    (hj.projects _).mpr ((hi.projects _).mp (List.mem_map_of_mem h))
  obtain ⟨other, hother, hsame⟩ := List.mem_map.mp hname
  have hlibraries := hj.libraries other hother
  rw [hsame] at hlibraries
  obtain rfl : project = other := by
    obtain ⟨name, libraries⟩ := project
    obtain ⟨name', libraries'⟩ := other
    obtain rfl : name' = name := hsame
    obtain rfl : libraries = libraries' := (hi.libraries _ h).eq hlibraries
    rfl
  exact hother

lemma IsInventoryOf.platform_mem {t : FileTree} {root : String} {i j : Inventory} (hi : IsInventoryOf t root i)
    (hj : IsInventoryOf t root j) {p : Platform} (h : p ∈ i.platforms) : p ∈ j.platforms := by
  have hname : p.name ∈ j.platforms.map (·.name) :=
    (hj.platformNames _).mpr ((hi.platformNames _).mp (List.mem_map_of_mem h))
  obtain ⟨q, hq, hsame⟩ := List.mem_map.mp hname
  rw [(hi.platforms p h).eq (hj.platforms q hq) hsame.symm]
  exact hq

/-- A tree has one inventory. -/
lemma IsInventoryOf.eq {t : FileTree} {root : String} {i j : Inventory} (hi : IsInventoryOf t root i)
    (hj : IsInventoryOf t root j) : i = j := by
  have hprojects : i.projects = j.projects :=
    eq_of_inByteOrder hi.projectOrder hj.projectOrder fun _ => ⟨hi.project_mem hj, hj.project_mem hi⟩
  have hplatforms : i.platforms = j.platforms :=
    eq_of_inByteOrder hi.platformOrder hj.platformOrder fun _ => ⟨hi.platform_mem hj, hj.platform_mem hi⟩
  obtain ⟨projects, platforms⟩ := i
  obtain ⟨projects', platforms'⟩ := j
  rw [Inventory.mk.injEq]
  exact ⟨hprojects, hplatforms⟩

lemma isInventoryOf_of_survey {t : FileTree} (h : HasFileNames t) {root : String} {i : Inventory}
    (hsurvey : survey t root = .ok i) : IsInventoryOf t root i := by
  have hnamed := survey_isWellNamed h hsurvey
  obtain ⟨_, _, hprojects, hplatforms⟩ := survey_eq_ok_iff.mp hsurvey
  have hnames : i.projects.map (·.name) = projectNames t root := by
    rw [← hprojects, List.map_map]
    exact List.map_id _
  have hmem : ∀ p, p ∈ i.platforms ↔ p ∈ firstOfEachName (allPlatforms t root) := by
    intro p
    rw [← hplatforms]
    exact List.mem_mergeSort
  refine ⟨?_, ?_, ?_, hnamed.labels, ?_, ?_, ?_⟩
  · rw [hnames]
    exact inByteOrder_iff.mpr (projectNames_sorted t root)
  · intro name
    rw [hnames, mem_projectNames]
  · rw [← hprojects]
    intro project hproject
    obtain ⟨name, _, rfl⟩ := List.mem_map.mp hproject
    exact areLibraries_projectLibraries t _
  · rw [← hplatforms]
    exact inByteOrder_mergeSort (firstOfEachName_spec _).1
  · intro name
    rw [← mem_names_firstOfEachName, List.mem_map, List.mem_map]
    simp only [hmem]
  · intro p hp
    exact isFirstOfName_of_mem ((hmem p).mp hp)

/-- A survey that succeeds finds what the tree holds, and nothing else is what the tree holds. -/
theorem survey_meaning {t : FileTree} (h : HasFileNames t) {root : String} {i : Inventory}
    (hsurvey : survey t root = .ok i) : IsInventoryOf t root i ∧ ∀ j, IsInventoryOf t root j → j = i := by
  have hi := isInventoryOf_of_survey h hsurvey
  exact ⟨hi, fun j hj => hj.eq hi⟩

def markerFile : FileNode := .file ⟨.empty, default, FileTree.fileMode⟩

def plainDirectory : FileNode := .directory FileTree.directoryMode

/-- Two projects that define a platform of one name, the second of them with a library as well. -/
def rivalTree : FileTree where
  nodes := .ofList [
    (["assets"], plainDirectory),
    (["assets", "Project.mk"], markerFile),
    (["assets", "hdl"], plainDirectory),
    (["assets", "hdl", "platforms"], plainDirectory),
    (["assets", "hdl", "platforms", "alst4"], plainDirectory),
    (["assets", "hdl", "platforms", "alst4", "Makefile"], markerFile),
    (["core"], plainDirectory),
    (["core", "Project.mk"], markerFile),
    (["core", "hdl"], plainDirectory),
    (["core", "hdl", "cards"], plainDirectory),
    (["core", "hdl", "cards", "Makefile"], markerFile),
    (["core", "rcc"], plainDirectory),
    (["core", "rcc", "platforms"], plainDirectory),
    (["core", "rcc", "platforms", "alst4"], plainDirectory),
    (["core", "rcc", "platforms", "alst4", "alst4.mk"], markerFile)]
  current := []

def rivalInventory : Inventory where
  projects := [⟨"assets", []⟩, ⟨"core", [⟨"cards", .cards, "hdl/cards"⟩]⟩]
  platforms := [⟨"alst4", "assets", .hdl .cross false, ∅⟩]

/-- The platform that both projects define is that of the first one. -/
theorem survey_meaning_rival :
    HasFileNames rivalTree ∧ survey rivalTree "." = .ok rivalInventory ∧
      IsInventoryOf rivalTree "." rivalInventory ∧ ∀ j, IsInventoryOf rivalTree "." j → j = rivalInventory := by
  have hfiles : HasFileNames rivalTree := by decide +kernel
  have hsurvey : survey rivalTree "." = .ok rivalInventory :=
    survey_eq_ok (by decide +kernel) (by decide +kernel) (by decide +kernel) (by decide +kernel) (by decide +kernel)
  exact ⟨hfiles, hsurvey, survey_meaning hfiles hsurvey⟩

end CrossBuild.Proofs
