import CrossBuild.Proofs.UploadedFiles
import Mathlib.Data.List.Pairwise

/-!
# The paths that are selected

Whatever selects the files of a workspace gives paths that lead below it through plain names, and none of
them leads through what another one names. For what a walk comes by this is so because nothing stands below
a file.
-/

namespace CrossBuild.Proofs
open CrossBuild.Path Handoff

/-! ### Walks -/

/-- Neither of two lists of names leads through what the other one names. -/
def Beside (a b : Place) : Prop := ¬a <+: b ∧ ¬b <+: a

lemma Beside.ne {o p : Place} (h : Beside o p) : o ≠ p := by
  rintro rfl
  exact h.1 List.prefix_rfl

lemma Beside.append {o p : Place} (h : Beside o p) (a b : Place) : Beside (o ++ a) (p ++ b) := by
  refine ⟨fun hbegins => ?_, fun hbegins => ?_⟩
  · exact (List.prefix_or_prefix_of_prefix ((List.prefix_append o a).trans hbegins) (List.prefix_append p b)).elim h.1 h.2
  · exact (List.prefix_or_prefix_of_prefix (List.prefix_append o a) ((List.prefix_append p b).trans hbegins)).elim h.1 h.2

/-- Files by the names that lead to them, none of which leads through another file. -/
structure AreFiles (found : List (Place × File)) : Prop where
  named : ∀ own ∈ found, own.1 ≠ [] ∧ ∀ name ∈ own.1, IsFileName name
  beside : found.Pairwise fun a b => Beside a.1 b.1

lemma AreFiles.sublist {found kept : List (Place × File)} (h : AreFiles found) (hkept : kept.Sublist found) :
    AreFiles kept :=
  ⟨fun own hown => h.named own (hkept.subset hown), h.beside.sublist hkept⟩

/-- Nothing stands below a file. -/
lemma Rooted.eq_of_prefix {t : FileTree} (ht : Rooted t) {p q : Place} {f : File} (hf : t.get? p = some (.file f))
    (hq : t.get? q ≠ none) (hbegins : p <+: q) : p = q := by
  obtain ⟨rest, rfl⟩ := hbegins
  cases rest with
  | nil => exact (List.append_nil p).symm
  | cons name rest =>
    rw [List.append_cons] at hq
    obtain ⟨mode, hmode⟩ := ht p name (ht.get?_front rest hq)
    rw [hf] at hmode
    cases hmode

/-- The files that a walk comes by stand below where the walk starts. -/
lemma walkFiles_eq {t : FileTree} (ht : IsSound t) {root : String} {found : List Found}
    (h : walkFiles t root = .ok found) : ∃ own : List (Place × File), AreFiles own ∧
      found = own.map fun own => (join root (pathOfNames own.1), own.2) := by
  obtain ⟨w, hw⟩ := place_of_walkFiles h
  obtain ⟨_, rfl⟩ := (walkFiles_eq_ok hw).mp h
  refine ⟨walkedFiles t w, ⟨fun own hown => isFileName_of_walked ht.named hown, ?_⟩, rfl⟩
  have hbeside : ∀ {a b : Place × File}, a ∈ walkedFiles t w → b ∈ walkedFiles t w → a.1 <+: b.1 → a.1 = b.1 := by
    intro a b ha hb hbegins
    have hsame := ht.rooted.eq_of_prefix (get?_of_fileAt (mem_walkedFiles.mp ha).2)
      (by simp [get?_of_fileAt (mem_walkedFiles.mp hb).2]) ((List.prefix_append_right_inj w).mpr hbegins)
    exact List.append_cancel_left hsame
  refine (List.pairwise_map.mp (nodup_walkedFiles t w)).imp_of_mem fun {a b} ha hb hne => ?_
  exact ⟨fun hbegins => hne (hbeside ha hb hbegins), fun hbegins => hne (hbeside hb ha hbegins).symm⟩

/-! ### Selections -/

/-- The paths lead below where they start through plain names, and none leads through another one's end. -/
structure AreApart (paths : List String) : Prop where
  plain : ∀ path ∈ paths, isPlain path = true
  beside : paths.Pairwise fun a b => Beside (namesOf a) (namesOf b)

lemma areApart_singleton {path : String} (h : isPlain path = true) : AreApart [path] :=
  ⟨by simpa using h, List.pairwise_singleton _ _⟩

lemma AreApart.beside_of_ne {paths : List String} (h : AreApart paths) {a b : String} (ha : a ∈ paths) (hb : b ∈ paths)
    (hne : a ≠ b) : Beside (namesOf a) (namesOf b) := by
  have hsymm : Std.Symm fun a b : String => Beside (namesOf a) (namesOf b) := ⟨fun _ _ hbeside => ⟨hbeside.2, hbeside.1⟩⟩
  exact h.beside.forall ha hb hne

section Selections

variable {t : FileTree} {workspace : String}

/-- Files that a walk comes by, named from the workspace on, are apart. -/
lemma AreFiles.areApart {own : List (Place × File)} (h : AreFiles own) {rest : String} (hrest : isPlain rest = true) :
    AreApart (own.map fun own => join rest (pathOfNames own.1)) := by
  have hnames : ∀ p ∈ own, components (join rest (pathOfNames p.1)) = (namesOf rest ++ p.1).map .name := by
    intro p hp
    obtain ⟨hne, hnamed⟩ := h.named p hp
    obtain ⟨names, hcomponents⟩ := isPlain_iff_names.mp hrest
    rw [components_join rest (by rw [cut_pathOfNames hnamed hne]), components_pathOfNames hnamed hne, hcomponents,
      namesOf_of_components hcomponents, List.map_append]
  constructor
  · intro path hpath
    obtain ⟨p, hp, rfl⟩ := List.mem_map.mp hpath
    exact isPlain_iff_names.mpr ⟨_, hnames p hp⟩
  · rw [List.pairwise_map]
    refine h.beside.imp_of_mem fun {a b} ha hb hbeside => ?_
    rw [namesOf_of_components (hnames a ha), namesOf_of_components (hnames b hb)]
    exact ⟨fun hbegins => hbeside.1 ((List.prefix_append_right_inj _).mp hbegins),
      fun hbegins => hbeside.2 ((List.prefix_append_right_inj _).mp hbegins)⟩

/-- So are they whatever the walk starts at below the workspace. -/
lemma AreFiles.areApart_inWorkspace {own : List (Place × File)} (h : AreFiles own) {root rest : String}
    (hrest : isPlain rest = true)
    (hroot : ∀ {more}, isAbsolute more = false → join root more = join workspace (join rest more))
    {paths : List String} (hpaths : (own.map fun own => (join root (pathOfNames own.1), own.2)).mapM
      (fun own => inWorkspace workspace own.1) = .ok paths) : AreApart paths := by
  rw [mapM_inWorkspace_join (lead_of_plain hrest) hroot h.named, Except.ok.injEq] at hpaths
  rw [← hpaths]
  exact h.areApart hrest

/-- The paths that a selection gives lead to files that are apart. -/
theorem selected_areApart (ht : IsSound t) {selection : UploadSelection}
    (hrelative : ∀ path, selection = .path path → isAbsolute path = false) {paths : List String}
    (h : selected t workspace selection = .ok paths) : AreApart paths := by
  have hempty : isPlain "" = true := by decide
  cases selection with
  | modifiedSince marker =>
    simp only [selected, modifiedSince, datedFiles_eq_ok, bind_eq_ok] at h
    obtain ⟨time, _, found, ⟨hfound, _⟩, hpaths⟩ := h
    obtain ⟨own, hown, rfl⟩ := walkFiles_eq ht hfound
    rw [List.filter_map] at hpaths
    exact (hown.sublist List.filter_sublist).areApart_inWorkspace hempty (joined_empty workspace) hpaths
  | path path =>
    simp only [selected, namedFiles, bind_eq_ok] at h
    obtain ⟨rest, hrest, h⟩ := h
    rw [artifactPath, hrelative path rfl, if_neg Bool.false_ne_true, safePath] at hrest
    split at hrest
    · rename_i hplain
      obtain rfl : path = rest := Except.ok.inj hrest
      split at h
      · rw [← Except.ok.inj h]
        exact areApart_singleton hplain
      · split at h
        · cases h
        · obtain ⟨found, hfound, hpaths⟩ := bind_eq_ok.mp h
          obtain ⟨own, hown, rfl⟩ := walkFiles_eq ht hfound
          exact hown.areApart_inWorkspace hplain (fun hmore => join_assoc workspace (isPlain_names hplain).1 hmore) hpaths
    · cases hrest
  | all =>
    simp only [selected, bind_eq_ok] at h
    obtain ⟨found, hfound, hpaths⟩ := h
    obtain ⟨own, hown, rfl⟩ := walkFiles_eq ht hfound
    exact hown.areApart_inWorkspace hempty (joined_empty workspace) hpaths

end Selections

end CrossBuild.Proofs
