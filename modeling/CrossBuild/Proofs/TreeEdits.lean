import CrossBuild.Proofs.TreeChanges

/-!
# One edit at one place

A change of a tree that succeeds edits it at one place: there it makes a directory, puts a file, gives a
directory other permissions or removes what is no directory. The operations are taken apart once, into
these edits and the walk that found the place; what edits keep is proved by cases on them.
-/

namespace CrossBuild.Proofs
open FileTree

variable {now : Instant}

/-! ### Edits -/

/-- What a change can do to a tree at the place `q`, whatever it dates. -/
inductive Edit (t : FileTree) (q : Place) : FileTree → Prop where
  | made (mode : Nat) (hparent : DirectoryAt t q.dropLast) (hnone : t.get? q = none)
      {changes : SortedMap Place Instant} : Edit t q (dated (t.set q (.directory mode)) changes)
  | filed (f : File) (hnot : ¬DirectoryAt t q) (hparent : t.get? q = none → DirectoryAt t q.dropLast)
      {changes : SortedMap Place Instant} : Edit t q (dated (t.set q (.file f)) changes)
  | moded (mode : Nat) (hthere : t.get? q ≠ none) {changes : SortedMap Place Instant} :
      Edit t q (dated (t.set q (.directory mode)) changes)
  | removed (hnot : ¬DirectoryAt t q) {changes : SortedMap Place Instant} : Edit t q (dated (t.erase q) changes)

/-- The place that a walk ends at, whether there is something or not. -/
def placeOf : Spot → Place
  | .taken place => place
  | .free parent name => parent ++ [name]

lemma EndsAt.placeOf {t : FileTree} {w names : Place} {s : Spot} (h : EndsAt t w names s) :
    Proofs.placeOf s = w ++ names := by
  cases h with
  | taken => rfl
  | free hnames => rw [Proofs.placeOf, hnames, List.append_assoc]

lemma spot_free {t : FileTree} {followLast : Bool} {path : String} {parent : Place} {name : String}
    (h : t.spot followLast path = .ok (.free parent name)) : t.get? (parent ++ [name]) = none :=
  walkLinks_free (spot_iff_walk.mp h).2

lemma not_directoryAt_of_none {t : FileTree} {q : Place} (h : t.get? q = none) : ¬DirectoryAt t q := by
  rintro ⟨mode, hmode⟩
  rw [h] at hmode
  cases hmode

lemma not_directoryAt_of_replaceable {t : FileTree} {q : Place} (h : t.checkReplaceable q = .ok ()) :
    ¬DirectoryAt t q := by
  rintro ⟨mode, hmode⟩
  rw [checkReplaceable, hmode] at h
  cases h

section Operations

variable {t t' : FileTree} {path : String}

lemma edit_of_add {parent : Place} {name : String} {f : File} (hnone : t.get? (parent ++ [name]) = none)
    (h : t.add parent name (.file f) now = .ok t') : Edit t (parent ++ [name]) t' := by
  simp only [FileTree.add, bind_eq_ok, pure_eq_ok] at h
  obtain ⟨_, hcheck, rfl⟩ := h
  refine .filed f (not_directoryAt_of_none hnone) fun _ => ?_
  rw [List.dropLast_concat]
  exact directoryAt_of_check hcheck

/-- A directory that is ensured was there, or it is made at a free name. -/
lemma ensureDirectory_cases (h : t.ensureDirectory path now = .ok t') :
    t' = t ∧ t.isDirectory path = true ∨ ∃ parent name, t.spotOfSteps false path
      (stepsOf (withoutEndSlashes path)) = .ok (.free parent name) ∧ Edit t (parent ++ [name]) t' := by
  unfold ensureDirectory at h
  split at h
  · rename_i made hmake
    cases h
    simp only [makeDirectory, bind_eq_ok] at hmake
    obtain ⟨s, hspot, hmake⟩ := hmake
    cases s with
    | taken place => cases hmake
    | free parent name =>
      simp only [FileTree.add, bind_eq_ok, pure_eq_ok] at hmake
      obtain ⟨_, ⟨_, hcheck, rfl⟩, rfl⟩ := hmake
      refine .inr ⟨parent, name, hspot, .made _ ?_ (walkLinks_free hspot)⟩
      rw [List.dropLast_concat]
      exact directoryAt_of_check hcheck
  · split at h
    · rename_i hdir
      exact .inl ⟨(Except.ok.inj h).symm, hdir⟩
    · cases h

lemma replace_edit {f : File} (h : t.replace path f now = .ok t') : ∃ s, t.spot false path = .ok s ∧
    Edit t (placeOf s) t' ∧ t' = (t.set (placeOf s) (.file f)).changed (placeOf s).dropLast now := by
  simp only [replace, bind_eq_ok] at h
  obtain ⟨s, hspot, h⟩ := h
  refine ⟨s, hspot, ?_⟩
  cases s with
  | taken place =>
    simp only [bind_eq_ok, pure_eq_ok] at h
    obtain ⟨_, hcheck, rfl⟩ := h
    refine ⟨.filed f (not_directoryAt_of_replaceable hcheck) fun hnone => ?_, rfl⟩
    unfold checkReplaceable at hcheck
    rw [show t.get? place = none from hnone] at hcheck
    exact directoryAt_of_check hcheck
  | free parent name =>
    refine ⟨edit_of_add (spot_free hspot) h, ?_⟩
    rw [placeOf, List.dropLast_concat]
    exact add_eq_set h

/-- An update sets a file where there is none or another one. -/
lemma update_edit {f : Option File → File} (h : t.update path f now = .ok t') :
    ∃ s, t.spot true path = .ok s ∧ Edit t (placeOf s) t' ∧
      (∃ changes, t' = dated (t.set (placeOf s) (.file (f (fileAt t (placeOf s))))) changes) ∧
      (t.get? (placeOf s) = none ∨ ∃ old, t.get? (placeOf s) = some (.file old)) := by
  simp only [update, bind_eq_ok] at h
  obtain ⟨s, hspot, h⟩ := h
  refine ⟨s, hspot, ?_⟩
  cases s with
  | taken place =>
    dsimp only at h
    split at h
    · rename_i old hold
      split at h
      · have hnot : ¬DirectoryAt t place := by
          rintro ⟨mode, hmode⟩
          rw [hold] at hmode
          cases hmode
        have hfile : fileAt t place = some old := by rw [fileAt, hold]
        rw [placeOf, hfile, ← Except.ok.inj h, hold]
        refine ⟨.filed _ hnot fun hnone => ?_, ⟨t.changes, rfl⟩, .inr ⟨old, rfl⟩⟩
        rw [hold] at hnone
        cases hnone
      · cases h
    · cases h
  | free parent name =>
    have hnone := spot_free hspot
    rw [placeOf, fileAt_of_none hnone]
    exact ⟨edit_of_add hnone h, ⟨_, add_eq_set h⟩, .inl hnone⟩

lemma remove_edit (h : t.remove path now = .ok t') : ∃ s, t.spot false path = .ok s ∧
    Edit t (placeOf s) t' ∧ t' = (t.erase (placeOf s)).changed (placeOf s).dropLast now := by
  simp only [remove, bind_eq_ok] at h
  obtain ⟨s, hspot, h⟩ := h
  cases s with
  | taken place =>
    simp only [bind_eq_ok, pure_eq_ok] at h
    obtain ⟨_, hcheck, rfl⟩ := h
    exact ⟨_, hspot, .removed (not_directoryAt_of_replaceable hcheck), rfl⟩
  | free parent name => cases h

lemma setDirectoryMode_edit {mode : Nat} (h : t.setDirectoryMode path mode = .ok t') :
    ∃ place, t.place path = .ok place ∧ t' = t.set place (.directory mode) := by
  simp only [setDirectoryMode, bind_eq_ok, pure_eq_ok] at h
  obtain ⟨place, hplace, rfl⟩ := h
  exact ⟨place, hplace, rfl⟩

end Operations

/-! ### What edits keep -/

/-- Whatever stands in a tree stands in a directory. -/
def Rooted (t : FileTree) : Prop := ∀ place name, t.get? (place ++ [name]) ≠ none → DirectoryAt t place

section Kept

variable {t t' : FileTree} {q : Place}

lemma Edit.current (h : Edit t q t') : t'.current = t.current := by
  cases h with
  | made | filed | moded | removed => rfl

lemma Edit.get?_of_ne (h : Edit t q t') {place : Place} (hne : place ≠ q) : t'.get? place = t.get? place := by
  cases h with
  | made | filed | moded => rw [get?_dated, get?_set, if_neg fun hq => hne hq.1]
  | removed => rw [get?_dated, get?_erase_place, if_neg fun hq => hne hq.1]

lemma directoryAt_set (t : FileTree) (place : Place) (mode : Nat) :
    DirectoryAt (t.set place (.directory mode)) place := by
  by_cases hroot : place = []
  · exact ⟨rootMode, by rw [hroot]; rfl⟩
  · exact ⟨mode, by rw [get?_set, if_pos ⟨rfl, hroot⟩]⟩

/-- No edit takes a directory away. -/
lemma Edit.directoryAt (h : Edit t q t') {place : Place} (hdir : DirectoryAt t place) :
    DirectoryAt t' place := by
  by_cases hq : place = q
  · subst hq
    cases h with
    | made mode | moded mode => exact directoryAt_set t place mode
    | filed _ hnot | removed hnot => exact (hnot hdir).elim
  · obtain ⟨mode, hmode⟩ := hdir
    exact ⟨mode, (h.get?_of_ne hq).trans hmode⟩

lemma Edit.not_link (h : Edit t q t') (hlink : ∀ target, t.get? q ≠ some (.link target)) (target : String) :
    t'.get? q ≠ some (.link target) := by
  cases h with
  | made | filed | moded =>
    rw [get?_dated, get?_set]
    split
    · simp
    · exact hlink target
  | removed =>
    rw [get?_dated, get?_erase_place]
    split
    · simp
    · exact hlink target

lemma Edit.rooted (h : Edit t q t') (ht : Rooted t) : Rooted t' := by
  intro place name hthere
  apply h.directoryAt
  by_cases hq : place ++ [name] = q
  · subst hq
    have hparent : t.get? (place ++ [name]) = none ∨ DirectoryAt t place := by
      by_cases hnone : t.get? (place ++ [name]) = none
      · exact .inl hnone
      · exact .inr (ht place name hnone)
    rcases hparent with hnone | hdir
    · cases h with
      | made mode hparent => rwa [List.dropLast_concat] at hparent
      | filed f hnot hparent =>
        have hdir := hparent hnone
        rwa [List.dropLast_concat] at hdir
      | moded mode hsome => exact (hsome hnone).elim
      | removed =>
        rw [get?_dated, get?_erase_place, if_pos ⟨rfl, by simp⟩] at hthere
        exact (hthere rfl).elim
    · exact hdir
  · rw [h.get?_of_ne hq] at hthere
    exact ht place name hthere

end Kept

/-! ### Changes below a place -/

/-- The place is further down than another one. -/
def IsBelow (w q : Place) : Prop := ∃ names, names ≠ [] ∧ q = w ++ names

/-- One tree has come from another by changes below a place, which made no links and left directories
where they were. -/
structure Within (w : Place) (t t' : FileTree) : Prop where
  current : t'.current = t.current
  outside : ∀ q, ¬IsBelow w q → t'.get? q = t.get? q
  directories : ∀ q, DirectoryAt t q → DirectoryAt t' q
  links : ∀ q target, t'.get? q = some (.link target) ↔ t.get? q = some (.link target)

lemma within_refl (w : Place) (t : FileTree) : Within w t t :=
  ⟨rfl, fun _ _ => rfl, fun _ h => h, fun _ _ => .rfl⟩

lemma Within.trans {w : Place} {t t' t'' : FileTree} (h : Within w t t') (h' : Within w t' t'') :
    Within w t t'' :=
  ⟨h'.current.trans h.current, fun q hq => (h'.outside q hq).trans (h.outside q hq),
    fun q hq => h'.directories q (h.directories q hq), fun q target => (h'.links q target).trans (h.links q target)⟩

lemma Edit.within {t t' : FileTree} {w names : Place} (h : Edit t (w ++ names) t') (hne : names ≠ [])
    (hfree : LinkFree t w) : Within w t t' where
  current := h.current
  outside := by
    intro q hq
    apply h.get?_of_ne
    rintro rfl
    exact hq ⟨names, hne, rfl⟩
  directories := fun _ => h.directoryAt
  links := by
    intro q target
    by_cases hq : q = w ++ names
    · rw [hq]
      exact iff_of_false (h.not_link (hfree names) target) (hfree names target)
    · rw [h.get?_of_ne hq]

lemma Within.linkFree {w : Place} {t t' : FileTree} (h : Within w t t') {place : Place}
    (hfree : LinkFree t place) : LinkFree t' place :=
  fun names target hlink => hfree names target ((h.links _ _).mp hlink)

lemma Within.leadsTo {w : Place} {t t' : FileTree} (h : Within w t t') {path : String} {place : Place}
    (hleads : LeadsTo t path place) : LeadsTo t' path place := by
  have hdir := h.directories _ hleads.directory
  obtain ⟨mode, hmode⟩ := hdir
  have hstart : startOf t' path = startOf t path := by rw [startOf, startOf, h.current]
  refine ⟨?_, mode, hmode⟩
  rw [hstart]
  exact hleads.steps.mono h.directories (fun _ _ => (h.links _ _).mpr) ⟨_, hmode, by simp⟩

lemma Within.isClean {w : Place} {t t' : FileTree} (h : Within w t t') {path : String} {place : Place}
    (hclean : IsClean t path place) : IsClean t' path place :=
  ⟨h.leadsTo hclean.leads, h.linkFree hclean.linkFree⟩

/-! ### Directories that were made -/

section Made

variable {t t' : FileTree} {base target : String} {names : Place}

lemma rooted_makeDirectories (h : Rooted t) (path : String) (now : Instant) :
    Rooted (t.makeDirectories path now).1 := by
  refine makeDirectories_keeps ?_ h
  intro above _ made made' hmade hensure
  rcases ensureDirectory_cases hensure with ⟨rfl, _⟩ | ⟨_, _, _, hedit⟩
  · exact hmade
  · exact hedit.rooted hmade

/-- Where something new is made, paths lead on as before. -/
lemma Edit.leadsTo {q : Place} (h : Edit t q t') (hnone : t.get? q = none) {w : Place}
    (hleads : LeadsTo t base w) : LeadsTo t' base w := by
  obtain ⟨mode, hmode⟩ := h.directoryAt hleads.directory
  have hlinks : ∀ place target, t.get? place = some (.link target) →
      t'.get? place = some (.link target) := by
    intro place target hlink
    rw [h.get?_of_ne, hlink]
    rintro rfl
    rw [hnone] at hlink
    cases hlink
  have hstart : startOf t' base = startOf t base := by rw [startOf, startOf, h.current]
  refine ⟨?_, mode, hmode⟩
  rw [hstart]
  exact hleads.steps.mono (fun _ => h.directoryAt) hlinks ⟨_, hmode, by simp⟩

end Made

end CrossBuild.Proofs
