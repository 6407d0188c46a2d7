import CrossBuild.Proofs.DownloadEffect
import CrossBuild.Proofs.PlacedFiles
import CrossBuild.Proofs.StoredNames

/-!
# Files that are packed and unpacked

Files that can be read are packed in the order in which they are named, and an archive of them is unpacked
wherever there is room for them: each comes back at its path with its data, its time in whole seconds and
its permissions, and no other file is touched. Nothing is assumed of how the paths are written, so what any
selection gives is accepted on the other side.
-/

namespace CrossBuild.Proofs
open Archive FileTree

/-! ### Files that a path leads to -/

/-- A walk only comes by names that are not too long. -/
lemma sizes_of_walkLinks {t : FileTree} {followLast : Bool} {limit : Nat} {place : Place} {steps : List Step}
    {s : Spot} (h : walkLinks t followLast limit place steps = .ok s) {name : String} (hname : .into name ∈ steps) :
    name.utf8ByteSize ≤ longestName := by
  induction limit generalizing place steps with
  | zero => cases h
  | succ limit ihLimit =>
    induction steps generalizing place with
    | nil => cases hname
    | cons step rest ih =>
      obtain ⟨_, hstep⟩ := walksOn_of_walk h
      rw [List.mem_cons] at hname
      cases hstep with
      | here hwalk | up hwalk => exact ih hwalk (hname.resolve_left nofun)
      | free hsize | last hsize =>
        obtain rfl := Step.into.inj (hname.resolve_right List.not_mem_nil)
        exact hsize
      | link hsize _ _ hwalk =>
        rcases hname with heq | hrest
        · exact Step.into.inj heq ▸ hsize
        · exact ihLimit hwalk (List.mem_append_right _ hrest)
      | into hsize _ _ hwalk =>
        rcases hname with heq | hrest
        · exact Step.into.inj heq ▸ hsize
        · exact ih hwalk hrest

/-- What is known of a path that leads to a file. -/
structure NamesFile (t : FileTree) (path : String) (f : File) : Prop where
  file : t.file path = .ok f
  check : checkPath path = .ok ()
  ends : EndsActive path
  sizes : ∀ name ∈ namesOf path, name.utf8ByteSize ≤ longestName

section Sources

variable {t : FileTree} {path : String} {f : File}

lemma namesFile (h : t.file path = .ok f) : NamesFile t path f := by
  obtain ⟨q, hplace, hget⟩ := node_iff_place.mp (file_iff_node.mp h)
  obtain ⟨hcheck, hspot⟩ := spot_iff_walk.mp (place_iff_spot.mp hplace)
  refine ⟨h, hcheck, ?_, ?_⟩
  · unfold EndsActive
    rw [Bool.eq_false_iff]
    intro hidle
    have hsteps : FileTree.stepsOf path = (activePieces path).map stepOf ++ [.here] := by
      unfold FileTree.stepsOf
      exact if_pos hidle
    -- a path that asks for a directory leads to one
    rw [hsteps] at hspot
    obtain ⟨_, _, hback⟩ := (leads_of_walkLinks hspot).split
    cases hback with
    | here hdir hdone =>
      cases hdone
      obtain ⟨mode, hmode⟩ := hdir
      rw [hmode] at hget
      cases hget
  · intro name hname
    obtain ⟨piece, hpiece, rfl⟩ := List.mem_map.mp hname
    by_cases hup : piece = ['.', '.']
    · rw [hup]
      decide
    · refine sizes_of_walkLinks hspot (?_ : Step.into (String.ofList piece) ∈ _)
      have hstep : Step.into (String.ofList piece) ∈ (activePieces path).map stepOf := by
        rw [← stepOf_eq_into hup]
        exact List.mem_map_of_mem hpiece
      rcases stepsOf_eq path with hsteps | hsteps
      · rwa [hsteps]
      · rw [hsteps]
        exact List.mem_append_left _ hstep

end Sources

/-! ### Packing -/

/-- The entry that a file gets under a form of its path. -/
def entryFor (rest : String) (f : File) : Entry :=
  ⟨Path.join base rest, .file, f.data, some f.modified.seconds, some f.mode⟩

section Packing

variable {t : FileTree} {workspace path : String} {f : File}

lemma isStorable_entryFor {rest : String} (h : Shortens path rest) (hplain : Path.isPlain path = true)
    (hcheck : checkPath (Path.join workspace path) = .ok ()) (hpackable : IsPackable f) :
    IsStorable (entryFor rest f) := by
  obtain ⟨hzero, hlong⟩ := checkPath_join (isPlain_names hplain).1 hcheck
  refine isStorable_below (isPlain_names h.plain).1 ⟨fun hmem => hzero (h.text.subset hmem), ?_⟩ h.ends hpackable
  exact (utf8ByteSize_le h.text).trans hlong

/-- A file that can be read gets an entry. -/
lemma entryOf_of_read (hplain : Path.isPlain path = true) (hfile : NamesFile t (Path.join workspace path) f)
    (hread : t.read (Path.join workspace path) = .ok f.data) :
    ∃ rest, Shortens path rest ∧ entryOf t workspace path = .ok (entryFor rest f) := by
  have hends := endsActive_of_join (isPlain_names hplain).1 hfile.ends
  obtain ⟨rest, hrest, hstored⟩ := storedName_of_plain hplain hends (checkPath_join (isPlain_names hplain).1 hfile.check).1
  refine ⟨rest, hrest, ?_⟩
  simp only [entryOf, bind_eq_ok, mapError_eq_ok]
  refine ⟨.file f, file_iff_node.mp hfile.file, ?_⟩
  simp only [bind_eq_ok, mapError_eq_ok, pure_eq_ok]
  exact ⟨f.data, hread, _, hstored, rfl⟩

/-- The entry is that of the file at the path, whatever its form is. -/
def IsEntryOf (t : FileTree) (workspace path : String) (e : Entry) : Prop :=
  ∃ rest f, Shortens path rest ∧ NamesFile t (Path.join workspace path) f ∧ e = entryFor rest f

/-- Files that can be read can be packed, and they are what is read from the archive. -/
theorem pack_of_read {paths : List String} (hplain : ∀ path ∈ paths, Path.isPlain path = true)
    (hread : ∀ path ∈ paths, ∃ data, t.read (Path.join workspace path) = .ok data)
    (hpackable : ∀ path ∈ paths, ∀ f, t.file (Path.join workspace path) = .ok f → IsPackable f) :
    ∃ entries data, pack t workspace paths = .ok data ∧ decode data = ⟨entries, .complete⟩ ∧
      List.Forall₂ (IsEntryOf t workspace) paths entries := by
  have hentries : ∃ entries, paths.mapM (entryOf t workspace) = .ok entries ∧
      List.Forall₂ (IsEntryOf t workspace) paths entries ∧ ∀ e ∈ entries, IsStorable e := by
    simp only [mapM_eq_ok]
    induction paths with
    | nil => exact ⟨[], .nil, .nil, by simp⟩
    | cons path paths ih =>
      rw [List.forall_mem_cons] at hplain hread hpackable
      obtain ⟨entries, hmade, hall, hstorable⟩ := ih hplain.2 hread.2 hpackable.2
      obtain ⟨data, hdata⟩ := hread.1
      obtain ⟨f, hf, _, rfl⟩ := read_iff_file.mp hdata
      have hfile := namesFile hf
      obtain ⟨rest, hrest, hentry⟩ := entryOf_of_read hplain.1 hfile hdata
      refine ⟨entryFor rest f :: entries, .cons hentry hmade, .cons ⟨rest, f, hrest, hfile, rfl⟩ hall, ?_⟩
      refine List.forall_mem_cons.mpr ⟨?_, hstorable⟩
      exact isStorable_entryFor hrest hplain.1 hfile.check (hpackable.1 f hf)
  obtain ⟨entries, hmade, hall, hstorable⟩ := hentries
  refine ⟨entries, encode entries, ?_, decode_encode hstorable, hall⟩
  simp only [pack, entriesOf, bind_eq_ok, pure_eq_ok]
  exact ⟨entries, hmade, rfl⟩

end Packing

/-! ### Unpacking -/

/-- The entry puts a file at the names below a destination. -/
structure Puts (dest : String) (e : Entry) (names : Place) (f : File) : Prop where
  kind : e.kind = .file
  path : ∃ rest, relativePath e.path = .ok rest ∧ namesOf rest = names ∧ EndsActive rest ∧
    checkPath (Path.join dest rest) = .ok ()
  file : ∀ now, unpackedFile e now = f

section Unpacking

variable {σ : Type} {m : Machine σ} {above dest : String} {w front names : Place} {e : Entry} {f : File}

/-- The file comes where there is room for it. -/
lemma unpackEntry_filed (ht : Rooted m.files) (hopens : Opens m.files above w) (hdest : LiesBelow above front dest)
    (hputs : Puts dest e names f) (hroom : Admits m.files w (front ++ names)) :
    ∃ t', Gives (unpackEntry unpackedFile dest e) m 1 { m with files := t' } ∧
      Filed m.files t' (w ++ (front ++ names)) f ∧ Rooted t' := by
  obtain ⟨rest, hrest, rfl, hends, hcheck⟩ := hputs.path
  have hplain := relativePath_plain hrest
  have hne := namesOf_ne_nil hplain hends
  obtain ⟨made, t', hmade, hplaced, hfiled⟩ := placed_of_admits ht hopens (hdest.join hplain) (by simp [hne])
    (hends.join dest (isPlain_names hplain).1) hcheck hroom f
  have hparents : Gives (makeParents (Path.join dest rest)) m () { m with files := made } := by
    unfold makeParents
    split
    · rename_i parent hparent
      rw [hparent, Option.getD_some] at hmade
      exact gives_makeDirectories.mpr ⟨made, hmade, rfl⟩
    · rename_i hparent
      rw [hparent, Option.getD_none] at hmade
      cases hmade
      exact gives_pure.mpr ⟨rfl, rfl⟩
  have hempty : rest.isEmpty = false := by
    rw [← namesOf_isEmpty hplain]
    simpa using hne
  refine ⟨t', unpackEntry_gives hrest hempty hputs.kind hparents ?_, hfiled, ?_⟩
  · rwa [hputs.file]
  · obtain ⟨_, _, hedit, _⟩ := replace_edit hplaced
    have hrooted := rooted_makeDirectories ht ((Path.parent? (Path.join dest rest)).getD "") m.now
    rw [hmade] at hrooted
    exact hedit.rooted hrooted

/-- Files that do not stand in each other's way come one after another. -/
lemma unpackEntries_filed {entries : List Entry} {own : List (Place × File)}
    (hall : List.Forall₂ (fun e p => Puts dest e p.1 p.2) entries own)
    (hbeside : own.Pairwise fun a b => Beside a.1 b.1) {start : FileTree} (hopens : Opens start above w)
    (hdest : LiesBelow above front dest) (hroom : ∀ p ∈ own, p.1 ≠ [] ∧ Admits start w (front ++ p.1))
    (ht : Rooted m.files) {files : Place → Option File} (hm : FiledAs start m.files files)
    (hapart : ∀ p ∈ own, StandsApart files (w ++ (front ++ p.1))) :
    ∃ t' files', Gives (unpackEntries dest entries) m entries.length { m with files := t' } ∧
      FiledAs start t' files' ∧ Rooted t' ∧ (∀ p ∈ own, files' (w ++ (front ++ p.1)) = some p.2) ∧
      ∀ q, (∀ p ∈ own, q ≠ w ++ (front ++ p.1)) → files' q = files q := by
  induction hall generalizing m files with
  | nil => exact ⟨m.files, files, gives_pure.mpr ⟨rfl, rfl⟩, hm, ht, by simp, fun _ _ => rfl⟩
  | @cons e p entries own hputs hall ih =>
    rw [List.pairwise_cons] at hbeside
    rw [List.forall_mem_cons] at hroom hapart
    obtain ⟨⟨hne, hadmits⟩, hroom⟩ := hroom
    have hlater := hadmits.after (by simp [hne]) hm hapart.1
    obtain ⟨t₁, hfirst, hfiled, hrooted⟩ := unpackEntry_filed ht (hopens.mono hm.preserves) hdest hputs hlater
    -- the places of two files begin alike up to their names
    have hapart' : ∀ other ∈ own, StandsApart (Function.update files (w ++ (front ++ p.1)) (some p.2))
        (w ++ (front ++ other.1)) := by
      intro other hother
      refine (hapart.2 other hother).update ?_ p.2
      simp only [List.prefix_append_right_inj]
      exact hbeside.1 other hother
    obtain ⟨t', files', hrest, hdone, hrooted', hput, hkept⟩ := ih hbeside.2 hroom (m := { m with files := t₁ }) hrooted
      (hm.trans hfiled hapart.1) hapart'
    refine ⟨t', files', ?_, hdone, hrooted', List.forall_mem_cons.mpr ⟨?_, hput⟩, ?_⟩
    · refine gives_bind.mpr ⟨1, _, hfirst, gives_bind.mpr ⟨entries.length, _, hrest, gives_pure.mpr ⟨?_, rfl⟩⟩⟩
      rw [List.length_cons, Nat.add_comm]
    · rw [hkept, Function.update_self]
      intro other hother heq
      simp only [List.append_cancel_left_eq] at heq
      exact (hbeside.1 other hother).1 (heq ▸ List.prefix_rfl)
    · intro q hq
      rw [List.forall_mem_cons] at hq
      rw [hkept q hq.2, Function.update_of_ne hq.1]

end Unpacking

/-! ### There and back -/

/-- The file as an archive keeps it, with its time in whole seconds. -/
def wholeSeconds (f : File) : File := ⟨f.data, ⟨f.modified.seconds, 0⟩, f.mode⟩

section RoundTrip

variable {t : FileTree} {workspace path dest : String} {f : File}

lemma Shortens.checkPath {rest : String} (h : Shortens path rest) (hplain : Path.isPlain path = true)
    (hcheck : FileTree.checkPath (Path.join dest path) = .ok ()) :
    FileTree.checkPath (Path.join dest rest) = .ok () := by
  obtain ⟨hzero, hlong, _⟩ := checkPath_iff.mp hcheck
  rw [join_eq dest (isPlain_names hplain).1, String.toList_append, List.mem_append, not_or] at hzero
  rw [join_eq dest (isPlain_names hplain).1, String.utf8ByteSize_append] at hlong
  have hsize := utf8ByteSize_le h.text
  have hne : rest ≠ "" := by
    rintro rfl
    cases h.ends
  rw [join_eq dest (isPlain_names h.plain).1]
  refine checkPath_iff.mpr ⟨?_, ?_, by simp [hne]⟩
  · rw [String.toList_append, List.mem_append, not_or]
    exact ⟨hzero.1, fun hmem => hzero.2 (h.text.subset hmem)⟩
  · rw [String.utf8ByteSize_append]
    omega

lemma Puts.ofEntry {rest : String} (h : Shortens path rest) (hplain : Path.isPlain path = true)
    (hcheck : FileTree.checkPath (Path.join dest path) = .ok ()) (hdated : 1 ≤ f.modified.seconds) :
    Puts dest (entryFor rest f) (namesOf path) (wholeSeconds f) where
  kind := rfl
  path := ⟨rest, relativePath_stored h, h.names, h.ends, h.checkPath hplain hcheck⟩
  file := by
    intro now
    have hzero : (f.modified.seconds == 0) = false := by
      rw [beq_eq_false_iff_ne]
      omega
    simp [unpackedFile, entryFor, unpackedTime, hzero, wholeSeconds]

/-- What comes of the entries of packed files, one by one. -/
def ComesAs (t : FileTree) (workspace path : String) (p : Place × File) : Prop :=
  p.1 = namesOf path ∧ ∃ f, t.file (Path.join workspace path) = .ok f ∧ p.2 = wholeSeconds f

lemma puts_of_entries (dest : String) {paths : List String} {entries : List Entry}
    (hall : List.Forall₂ (IsEntryOf t workspace) paths entries)
    (hpaths : ∀ path ∈ paths, Path.isPlain path = true ∧ FileTree.checkPath (Path.join dest path) = .ok () ∧
      ∀ f, t.file (Path.join workspace path) = .ok f → 1 ≤ f.modified.seconds) :
    ∃ own, List.Forall₂ (fun e p => Puts dest e p.1 p.2) entries own ∧
      List.Forall₂ (ComesAs t workspace) paths own := by
  induction hall with
  | nil => exact ⟨[], .nil, .nil⟩
  | cons hentry hall ih =>
    rw [List.forall_mem_cons] at hpaths
    obtain ⟨⟨hplain, hcheck, hdated⟩, hpaths⟩ := hpaths
    obtain ⟨own, hputs, hcomes⟩ := ih hpaths
    obtain ⟨rest, f, hrest, hfile, rfl⟩ := hentry
    exact ⟨(_, _) :: own, .cons (.ofEntry hrest hplain hcheck (hdated f hfile.file)) hputs,
      .cons ⟨rfl, f, hfile.file, rfl⟩ hcomes⟩

lemma names_of_comesAs {paths : List String} {own : List (Place × File)}
    (h : List.Forall₂ (ComesAs t workspace) paths own) : paths.map namesOf = own.map (·.1) := by
  induction h with
  | nil => rfl
  | cons hfirst _ ih => rw [List.map_cons, List.map_cons, hfirst.1, ih]

lemma endsActive_of_read {data : ByteArray} (hplain : Path.isPlain path = true)
    (h : t.read (Path.join workspace path) = .ok data) : EndsActive path := by
  obtain ⟨f, hf, _⟩ := read_iff_file.mp h
  exact endsActive_of_join (isPlain_names hplain).1 (namesFile hf).ends

/-- Where files are only at the names of paths that are apart, these stand apart. -/
lemma AreApart.standsApart {paths : List String} (h : AreApart paths) {files : Place → Option File} {w front : Place}
    (hfiles : ∀ q, (∀ path ∈ paths, q ≠ w ++ (front ++ namesOf path)) → files q = none) (hpath : path ∈ paths) :
    StandsApart files (w ++ (front ++ namesOf path)) := by
  intro q g hq hbegins
  by_cases hown : ∃ other ∈ paths, q = w ++ (front ++ namesOf other)
  · obtain ⟨other, hother, rfl⟩ := hown
    by_contra hdiffer
    simp only [List.prefix_append_right_inj] at hbegins
    have hnot := h.beside_of_ne hother hpath (by rintro rfl; exact hdiffer rfl)
    exact hbegins.elim hnot.1 hnot.2
  · rw [hfiles q (by simpa using hown)] at hq
    cases hq

/-- A file that is put below a destination is found there by its path. -/
lemma FiledAs.file {start t' : FileTree} {files : Place → Option File} (hfiled : FiledAs start t' files)
    (hrooted : Rooted t') {above : String} {w front : Place} (hopens : Opens start above w)
    (hdest : LiesBelow above front dest) (hplain : Path.isPlain path = true) (hends : EndsActive path)
    (hcheck : FileTree.checkPath (Path.join dest path) = .ok ())
    (hroom : Admits start w (front ++ namesOf path)) (hapart : StandsApart files (w ++ (front ++ namesOf path)))
    (hput : files (w ++ (front ++ namesOf path)) = some f) : t'.file (Path.join dest path) = .ok f := by
  have hne : front ++ namesOf path ≠ [] := by simp [namesOf_ne_nil hplain hends]
  have hfound := hfiled.filed hput
  have hplace := (hroom.after hne hfiled hapart).place_eq hrooted (hopens.mono hfiled.preserves)
    (hdest.join hplain) hne (hends.join dest (isPlain_names hplain).1) hcheck hfound
  exact file_iff_node.mpr (node_iff_place.mpr ⟨_, hplace, hfound⟩)

/-- What is selected, can be read and finds room below a destination is there once it is packed and unpacked,
and no other file of the destination is changed. -/
theorem unpack_pack {σ : Type} (ht : IsSound t) {selection : UploadSelection}
    (hrelative : ∀ path, selection = .path path → Path.isAbsolute path = false) {paths : List String}
    (hselected : Handoff.selected t workspace selection = .ok paths)
    (hread : ∀ path ∈ paths, ∃ data, t.read (Path.join workspace path) = .ok data)
    (hfile : ∀ path ∈ paths, ∀ f, t.file (Path.join workspace path) = .ok f →
      IsPackable f ∧ 1 ≤ f.modified.seconds)
    {m : Machine σ} (hm : Rooted m.files) {above : String} {w front : Place} (hopens : Opens m.files above w)
    (hdest : LiesBelow above front dest) (hroom : ∀ path ∈ paths, Admits m.files w (front ++ namesOf path) ∧
      FileTree.checkPath (Path.join dest path) = .ok ()) :
    ∃ archive t', pack t workspace paths = .ok archive ∧
      Gives (unpack dest archive) m paths.length { m with files := t' } ∧
      (∀ path ∈ paths, ∀ f, t.file (Path.join workspace path) = .ok f →
        t'.file (Path.join dest path) = .ok (wholeSeconds f)) ∧
      (∀ q, (∀ path ∈ paths, q ≠ w ++ (front ++ namesOf path)) → fileAt t' q = fileAt m.files q) ∧
      Preserves m.files t' := by
  have hpaths := selected_areApart ht hrelative hselected
  have hplain := hpaths.plain
  obtain ⟨entries, archive, hpack, hdecode, hentries⟩ := pack_of_read hplain hread fun path hpath f hf =>
    (hfile path hpath f hf).1
  obtain ⟨own, hputs, hcomes⟩ := puts_of_entries dest hentries fun path hpath =>
    ⟨hplain path hpath, (hroom path hpath).2, fun f hf => (hfile path hpath f hf).2⟩
  have hends : ∀ path ∈ paths, EndsActive path := fun path hpath =>
    (hread path hpath).elim fun _ => endsActive_of_read (hplain path hpath)
  have hnames := names_of_comesAs hcomes
  have howned : ∀ p ∈ own, ∃ path ∈ paths, namesOf path = p.1 := by
    intro p hp
    exact List.mem_map.mp (hnames ▸ List.mem_map_of_mem hp)
  have hbesideOwn : own.Pairwise fun a b => Beside a.1 b.1 := by
    rw [← List.pairwise_map (R := Beside) (f := fun p : Place × File => p.1), ← hnames]
    exact List.pairwise_map.mpr hpaths.beside
  obtain ⟨t', files, hgives, hfiled, hrooted, hput, hkept⟩ := unpackEntries_filed hputs hbesideOwn hopens hdest
    (fun p hp => by
      obtain ⟨path, hpath, hname⟩ := howned p hp
      rw [← hname]
      exact ⟨namesOf_ne_nil (hplain path hpath) (hends path hpath), (hroom path hpath).1⟩)
    hm (filedAs_refl m.files) (by simp [StandsApart])
  have hnone : ∀ q, (∀ path ∈ paths, q ≠ w ++ (front ++ namesOf path)) → files q = none := by
    intro q hq
    refine hkept q fun p hp => ?_
    obtain ⟨path, hpath, hname⟩ := howned p hp
    rw [← hname]
    exact hq path hpath
  refine ⟨archive, t', hpack, ?_, ?_, ?_, hfiled.preserves⟩
  · rw [unpack, hdecode, hentries.length_eq]
    exact gives_unpackContents.mpr ⟨rfl, hgives⟩
  · intro path hpath f hf
    obtain ⟨p, hp, hname, g, hg, hfileOf⟩ := exists_of_forall₂ hcomes hpath
    obtain rfl : f = g := Except.ok.inj (hf.symm.trans hg)
    have hown := hput p hp
    rw [hname, hfileOf] at hown
    exact hfiled.file hrooted hopens hdest (hplain path hpath) (hends path hpath) (hroom path hpath).2
      (hroom path hpath).1 (hpaths.standsApart hnone hpath) hown
  · intro q hq
    rcases hfiled.get?_cases (hnone q hq) with hsame | ⟨hbefore, hafter⟩
    · rw [fileAt, fileAt, hsame]
    · rw [fileAt, fileAt, hbefore, hafter]

end RoundTrip

/-! ### A workspace with one file -/

def workFile (mode : Nat) : File := ⟨"made".toUTF8, ⟨101, 7⟩, mode⟩

/-- A workspace with one file, which has these permissions. -/
def workTree (mode : Nat) : FileTree := (sampleTree false none []).set ["w", "made"] (.file (workFile mode))

lemma get?_workTree {mode : Nat} {q : Place} {node : FileNode} (h : (workTree mode).get? q = some node) :
    q = [] ∨ q = ["w"] ∨ q = ["w", "made"] ∧ node = .file (workFile mode) := by
  rw [workTree, get?_set] at h
  split at h
  · rename_i hq
    cases h
    exact .inr (.inr ⟨hq.1, rfl⟩)
  · by_cases hq : q = []
    · exact .inl hq
    · exact .inr (.inl (eq_of_get?_sampleTree hq (by simp [h])))

lemma isSound_workTree (mode : Nat) : IsSound (workTree mode) := by
  refine ⟨?_, hasFileNames_iff.mpr ?_⟩
  · intro place name hthere
    obtain ⟨node, hnode⟩ := Option.ne_none_iff_exists'.mp hthere
    rcases get?_workTree hnode with hq | hq | ⟨hq, _⟩
    · simp at hq
    · obtain rfl : place = [] := by simpa using congrArg List.dropLast hq
      exact ⟨_, get?_root _⟩
    · obtain rfl : place = ["w"] := by simpa using congrArg List.dropLast hq
      exact ⟨0o755, by rfl⟩
  · intro q hthere
    obtain ⟨node, hnode⟩ := Option.ne_none_iff_exists'.mp hthere
    rcases get?_workTree hnode with rfl | rfl | ⟨rfl, _⟩ <;> decide

lemma selected_workTree {mode : Nat} (h : mode = 0 ∨ mode = 0o644) :
    Handoff.selected (workTree mode) "." .all = .ok ["made"] := by
  rcases h with rfl | rfl <;> decide +kernel

theorem unpack_pack_made : IsSound (workTree 0o644) ∧
    Handoff.selected (workTree 0o644) "." .all = .ok ["made"] ∧
    ∃ archive t', pack (workTree 0o644) "." ["made"] = .ok archive ∧
      Gives (unpack "." archive) (sampleMachine false none []) 1 { sampleMachine false none [] with files := t' } ∧
      t'.file (Path.join "." "made") = .ok ⟨"made".toUTF8, ⟨101, 0⟩, 0o644⟩ ∧
      ∀ q, q ≠ ["w", "made"] → fileAt t' q = fileAt (sampleTree false none []) q := by
  have hsound := isSound_workTree 0o644
  have hfile : (workTree 0o644).file (Path.join "." "made") = .ok (workFile 0o644) := by rfl
  have hopens : Opens (sampleTree false none []) "." ["w"] := opens_of_place (by rfl) (by rfl)
  have hroom : Admits (sampleTree false none []) ["w"] ["made"] := by
    refine ⟨by decide, fun before name hbefore => ?_, .inr (by rfl), .inl (by rfl)⟩
    simp at hbefore
  obtain ⟨archive, t', hpack, hgives, hfiles, hothers, _⟩ := unpack_pack (m := sampleMachine false none [])
    hsound (by simp) (selected_workTree (.inr rfl)) (by simp only [List.forall_mem_singleton]; exact ⟨_, by rfl⟩)
    (by
      simp only [List.forall_mem_singleton, hfile, Except.ok.injEq]
      rintro f rfl
      exact ⟨⟨by decide, by decide, by decide⟩, by decide⟩)
    rooted_sampleTree hopens (liesBelow_refl ".") (by simp only [List.forall_mem_singleton]; exact ⟨hroom, by rfl⟩)
  exact ⟨hsound, selected_workTree (.inr rfl), archive, t', hpack, hgives, hfiles "made" (by simp) _ hfile,
    fun q hq => hothers q (by simp only [List.forall_mem_singleton]; exact hq)⟩

/-- A file that cannot be read is selected all the same, and then nothing can be packed. -/
theorem unpack_pack_unreadable : IsSound (workTree 0) ∧
    (∀ q f, fileAt (workTree 0) q = some f → 1 ≤ f.modified.seconds) ∧
    Handoff.selected (workTree 0) "." .all = .ok ["made"] ∧
    ∀ archive, pack (workTree 0) "." ["made"] ≠ .ok archive := by
  refine ⟨isSound_workTree 0, ?_, selected_workTree (.inl rfl), ?_⟩
  · intro q f hf
    have hnode := get?_of_fileAt hf
    rcases get?_workTree hnode with rfl | rfl | ⟨_, hfile⟩
    · cases hnode
    · cases hnode
    · cases hfile
      decide
  · intro archive hpack
    have hdenied : pack (workTree 0) "." ["made"] = .error (.file .denied) := by rfl
    rw [hdenied] at hpack
    cases hpack

end CrossBuild.Proofs
