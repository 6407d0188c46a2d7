import CrossBuild.Proofs.ArchiveEntries
import CrossBuild.Proofs.WalkedFiles

/-!
# What an upload stores

An upload of what was modified since a marker stores an archive from which just the files below the
workspace come back that are later than the marker: each under its names, with its data, its time in whole
seconds and its permissions.
-/

namespace CrossBuild.Proofs
open Archive

/-! ### Bytes of texts -/

/-- A byte below 128 stands for its own character. -/
lemma eq_of_mem_utf8EncodeChar {c : Char} {b : UInt8} (h : b ∈ String.utf8EncodeChar c) (hb : b.toNat < 128) :
    c.toNat = b.toNat := by
  have hlow : ∀ n, b = UInt8.ofNat n → b.toNat = n % 256 ∧ n % 256 < 128 := by
    rintro n rfl
    rw [UInt8.toNat_ofNat'] at hb ⊢
    exact ⟨rfl, hb⟩
  unfold String.utf8EncodeChar at h
  dsimp only at h
  change c.val.toNat = b.toNat
  split at h
  · have hbyte := hlow _ (List.mem_singleton.mp h)
    omega
  · -- the bytes of all other characters are at least 128
    have hnot : ∀ n, 128 ≤ n % 256 → b ≠ UInt8.ofNat n := fun n hn heq => absurd (hlow n heq).2 (by omega)
    split at h
    · simp only [List.mem_cons, List.not_mem_nil, or_false] at h
      rcases h with h | h <;> exact (hnot _ (by omega) h).elim
    · split at h
      · simp only [List.mem_cons, List.not_mem_nil, or_false] at h
        rcases h with h | h | h <;> exact (hnot _ (by omega) h).elim
      · simp only [List.mem_cons, List.not_mem_nil, or_false] at h
        rcases h with h | h | h | h <;> exact (hnot _ (by omega) h).elim

lemma toUTF8_toList (text : String) : text.toUTF8.toList = text.toList.flatMap String.utf8EncodeChar := by
  have hbytes : text.toUTF8 = (String.ofList text.toList).toByteArray := by rw [String.ofList_toList]; rfl
  rw [hbytes, toList_eq, String.toByteArray_ofList, List.utf8Encode, List.toList_data_toByteArray]

/-- Only the character of code zero is written as a zero byte. -/
lemma ne_zero_of_mem_toUTF8 {text : String} (h : '\x00' ∉ text.toList) : ∀ b ∈ text.toUTF8.toList, b ≠ 0 := by
  rintro b hb rfl
  rw [toUTF8_toList] at hb
  obtain ⟨c, hc, hb⟩ := List.mem_flatMap.mp hb
  have hcode := eq_of_mem_utf8EncodeChar hb (by decide)
  obtain rfl : c = '\x00' := Char.toNat_inj.mp hcode
  exact h hc

lemma getLast?_toUTF8 {text : String} (h : text.toList.getLast? ≠ some '/') :
    text.toUTF8.toList.getLast? ≠ some 47 := by
  intro hlast
  rw [toUTF8_toList] at hlast
  rcases List.eq_nil_or_concat text.toList with hnil | ⟨front, c, hchars⟩
  · rw [hnil] at hlast
    cases hlast
  · have hne : String.utf8EncodeChar c ≠ [] := by
      rw [← List.length_pos_iff, String.length_utf8EncodeChar]
      exact c.utf8Size_pos
    rw [hchars, List.concat_eq_append, List.flatMap_append, List.flatMap_singleton,
      List.getLast?_append_of_ne_nil _ hne] at hlast
    have hcode := eq_of_mem_utf8EncodeChar (List.mem_of_getLast? hlast) (by decide)
    obtain rfl : c = '/' := Char.toNat_inj.mp hcode
    exact h (by simp [hchars])

lemma length_toUTF8 (text : String) : text.toUTF8.toList.length = text.utf8ByteSize := by
  rw [toList_eq]
  rfl

/-! ### Entries -/

/-- The entry for a file. -/
def fileEntry (names : Place) (f : File) : Entry :=
  ⟨pathOfNames (base :: names), .file, f.data, some f.modified.seconds, some f.mode⟩

/-- The file comes back from an archive as it is, but for parts of seconds. -/
structure IsPackable (f : File) : Prop where
  sized : f.data.size + blockSize ≤ 2 ^ 64
  permissions : f.mode < 512
  dated : 0 ≤ f.modified.seconds ∧ f.modified.seconds < 2 ^ 63

/-- What can be asked for below a workspace has no zeros in it and is not too long. -/
lemma checkPath_join {workspace path : String} (hrelative : Path.isAbsolute path = false)
    (h : FileTree.checkPath (Path.join workspace path) = .ok ()) :
    '\x00' ∉ path.toList ∧ path.utf8ByteSize ≤ FileTree.longestPath := by
  obtain ⟨hzero, hlong, _⟩ := checkPath_iff.mp h
  rw [join_eq workspace hrelative, String.toList_append, List.mem_append, not_or] at hzero
  rw [join_eq workspace hrelative, String.utf8ByteSize_append] at hlong
  exact ⟨hzero.2, by omega⟩

/-- A file can be stored below the base of an archive at each path that can be asked for and is not one of a
directory by its form. -/
lemma isStorable_below {path : String} {f : File} (hrelative : Path.isAbsolute path = false)
    (hcheck : '\x00' ∉ path.toList ∧ path.utf8ByteSize ≤ FileTree.longestPath) (hends : EndsActive path)
    (hpackable : IsPackable f) :
    IsStorable ⟨Path.join base path, .file, f.data, some f.modified.seconds, some f.mode⟩ := by
  obtain ⟨hzero, hlong⟩ := hcheck
  constructor
  case nonzero =>
    apply ne_zero_of_mem_toUTF8
    have hbase : '\x00' ∉ (base ++ "/").toList := by decide
    rw [base_join hrelative, String.toList_append, List.mem_append, not_or]
    exact ⟨hbase, hzero⟩
  case short =>
    have hbase : (base ++ "/").utf8ByteSize = 10 := by decide
    rw [base_join hrelative, length_toUTF8, String.utf8ByteSize_append, hbase, blockSize]
    rw [FileTree.longestPath] at hlong
    omega
  case kind => exact .inr ⟨rfl, getLast?_toUTF8 (hends.join base hrelative).last_ne⟩
  case sized => exact hpackable.sized
  case permissions => exact ⟨f.mode, hpackable.permissions, rfl⟩
  case dated =>
    refine ⟨_, rfl, ?_, hpackable.dated.2⟩
    have hpos := hpackable.dated.1
    omega

section Entries

variable {t : FileTree} {workspace : String} {w names : Place} {f : File}
  (hnames : ∀ name ∈ names, IsFileName name) (hne : names ≠ [])

include hnames hne

/-- The entry for a file that can be read says what the file is, and the path is one that can be asked for. -/
lemma entryOf_file (ht : Rooted t) (hw : t.place workspace = .ok w) (hf : fileAt t (w ++ names) = some f)
    {e : Entry} (h : entryOf t workspace (pathOfNames names) = .ok e) :
    e = fileEntry names f ∧ FileTree.checkPath (Path.join workspace (pathOfNames names)) = .ok () := by
  simp only [entryOf, bind_eq_ok, mapError_eq_ok] at h
  obtain ⟨node, hnode, h⟩ := h
  obtain ⟨q, hplace, hget⟩ := node_iff_place.mp hnode
  obtain ⟨hcheck, _⟩ := spot_iff_walk.mp (place_iff_spot.mp hplace)
  rw [place_join ht hw hnames hne hf hplace, get?_of_fileAt hf] at hget
  obtain rfl : FileNode.file f = node := Option.some.inj hget
  simp only [bind_eq_ok, mapError_eq_ok, pure_eq_ok] at h
  obtain ⟨data, hdata, stored, hstored, rfl⟩ := h
  have hread : f.data = data := by
    obtain ⟨found, hfound, _, rfl⟩ := read_iff_file.mp hdata
    cases hnode.symm.trans (file_iff_node.mp hfound)
    rfl
  rw [storedName_eq hnames hne hstored, ← hread]
  exact ⟨rfl, hcheck⟩

lemma isStorable_fileEntry (hcheck : FileTree.checkPath (Path.join workspace (pathOfNames names)) = .ok ())
    (hpackable : IsPackable f) : IsStorable (fileEntry names f) := by
  have hrelative : Path.isAbsolute (pathOfNames names) = false :=
    isAbsolute_of_lead (by rw [cut_pathOfNames hnames hne])
  rw [fileEntry, ← base_join_names hnames hne]
  exact isStorable_below hrelative (checkPath_join hrelative hcheck) (endsActive_pathOfNames hnames hne) hpackable

end Entries

/-! ### Files that are later than a marker -/

/-- What a walk comes by, if it is a file later than a time and not below a name that is passed over. -/
def laterFile? (time : Instant) : Place × FileNode → Option (Place × File)
  | (names, .file f) =>
    if !names.head?.any Handoff.ignoredNames.contains && f.modified.isAfter time then some (names, f) else none
  | _ => none

/-- The files below a place that are later than a time, but for those that are passed over. -/
def filesSince (t : FileTree) (w : Place) (time : Instant) : List (Place × File) :=
  (t.below w).filterMap (laterFile? time)

section Since

variable {t : FileTree} {w : Place} {time : Instant}

lemma filesSince_eq (t : FileTree) (w : Place) (time : Instant) :
    filesSince t w time = (walkedFiles t w).filter fun own => own.2.modified.isAfter time := by
  rw [filesSince, walkedFiles, List.filterMap_filter, List.filter_filterMap]
  refine List.filterMap_congr fun x _ => ?_
  obtain ⟨names, node⟩ := x
  cases node with
  | directory | link => simp [laterFile?, walkedFile?]
  | file f =>
    cases hhead : names.head?.any Handoff.ignoredNames.contains with
    | false => simp [laterFile?, walkedFile?, hhead, Option.filter]
    | true => simp [laterFile?, hhead]

lemma mem_filesSince {names : Place} {f : File} : (names, f) ∈ filesSince t w time ↔
    names ≠ [] ∧ (∀ name, names.head? = some name → name ∉ Handoff.ignoredNames) ∧
      fileAt t (w ++ names) = some f ∧ f.modified.isAfter time = true := by
  rw [filesSince_eq, List.mem_filter, mem_walkedFiles]
  constructor
  · rintro ⟨⟨hkept, hf⟩, hlater⟩
    exact ⟨hkept.nonempty, hkept.first, hf, hlater⟩
  · rintro ⟨hne, hnot, hf, hlater⟩
    exact ⟨⟨⟨hne, hnot⟩, hf⟩, hlater⟩

lemma nodup_filesSince (t : FileTree) (w : Place) (time : Instant) : ((filesSince t w time).map (·.1)).Nodup := by
  rw [filesSince_eq]
  exact (nodup_walkedFiles t w).sublist (List.filter_sublist.map _)

end Since

/-- What is selected as later than the marker of a workspace are these files, named from the workspace on. -/
lemma selected_modifiedSince {t : FileTree} (ht : IsSound t) {workspace : String} {w : Place}
    (hw : t.place workspace = .ok w) {paths : List String}
    (h : Handoff.selected t workspace (.modifiedSince Handoff.startMarker) = .ok paths) :
    ∃ time, Handoff.markerTime t (Path.join workspace Handoff.startMarker) = .ok time ∧
      paths = (filesSince t w time).map fun own => pathOfNames own.1 := by
  cases htime : Handoff.markerTime t (Path.join workspace Handoff.startMarker) with
  | error error =>
    simp only [Handoff.selected, Handoff.modifiedSince, htime, bind_eq_ok] at h
    obtain ⟨_, h, _⟩ := h
    cases h
  | ok time =>
    obtain ⟨_, _, rfl⟩ := (selected_since hw ht htime).mp h
    exact ⟨time, rfl, by rw [filesSince_eq]⟩

/-! ### Uploads -/

/-- An upload gives a report just if what is selected can be packed and the store takes it. -/
lemma gives_upload {σ : Type} {store : Store σ} {request : UploadRequest} {m m' : Machine σ} {report : UploadReport} :
    Gives (Handoff.upload store request) m report m' ↔ ∃ paths data expiry,
      Handoff.selected m.files request.workspace request.selection = .ok paths ∧
      pack m.files request.workspace paths = .ok data ∧
      Gives (store.put request.key.text data request.tag) m expiry m' ∧
      ⟨request.key.text, paths.length, data.size, Digest.sha256 data, expiry⟩ = report := by
  simp only [Handoff.upload, gives_bind, gives_get, gives_ofExcept, gives_widen, gives_pure]
  constructor
  · rintro ⟨_, _, ⟨rfl, rfl⟩, paths, _, ⟨hpaths, rfl⟩, data, _, ⟨hdata, rfl⟩, expiry, _, hput, hreport, rfl⟩
    exact ⟨paths, data, expiry, hpaths, hdata, hput, hreport⟩
  · rintro ⟨paths, data, expiry, hpaths, hdata, hput, hreport⟩
    exact ⟨_, _, ⟨rfl, rfl⟩, paths, _, ⟨hpaths, rfl⟩, data, _, ⟨hdata, rfl⟩, expiry, m', hput, hreport, rfl⟩

lemma upload_run {σ : Type} {store : Store σ} {request : UploadRequest} {m m' : Machine σ} {report : UploadReport}
    (h : Gives (Handoff.upload store request) m report m') : ∃ paths data expiry,
      Handoff.selected m.files request.workspace request.selection = .ok paths ∧
      pack m.files request.workspace paths = .ok data ∧
      Gives (store.put request.key.text data request.tag) m expiry m' := by
  obtain ⟨paths, data, expiry, hpaths, hdata, hput, _⟩ := gives_upload.mp h
  exact ⟨paths, data, expiry, hpaths, hdata, hput⟩

lemma upload_gives {σ : Type} {store : Store σ} {request : UploadRequest} {m m' : Machine σ} {paths : List String}
    {data : ByteArray} {expiry : Option Instant}
    (hpaths : Handoff.selected m.files request.workspace request.selection = .ok paths)
    (hdata : pack m.files request.workspace paths = .ok data)
    (hput : Gives (store.put request.key.text data request.tag) m expiry m') :
    ∃ report, Gives (Handoff.upload store request) m report m' :=
  ⟨_, gives_upload.mpr ⟨paths, data, expiry, hpaths, hdata, hput, rfl⟩⟩

/-- What is packed of files below a workspace comes back as an entry for each of them. -/
lemma decode_pack {t : FileTree} (ht : IsSound t) {workspace : String} {w : Place} (hw : t.place workspace = .ok w)
    {own : List (Place × File)} (hown : ∀ p ∈ own, p.1 ≠ [] ∧ fileAt t (w ++ p.1) = some p.2 ∧ IsPackable p.2)
    {data : ByteArray} (h : pack t workspace (own.map fun p => pathOfNames p.1) = .ok data) :
    decode data = ⟨own.map fun p => fileEntry p.1 p.2, .complete⟩ := by
  simp only [pack, entriesOf, bind_eq_ok, pure_eq_ok] at h
  obtain ⟨entries, hentries, rfl⟩ := h
  have hall := mapM_eq_ok.mp hentries
  clear hentries
  have hpacked : entries = (own.map fun p => fileEntry p.1 p.2) ∧ ∀ e ∈ entries, IsStorable e := by
    induction own generalizing entries with
    | nil =>
      cases hall
      exact ⟨rfl, by simp⟩
    | cons p rest ih =>
      rw [List.forall_mem_cons] at hown
      obtain ⟨⟨hne, hf, hpackable⟩, hrest⟩ := hown
      have hnames : ∀ name ∈ p.1, IsFileName name := by
        intro name hname
        have hget := get?_of_fileAt hf
        exact hasFileNames_iff.mp ht.named _ (by simp [hget]) name (List.mem_append_right w hname)
      cases hall with
      | cons hfirst hothers =>
        obtain ⟨rfl, hstorable⟩ := ih hrest _ hothers
        obtain ⟨rfl, hcheck⟩ := entryOf_file hnames hne ht.rooted hw hf hfirst
        exact ⟨rfl, List.forall_mem_cons.mpr ⟨isStorable_fileEntry hnames hne hcheck hpackable, hstorable⟩⟩
  rw [decode_encode hpacked.2, hpacked.1]

/-- What an upload of all that is later than the marker puts into the store. -/
theorem upload_modifiedSince {σ : Type} {store : Store σ} {request : UploadRequest} {m m' : Machine σ}
    {report : UploadReport} (hselection : request.selection = .modifiedSince Handoff.startMarker)
    (ht : IsSound m.files) {w : Place} (hw : m.files.place request.workspace = .ok w)
    (h : Gives (Handoff.upload store request) m report m') : ∃ time data expiry,
      Handoff.markerTime m.files (Path.join request.workspace Handoff.startMarker) = .ok time ∧
      Gives (store.put request.key.text data request.tag) m expiry m' ∧
      ((∀ own ∈ filesSince m.files w time, IsPackable own.2) →
        decode data = ⟨(filesSince m.files w time).map fun own => fileEntry own.1 own.2, .complete⟩) := by
  obtain ⟨paths, data, expiry, hpaths, hdata, hput⟩ := upload_run h
  rw [hselection] at hpaths
  obtain ⟨time, hmarker, rfl⟩ := selected_modifiedSince ht hw hpaths
  refine ⟨time, data, expiry, hmarker, hput, fun hpackable => decode_pack ht hw ?_ hdata⟩
  rintro ⟨names, f⟩ hown
  obtain ⟨hne, _, hf, _⟩ := mem_filesSince.mp hown
  exact ⟨hne, hf, hpackable _ hown⟩

end CrossBuild.Proofs
