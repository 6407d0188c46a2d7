import CrossBuild.Proofs.KeyTexts
import CrossBuild.Proofs.PlacedFiles
import CrossBuild.Proofs.WorkspacePaths
import CrossBuild.Store.Directory

/-!
# Keys as paths

A store in a directory takes every key that is a path of plain names. Of two such keys one can be a directory
on the way to the other one, and then there is no room for both. The records are in files with an ending after
the key, so the keys that are in each other's way among the records are not those among the bundles.

The key of a bundle is a path of three names, with an ending as well. Paths of three names are one as deep as
the other, so none of them leads through the end of another one, and the names tell which key they are from.
-/

namespace CrossBuild.Proofs
open FileTree Directory

/-! ### Keys that pass the check -/

/-- A key that passes the check of a store is a path of names. -/
lemma usableKey_names {key : String} (h : isUsableKey key = true) :
    ∃ names, names ≠ [] ∧ (∀ name ∈ names, IsFileName name) ∧ key = pathOfNames names := by
  obtain ⟨hne, hfree, hjoin⟩ := splitAt_eq_iff.mp (rfl : Text.splitAt '/' key = _)
  refine ⟨_, hne, fun name hname => ?_, hjoin.symm⟩
  have hname' := List.all_eq_true.mp h name hname
  simp only [bne_iff_ne, ne_eq, Bool.and_eq_true, and_assoc] at hname'
  exact ⟨hname'.1, hfree name hname, hname'.2.1, hname'.2.2⟩

lemma splitAt_pathOfNames {names : Place} (hnames : ∀ name ∈ names, IsFileName name) (hne : names ≠ []) :
    Text.splitAt '/' (pathOfNames names) = names :=
  splitAt_join hne fun name hname => (hnames name hname).slashless

lemma isUsableKey_pathOfNames {names : Place} (hnames : ∀ name ∈ names, IsFileName name) (hne : names ≠ []) :
    isUsableKey (pathOfNames names) = true := by
  rw [isUsableKey, splitAt_pathOfNames hnames hne, List.all_eq_true]
  intro name hname
  obtain ⟨hempty, _, hhere, hup⟩ := hnames name hname
  simp [hempty, hhere, hup]

/-- The key is a path of names. It goes on from a directory, and it asks for no directory by its form. -/
structure IsKeyPath (base key : String) : Prop where
  names : ∀ name ∈ namesOf key, IsFileName name
  ne_nil : namesOf key ≠ []
  text : pathOfNames (namesOf key) = key
  below : LiesBelow base (namesOf key) (Path.join base key)
  ends : EndsActive (Path.join base key)

section Paths

variable {names names' : Place} {base base' key key' : String}

lemma isKeyPath_pathOfNames (base : String) (hnames : ∀ name ∈ names, IsFileName name) (hne : names ≠ []) :
    IsKeyPath base (pathOfNames names) := by
  have hback := namesOf_pathOfNames hnames hne
  have hplain := isPlain_pathOfNames hnames hne
  have hbelow := (liesBelow_refl base).join hplain
  rw [List.nil_append] at hbelow
  refine ⟨by rwa [hback], by rwa [hback], by rw [hback], hbelow, ?_⟩
  exact (endsActive_pathOfNames hnames hne).join base (isPlain_names hplain).1

lemma isKeyPath_of_usable (base : String) (h : isUsableKey key = true) : IsKeyPath base key := by
  obtain ⟨names, hne, hnames, rfl⟩ := usableKey_names h
  exact isKeyPath_pathOfNames base hnames hne

lemma pathOfNames_ending (front : Place) (last ending : String) :
    pathOfNames (front ++ [last]) ++ ending = pathOfNames (front ++ [last ++ ending]) := by
  by_cases hfront : front = []
  · rw [hfront]
    rfl
  · have hjoin : ∀ name, pathOfNames (front ++ [name]) = pathOfNames front ++ "/" ++ name := fun name =>
      join_append "/" hfront (List.cons_ne_nil name [])
    rw [hjoin, hjoin, String.append_assoc]

/-- What comes after a key goes to its last name. -/
lemma exists_names_ending (base : String) {ending : String} (h : isUsableKey key = true) (hending : '/' ∉ ending.toList) :
    ∃ front last, namesOf key = front ++ [last] ∧ namesOf (key ++ ending) = front ++ [last ++ ending] ∧
      IsKeyPath base (key ++ ending) := by
  have hkey := isKeyPath_of_usable base h
  obtain ⟨front, last, hnames⟩ := (List.eq_nil_or_concat' (namesOf key)).resolve_left hkey.ne_nil
  have hall := hkey.names
  rw [hnames] at hall
  have hall' : ∀ name ∈ front ++ [last ++ ending], IsFileName name := by
    intro name hname
    rcases List.mem_append.mp hname with hname | hname
    · exact hall name (List.mem_append_left _ hname)
    · rw [List.mem_singleton.mp hname]
      exact (hall last (by simp)).append hending
  have htext : key ++ ending = pathOfNames (front ++ [last ++ ending]) := by
    rw [← pathOfNames_ending, ← hnames, hkey.text]
  refine ⟨front, last, hnames, ?_, ?_⟩
  · rw [htext]
    exact namesOf_pathOfNames hall' (by simp)
  · rw [htext]
    exact isKeyPath_pathOfNames base hall' (by simp)

lemma IsKeyPath.splitAt_eq (h : IsKeyPath base key) : Text.splitAt '/' key = namesOf key := by
  have hsplit := splitAt_pathOfNames h.names h.ne_nil
  rwa [h.text] at hsplit

lemma IsKeyPath.names_inj (h : IsKeyPath base key) (h' : IsKeyPath base' key') :
    namesOf key = namesOf key' ↔ key = key' := by
  constructor
  · intro hnames
    rw [← h.text, hnames, h'.text]
  · rintro rfl
    rfl

end Paths

/-! ### Keys that can be stored -/

/-- The key passes the check of the store, and its names are short enough for files. -/
structure IsStorableKey (d : Directory) (key : String) : Prop where
  usable : isUsableKey key = true
  sizes : ∀ name ∈ namesOf (key ++ ".json"), name.utf8ByteSize ≤ longestName
  object : checkPath (d.objectPath key) = .ok ()
  record : checkPath (d.recordPath key) = .ok ()

section Storable

variable {d : Directory} {key : String}

lemma isKeyPath_object (d : Directory) (h : isUsableKey key = true) : IsKeyPath d.objectsDir key :=
  isKeyPath_of_usable _ h

lemma isKeyPath_record (d : Directory) (h : isUsableKey key = true) : IsKeyPath d.recordsDir (key ++ ".json") := by
  obtain ⟨_, _, _, _, hpath⟩ := exists_names_ending d.recordsDir h (show '/' ∉ ".json".toList by decide)
  exact hpath

lemma IsStorableKey.objectSizes (h : IsStorableKey d key) : ∀ name ∈ namesOf key, name.utf8ByteSize ≤ longestName := by
  obtain ⟨front, last, hnames, hending, _⟩ :=
    exists_names_ending d.recordsDir h.usable (show '/' ∉ ".json".toList by decide)
  have hsizes := h.sizes
  rw [hending] at hsizes
  rw [hnames]
  intro name hname
  rcases List.mem_append.mp hname with hname | hname
  · exact hsizes name (List.mem_append_left _ hname)
  · have hlast := hsizes (last ++ ".json") (by simp)
    rw [String.utf8ByteSize_append] at hlast
    rw [List.mem_singleton.mp hname]
    omega

end Storable

/-! ### Keys in each other's way -/

/-- One key is a directory on the way to the other one. -/
def InTheWay (key key' : String) : Prop :=
  (∃ rest, key' = key ++ "/" ++ rest) ∨ ∃ rest, key = key' ++ "/" ++ rest

section Ways

variable {base base' key key' : String}

lemma leads_through_iff (h : IsKeyPath base key) (h' : IsKeyPath base' key') :
    (∃ rest, key' = key ++ "/" ++ rest) ↔ namesOf key <+: namesOf key' ∧ namesOf key ≠ namesOf key' := by
  constructor
  · rintro ⟨rest, hrest⟩
    have hsplit := splitAt_append '/' key rest
    change Text.splitAt '/' (key ++ "/" ++ rest) = _ at hsplit
    rw [← hrest, h.splitAt_eq, h'.splitAt_eq] at hsplit
    rw [hsplit]
    exact ⟨List.prefix_append _ _, by simp [splitAt_ne_nil]⟩
  · rintro ⟨⟨more, hmore⟩, hne⟩
    have hnil : more ≠ [] := by
      rintro rfl
      exact hne (by rw [← hmore, List.append_nil])
    refine ⟨pathOfNames more, ?_⟩
    have hjoin : pathOfNames (namesOf key ++ more) = pathOfNames (namesOf key) ++ "/" ++ pathOfNames more :=
      join_append "/" h.ne_nil hnil
    rw [hmore, h.text, h'.text] at hjoin
    exact hjoin

lemma inTheWay_iff (h : IsKeyPath base key) (h' : IsKeyPath base' key') : InTheWay key key' ↔
    (namesOf key <+: namesOf key' ∨ namesOf key' <+: namesOf key) ∧ namesOf key ≠ namesOf key' := by
  rw [InTheWay, leads_through_iff h h', leads_through_iff h' h, or_and_right, ne_comm]

end Ways

/-! ### The keys of bundles -/

/-- The names of a bundle's key, with something after the last one. -/
def keyNames (k : BundleKey) (ending : String) : Place :=
  [k.pipelineId, k.stage ++ (if k.failed then BundleKey.failedSuffix else ""), k.job ++ BundleKey.extension ++ ending]

lemma text_append (k : BundleKey) (ending : String) : k.text ++ ending = pathOfNames (keyNames k ending) := by
  simp only [BundleKey.text, pathOfNames, keyNames, Text.join, String.append_assoc]

lemma IsAccepted.keyNames {k : BundleKey} (hk : IsAccepted k) (ending : String) (hending : '/' ∉ ending.toList) :
    ∀ name ∈ keyNames k ending, IsFileName name := by
  obtain ⟨hid, hstage, hjob⟩ := isAccepted_iff.mp hk
  have hsuffix : '/' ∉ (if k.failed then BundleKey.failedSuffix else "").toList := by
    split <;> decide
  simp only [Proofs.keyNames, List.forall_mem_cons, List.not_mem_nil, false_imp_iff, implies_true, and_true]
  exact ⟨hid, hstage.append hsuffix, (hjob.append (by decide)).append hending⟩

/-- The key is that of a bundle, and its names are short enough for files. -/
structure FitsDirectory (d : Directory) (key : String) : Prop where
  accepted : ∃ k, IsAccepted k ∧ k.text = key
  sizes : ∀ name ∈ namesOf (key ++ ".json"), name.utf8ByteSize ≤ longestName
  object : checkPath (d.objectPath key) = .ok ()
  record : checkPath (d.recordPath key) = .ok ()

/-- The path goes on from a directory by three names, and asks for no directory by its form. -/
structure IsFilePath (base key : String) : Prop where
  plain : Path.isPlain key = true
  three : (namesOf key).length = 3
  text : pathOfNames (namesOf key) = key
  ends : EndsActive (Path.join base key)

lemma IsFilePath.ne_nil {base key : String} (h : IsFilePath base key) : namesOf key ≠ [] := by
  rw [← List.length_pos_iff, h.three]
  decide

lemma IsFilePath.liesBelow {base key : String} (h : IsFilePath base key) :
    LiesBelow base (namesOf key) (Path.join base key) := by
  have hbelow := (liesBelow_refl base).join h.plain
  rwa [List.nil_append] at hbelow

lemma isFilePath_text {k : BundleKey} (hk : IsAccepted k) (base ending : String)
    (hending : '/' ∉ ending.toList) : IsFilePath base (k.text ++ ending) := by
  have hnames := hk.keyNames ending hending
  have hne : keyNames k ending ≠ [] := by simp [keyNames]
  have hpath := isKeyPath_pathOfNames base hnames hne
  rw [text_append]
  exact ⟨isPlain_pathOfNames hnames hne, by rw [namesOf_pathOfNames hnames hne]; rfl, hpath.text, hpath.ends⟩

section Fits

variable {d : Directory} {key : String} (h : FitsDirectory d key)

include h

lemma FitsDirectory.isObject : IsFilePath d.objectsDir key := by
  obtain ⟨k, hk, rfl⟩ := h.accepted
  have hpath := isFilePath_text hk d.objectsDir "" (by decide)
  rwa [String.append_empty] at hpath

lemma FitsDirectory.isRecord : IsFilePath d.recordsDir (key ++ ".json") := by
  obtain ⟨k, hk, rfl⟩ := h.accepted
  exact isFilePath_text hk d.recordsDir ".json" (by decide)

/-- The key passes the check of the store. -/
lemma FitsDirectory.usable : isUsableKey key = true := by
  obtain ⟨k, hk, rfl⟩ := h.accepted
  have htext := text_append k ""
  rw [String.append_empty] at htext
  rw [htext]
  exact isUsableKey_pathOfNames (hk.keyNames "" (by decide)) (by simp [keyNames])

lemma FitsDirectory.storable : IsStorableKey d key := ⟨h.usable, h.sizes, h.object, h.record⟩

end Fits

end CrossBuild.Proofs
