import CrossBuild.Proofs.HeaderNumbers
import CrossBuild.Proofs.RecordTexts
import CrossBuild.Proofs.SelectedPaths
import CrossBuild.Proofs.StoredKeys
import CrossBuild.Proofs.SurveyedTree

/-!
# What a directory keeps of the bundles

A store in a directory begins with two empty directories. Each bundle that is put adds a file for its data
below the one, and a file for its record below the other; a bundle with the same key replaces both. No file
stands in the way of another one, so there is always room for the next, and at all times the files below the
two directories are those of the bundles that were put last under their keys.
-/

namespace CrossBuild.Proofs
open FileTree Directory

variable {σ : Type}

/-- Bundles by key: what was put last, with its tag. -/
abbrev KeptBundles := SortedMap String (ByteArray × Option BundleTag)

/-- The directories of a store, with nothing below them. -/
structure IsEmptyStore (d : Directory) (t : FileTree) (o p : Place) : Prop where
  rooted : Rooted t
  objects : t.place d.objectsDir = .ok o
  records : t.place d.recordsDir = .ok p
  objectsOpen : t.checkDirectory o searchBit = .ok () ∧ t.checkDirectory o writeBit = .ok ()
  recordsOpen : t.checkDirectory p searchBit = .ok () ∧ t.checkDirectory p writeBit = .ok ()
  apart : Beside o p
  empty : ∀ names, names ≠ [] → t.get? (o ++ names) = none ∧ t.get? (p ++ names) = none

/-! ### Below the directories of a store -/

section Below

variable {d : Directory} {start t : FileTree} {o p w names : Place} {files : Place → Option File} {f : File}
  (hstart : IsEmptyStore d start o p)

include hstart

lemma IsEmptyStore.side (hw : w = o ∨ w = p) :
    (∀ names, names ≠ [] → start.get? (w ++ names) = none) ∧ start.checkDirectory w writeBit = .ok () := by
  rcases hw with rfl | rfl
  · exact ⟨fun names hne => (hstart.empty names hne).1, hstart.objectsOpen.2⟩
  · exact ⟨fun names hne => (hstart.empty names hne).2, hstart.recordsOpen.2⟩

variable (hfiled : FiledAs start t files)

include hfiled

lemma IsEmptyStore.opens : Opens t d.objectsDir o ∧ Opens t d.recordsDir p :=
  ⟨(opens_of_place hstart.objects hstart.objectsOpen.1).mono hfiled.preserves,
    (opens_of_place hstart.records hstart.recordsOpen.1).mono hfiled.preserves⟩

/-- There are the files that were put, and directories. -/
lemma IsEmptyStore.get?_cases (hw : w = o ∨ w = p) (hne : names ≠ []) :
    (∃ f, files (w ++ names) = some f ∧ t.get? (w ++ names) = some (.file f)) ∨
      files (w ++ names) = none ∧ ∀ node, t.get? (w ++ names) = some node → ∃ mode, node = .directory mode := by
  cases hfile : files (w ++ names) with
  | some f => exact .inl ⟨f, rfl, hfiled.filed hfile⟩
  | none =>
    refine .inr ⟨rfl, fun node hnode => ?_⟩
    rcases hfiled.get?_cases hfile with hsame | ⟨_, hdir⟩
    · rw [hsame, (hstart.side hw).1 names hne] at hnode
      cases hnode
    · rw [hdir] at hnode
      exact ⟨_, (Option.some.inj hnode).symm⟩

lemma IsEmptyStore.file_iff (hw : w = o ∨ w = p) (hne : names ≠ []) :
    t.get? (w ++ names) = some (.file f) ↔ files (w ++ names) = some f := by
  rcases hstart.get?_cases hfiled hw hne with ⟨g, hfile, hnode⟩ | ⟨hnone, hdir⟩
  · rw [hfile, hnode, Option.some_inj, FileNode.file.injEq, Option.some_inj]
  · rw [hnone]
    refine iff_of_false (fun hnode => ?_) (by simp)
    obtain ⟨mode, hmode⟩ := hdir _ hnode
    cases hmode

lemma IsEmptyStore.linkFree (hw : w = o ∨ w = p) : LinkFree t w := by
  intro names target hlink
  by_cases hne : names = []
  · obtain ⟨mode, hmode⟩ := directoryAt_of_check (hfiled.preserves.check (hstart.side hw).2)
    rw [hne, List.append_nil, hmode] at hlink
    cases hlink
  · rcases hstart.get?_cases hfiled hw hne with ⟨f, _, hnode⟩ | ⟨_, hdir⟩
    · rw [hnode] at hlink
      cases hlink
    · obtain ⟨mode, hmode⟩ := hdir _ hlink
      cases hmode

/-- There is room for a file that no other one is in the way of. -/
lemma IsEmptyStore.admits (hw : w = o ∨ w = p) (hne : names ≠ [])
    (hsizes : ∀ name ∈ names, name.utf8ByteSize ≤ longestName)
    (hapart : StandsApart files (w ++ names)) : Admits t w names := by
  obtain ⟨hempty, hwrite⟩ := hstart.side hw
  exact (admits_of_empty hempty hwrite hsizes hne).after hne hfiled hapart

end Below

/-! ### The files of a store -/

/-- The files of a store with these bundles: their data below the one place, their records below the other. -/
structure IsFiling (r : Retention) (o p : Place) (content : KeptBundles) (files : Place → Option File) : Prop where
  object : ∀ {key kept}, content.get? key = some kept →
    ∃ now, files (o ++ namesOf key) = some ⟨kept.1, now, privateMode⟩
  record : ∀ {key kept}, content.get? key = some kept → ∃ now storedAt expiresAt,
    files (p ++ namesOf (key ++ ".json")) =
      some ⟨(BundleRecord.toJson ⟨kept.2, storedAt, expiresAt⟩).pretty.toUTF8, now, privateMode⟩ ∧
    IsMoment storedAt ∧ ExpiresAs r kept.2 storedAt expiresAt
  only : ∀ {place f}, files place = some f → ∃ key, content.contains key = true ∧
    (place = o ++ namesOf key ∨ place = p ++ namesOf (key ++ ".json"))

/-- The tree is that of a store that was empty once and has these bundles now. -/
structure HoldsBundles (d : Directory) (start : FileTree) (o p : Place) (content : KeptBundles) (t : FileTree) :
    Prop where
  rooted : Rooted t
  fits : ∀ {key}, content.contains key = true → FitsDirectory d key
  filed : ∃ files, FiledAs start t files ∧ IsFiling d.retention o p content files

lemma holdsBundles_empty {d : Directory} {start : FileTree} {o p : Place} (hstart : IsEmptyStore d start o p) :
    HoldsBundles d start o p ∅ start :=
  ⟨hstart.rooted, nofun, fun _ => none, filedAs_refl start, nofun, nofun, nofun⟩

lemma eq_of_three {w a b : Place} (ha : a.length = 3) (hb : b.length = 3)
    (h : w ++ a <+: w ++ b ∨ w ++ b <+: w ++ a) : w ++ a = w ++ b := by
  have hlength : (w ++ a).length = (w ++ b).length := by
    rw [List.length_append, List.length_append, ha, hb]
  rcases h with h | h
  · exact h.eq_of_length hlength
  · exact (h.eq_of_length hlength.symm).symm

section Filing

variable {d : Directory} {r : Retention} {start t : FileTree} {o p : Place} {content : KeptBundles}
  {files : Place → Option File} {key : String}

/-- The places of files in a store are three names below one of its two directories. -/
lemma IsFiling.standsApart (h : IsFiling r o p content files) (hapart : Beside o p)
    (hfits : ∀ {key}, content.contains key = true → FitsDirectory d key) {w names : Place} (hw : w = o ∨ w = p)
    (hthree : names.length = 3) : StandsApart files (w ++ names) := by
  intro other f hfile hbegins
  obtain ⟨key, hkey, rfl | rfl⟩ := h.only hfile
  · rcases hw with rfl | rfl
    · exact eq_of_three (hfits hkey).isObject.three hthree hbegins
    · exact (hbegins.elim (hapart.append _ _).1 (hapart.append _ _).2).elim
  · rcases hw with rfl | rfl
    · exact (hbegins.elim (hapart.append _ _).2 (hapart.append _ _).1).elim
    · exact eq_of_three (hfits hkey).isRecord.three hthree hbegins

lemma FitsDirectory.object_inj {other : String} (h : FitsDirectory d key) (hother : FitsDirectory d other)
    (hnames : namesOf key = namesOf other) : key = other := by
  rw [← h.isObject.text, hnames, hother.isObject.text]

lemma FitsDirectory.record_inj {other : String} (h : FitsDirectory d key) (hother : FitsDirectory d other)
    (hnames : namesOf (key ++ ".json") = namesOf (other ++ ".json")) : key = other := by
  have hsame : key ++ ".json" = other ++ ".json" := by
    rw [← h.isRecord.text, hnames, hother.isRecord.text]
  have hchars := congrArg String.toList hsame
  rw [String.toList_append, String.toList_append] at hchars
  exact String.toList_inj.mp (List.append_cancel_right hchars)

/-- Three names below one of the directories there is room for a file, and there is one if the store has it. -/
lemma IsFiling.room (h : IsFiling r o p content files) (hstart : IsEmptyStore d start o p)
    (hfits : ∀ {key}, content.contains key = true → FitsDirectory d key) (hfiled : FiledAs start t files) {w names : Place}
    (hw : w = o ∨ w = p) (hthree : names.length = 3) (hsizes : ∀ name ∈ names, name.utf8ByteSize ≤ longestName) :
    Admits t w names ∧ StandsApart files (w ++ names) ∧ t.get? (w ++ names) = (files (w ++ names)).map .file := by
  have hne : names ≠ [] := by
    rw [← List.length_pos_iff, hthree]
    decide
  have hapart := h.standsApart hstart.apart hfits hw hthree
  refine ⟨hstart.admits hfiled hw hne hsizes hapart, hapart, ?_⟩
  cases hfile : files (w ++ names) with
  | some f => exact hfiled.filed hfile
  | none =>
    rw [hfiled.kept hfile, (hstart.side hw).1 names hne]
    · rfl
    · intro _ place f hplace hbegins
      rw [← hapart place f hplace (.inr hbegins), hplace] at hfile
      cases hfile

end Filing

/-! ### Putting a bundle -/

/-- A file is written as a whole where there is room for it. -/
lemma writeWhole_gives {m : Machine σ} (ht : Rooted m.files) {base path : String} {w names : Place}
    (hopens : Opens m.files base w) (htarget : LiesBelow base names path) (hne : names ≠ []) (hends : EndsActive path)
    (hcheck : checkPath path = .ok ()) (hroom : Admits m.files w names) (data : ByteArray) :
    ∃ t', Gives (writeWhole path data) m () { m with files := t' } ∧
      Filed m.files t' (w ++ names) ⟨data, m.now, privateMode⟩ ∧ Rooted t' := by
  obtain ⟨made, t', hmade, hplaced, hfiled⟩ :=
    placed_of_admits ht hopens htarget hne hends hcheck hroom ⟨data, m.now, privateMode⟩
  refine ⟨t', ?_, hfiled, ?_⟩
  · refine gives_bind.mpr ⟨(), _, gives_makeDirectories.mpr ⟨made, hmade, rfl⟩, ?_⟩
    exact gives_changeFiles.mpr ⟨t', hplaced, rfl⟩
  · obtain ⟨_, _, hedit, _⟩ := replace_edit hplaced
    have hrooted := rooted_makeDirectories ht ((Path.parent? path).getD "") m.now
    rw [hmade] at hrooted
    exact hedit.rooted hrooted

section Operations

variable {d : Directory} {start t : FileTree} {o p : Place} {content : KeptBundles} {files : Place → Option File}
  {key : String} {data : ByteArray} {tag : Option BundleTag}

/-- One more bundle, or another one under the same key. -/
lemma IsFiling.put (h : IsFiling d.retention o p content files)
    (hfits : ∀ {key}, content.contains key = true → FitsDirectory d key) (hapart : Beside o p)
    (hkey : FitsDirectory d key) {now : Instant} (hnow : IsMoment now) {expiresAt : Option Instant}
    (hexpires : ExpiresAs d.retention tag now expiresAt) :
    IsFiling d.retention o p (content.insert key (data, tag))
      (Function.update (Function.update files (o ++ namesOf key) (some ⟨data, now, privateMode⟩))
        (p ++ namesOf (key ++ ".json"))
        (some ⟨(BundleRecord.toJson ⟨tag, now, expiresAt⟩).pretty.toUTF8, now, privateMode⟩)) := by
  have hne : ∀ {a b : Place}, o ++ a ≠ p ++ b := (hapart.append _ _).ne
  refine ⟨?_, ?_, ?_⟩
  · intro other kept hget
    rw [Function.update_of_ne hne]
    rw [get?_insert] at hget
    by_cases hother : other = key
    · rw [if_pos hother] at hget
      cases hget
      rw [hother, Function.update_self]
      exact ⟨now, rfl⟩
    · rw [if_neg hother] at hget
      have hold := hfits ((contains_eq_true content other).mpr ⟨kept, hget⟩)
      rw [Function.update_of_ne fun heq => hother (hold.object_inj hkey (List.append_cancel_left heq))]
      exact h.object hget
  · intro other kept hget
    rw [get?_insert] at hget
    by_cases hother : other = key
    · rw [if_pos hother] at hget
      cases hget
      rw [hother, Function.update_self]
      exact ⟨now, now, expiresAt, rfl, hnow, hexpires⟩
    · rw [if_neg hother] at hget
      have hold := hfits ((contains_eq_true content other).mpr ⟨kept, hget⟩)
      rw [Function.update_of_ne fun heq => hother (hold.record_inj hkey (List.append_cancel_left heq)),
        Function.update_of_ne hne.symm]
      exact h.record hget
  · intro place f hfile
    simp only [contains_insert]
    by_cases hrecord : place = p ++ namesOf (key ++ ".json")
    · exact ⟨key, .inl rfl, .inr hrecord⟩
    · rw [Function.update_of_ne hrecord] at hfile
      by_cases hobject : place = o ++ namesOf key
      · exact ⟨key, .inl rfl, .inl hobject⟩
      · rw [Function.update_of_ne hobject] at hfile
        obtain ⟨other, hother, hplace⟩ := h.only hfile
        exact ⟨other, .inr hother, hplace⟩

/-- What is left of a put once it is told how long the bundle is kept. -/
lemma put_run {m : Machine σ} {expiresAt : Option Instant} (hexpires : ExpiresAs d.retention tag m.now expiresAt) :
    d.put key data tag m = (do
      checkKey key
      writeWhole (d.objectPath key) data
      writeWhole (d.recordPath key) (BundleRecord.toJson ⟨tag, m.now, expiresAt⟩).pretty.toUTF8
      return expiresAt : Task σ StoreError (Option Instant)) m := by
  have hgives : (Store.expiration d.retention tag : Task σ StoreError _) m = (.ok expiresAt, m) := hexpires.gives
  rw [Directory.put, run_bind, run_get]
  dsimp only
  rw [run_bind, hgives]

lemma put_beyond {m : Machine σ} (hbeyond : d.retention.expiry tag m.now = .beyond) :
    d.put key data tag m = (.error .beyondCalendar, m) := by
  rw [Directory.put, run_bind, run_get]
  dsimp only
  rw [run_bind, expiration_run_eq, hbeyond]

lemma HoldsBundles.put (hstart : IsEmptyStore d start o p) {m : Machine σ}
    (h : HoldsBundles d start o p content m.files) (hnow : IsMoment m.now) (hkey : FitsDirectory d key)
    {expiresAt : Option Instant} (hexpires : ExpiresAs d.retention tag m.now expiresAt) :
    ∃ t', Gives (d.put key data tag) m expiresAt { m with files := t' } ∧
      HoldsBundles d start o p (content.insert key (data, tag)) t' := by
  obtain ⟨files, hfiled, hfiling⟩ := h.filed
  have hobject := hkey.isObject
  have hrecord := hkey.isRecord
  obtain ⟨hroom, hapart, _⟩ := hfiling.room hstart h.fits hfiled (.inl rfl) hobject.three hkey.storable.objectSizes
  obtain ⟨t₁, hfirst, hput, hrooted⟩ := writeWhole_gives h.rooted (hstart.opens hfiled).1 hobject.liesBelow
    hobject.ne_nil hobject.ends hkey.object hroom data
  have hfiled₁ := hfiled.trans hput hapart
  -- the file of the data leaves the room for that of the record
  have hapart' := (hfiling.standsApart hstart.apart h.fits (.inr rfl) hrecord.three).update
    (hstart.apart.append (namesOf key) _) ⟨data, m.now, privateMode⟩
  have hroom' := hstart.admits hfiled₁ (.inr rfl) hrecord.ne_nil hkey.sizes hapart'
  obtain ⟨t₂, hsecond, hput', hrooted'⟩ := writeWhole_gives (m := { m with files := t₁ }) hrooted
    (hstart.opens hfiled₁).2 hrecord.liesBelow hrecord.ne_nil hrecord.ends hkey.record hroom'
    (BundleRecord.toJson ⟨tag, m.now, expiresAt⟩).pretty.toUTF8
  refine ⟨t₂, ?_, hrooted', ?_, _, hfiled₁.trans hput' hapart', hfiling.put h.fits hstart.apart hkey hnow hexpires⟩
  · unfold Gives
    rw [put_run hexpires, checkKey, if_pos hkey.usable, pure_bind]
    refine gives_bind.mpr ⟨(), _, hfirst, ?_⟩
    exact gives_bind.mpr ⟨(), _, hsecond, gives_pure.mpr ⟨rfl, rfl⟩⟩
  · intro other hother
    rcases (contains_insert content other key _).mp hother with rfl | hother
    · exact hkey
    · exact h.fits hother

/-! ### Reading -/

section Reading

variable (hstart : IsEmptyStore d start o p) (h : HoldsBundles d start o p content t) (hkey : FitsDirectory d key)

include hstart h hkey

/-- Below the objects, there is a file at the names of a key if a bundle is kept under the key, with its data. -/
lemma HoldsBundles.object : Admits t o (namesOf key) ∧ Opens t d.objectsDir o ∧
    match content.get? key with
    | none => t.get? (o ++ namesOf key) = none
    | some kept => ∃ now, t.get? (o ++ namesOf key) = some (.file ⟨kept.1, now, privateMode⟩) := by
  obtain ⟨files, hfiled, hfiling⟩ := h.filed
  obtain ⟨hroom, _, hfile⟩ := hfiling.room hstart h.fits hfiled (.inl rfl) hkey.isObject.three hkey.storable.objectSizes
  refine ⟨hroom, (hstart.opens hfiled).1, ?_⟩
  rw [hfile]
  cases hget : content.get? key with
  | some kept =>
    obtain ⟨now, hput⟩ := hfiling.object hget
    exact ⟨now, by rw [hput]; rfl⟩
  | none =>
    refine Option.map_eq_none_iff.mpr (Option.eq_none_iff_forall_ne_some.mpr fun f hput => ?_)
    obtain ⟨other, hother, hplace | hplace⟩ := hfiling.only hput
    · rw [(h.fits hother).object_inj hkey (List.append_cancel_left hplace).symm, SortedMap.contains, hget] at hother
      cases hother
    · exact (hstart.apart.append _ _).ne hplace

/-- Below the records, there is the record of the bundle. -/
lemma HoldsBundles.record : Admits t p (namesOf (key ++ ".json")) ∧ Opens t d.recordsDir p ∧
    match content.get? key with
    | none => t.get? (p ++ namesOf (key ++ ".json")) = none
    | some kept => ∃ now storedAt expiresAt, t.get? (p ++ namesOf (key ++ ".json")) =
        some (.file ⟨(BundleRecord.toJson ⟨kept.2, storedAt, expiresAt⟩).pretty.toUTF8, now, privateMode⟩) ∧
      IsMoment storedAt ∧ ExpiresAs d.retention kept.2 storedAt expiresAt := by
  obtain ⟨files, hfiled, hfiling⟩ := h.filed
  obtain ⟨hroom, _, hfile⟩ := hfiling.room hstart h.fits hfiled (.inr rfl) hkey.isRecord.three hkey.sizes
  refine ⟨hroom, (hstart.opens hfiled).2, ?_⟩
  rw [hfile]
  cases hget : content.get? key with
  | some kept =>
    obtain ⟨now, storedAt, expiresAt, hput, hrest⟩ := hfiling.record hget
    exact ⟨now, storedAt, expiresAt, by rw [hput]; rfl, hrest⟩
  | none =>
    refine Option.map_eq_none_iff.mpr (Option.eq_none_iff_forall_ne_some.mpr fun f hput => ?_)
    obtain ⟨other, hother, hplace | hplace⟩ := hfiling.only hput
    · exact (hstart.apart.append _ _).ne hplace.symm
    · rw [(h.fits hother).record_inj hkey (List.append_cancel_left hplace).symm, SortedMap.contains, hget] at hother
      cases hother

end Reading

lemma readOr_run {α : Type} (path : String) (found : ByteArray → Task σ StoreError α) (missing : Task σ StoreError α)
    (m : Machine σ) : readOr path found missing m = match m.files.read path with
      | .ok data => found data m
      | .error .notFound => missing m
      | .error fault => (.error (.file fault), m) := by
  have hrun : readOr path found missing m = (match m.files.read path with
      | .ok data => found data
      | .error .notFound => missing
      | .error fault => throw (.file fault) : Task σ StoreError α) m := rfl
  rw [hrun]
  cases m.files.read path with
  | ok data => rfl
  | error fault => cases fault <;> rfl

lemma fetch_run (d : Directory) {key : String} (husable : isUsableKey key = true) (m : Machine σ) :
    d.fetch key m = readOr (d.objectPath key) pure (throw (.notFound key)) m := by
  rw [Directory.fetch, checkKey, husable]
  rfl

lemma list_run (d : Directory) (text : String) (m : Machine σ) :
    d.list text m = match m.files.place d.objectsDir with
      | .ok place => (.ok (((keysBelow m.files place).filter (Text.startsWith · text)).mergeSort (· ≤ ·)), m)
      | .error fault => (.error (.file fault), m) := by
  have hrun : d.list text m = (Task.ofExcept .file (m.files.place d.objectsDir) >>= fun place =>
      pure (((keysBelow m.files place).filter (Text.startsWith · text)).mergeSort (· ≤ ·)) :
        Task σ StoreError (List String)) m := rfl
  rw [hrun]
  cases m.files.place d.objectsDir with
  | ok place => rfl
  | error fault => rfl

section Answers

variable {m : Machine σ} (hstart : IsEmptyStore d start o p) (h : HoldsBundles d start o p content m.files)
  (hkey : FitsDirectory d key)

include hstart h hkey

/-- The data of a bundle is what was put last under its key. -/
lemma HoldsBundles.fetch : d.fetch key m = match content.get? key with
    | some kept => (.ok kept.1, m)
    | none => (.error (.notFound key), m) := by
  obtain ⟨hroom, hopens, hthere⟩ := h.object hstart hkey
  have hobject := hkey.isObject
  obtain ⟨hmissing, hfound⟩ := hroom.read_eq h.rooted hopens hobject.liesBelow hobject.ne_nil hobject.ends hkey.object
  rw [fetch_run d hkey.usable, readOr_run]
  cases hget : content.get? key with
  | none =>
    rw [hget] at hthere
    rw [show m.files.read (d.objectPath key) = _ from hmissing hthere]
    rfl
  | some kept =>
    rw [hget] at hthere
    obtain ⟨now, hfile⟩ := hthere
    rw [show m.files.read (d.objectPath key) = _ from hfound _ hfile (show allows privateMode readBit = true by decide)]
    rfl

/-- What is recorded is the text of the tag, and when the bundle expires. -/
lemma HoldsBundles.record? : ∃ found, Gives (d.record? key) m found m ∧ match content.get? key with
    | none => found = none
    | some kept => ∃ record, found = some record ∧ record.tag.map (·.name) = kept.2.map (·.name) ∧
        record.expiresAt.map record.storedAt.daysUntil = (d.retention.days? kept.2).map Int.ofNat := by
  obtain ⟨hroom, hopens, hthere⟩ := h.record hstart hkey
  have hrecord := hkey.isRecord
  obtain ⟨hmissing, hfound⟩ := hroom.read_eq h.rooted hopens hrecord.liesBelow hrecord.ne_nil hrecord.ends hkey.record
  unfold Gives
  rw [Directory.record?, checkKey, hkey.usable, if_pos rfl, pure_bind, readOr_run]
  cases hget : content.get? key with
  | none =>
    rw [hget] at hthere
    rw [show m.files.read (d.recordPath key) = _ from hmissing hthere]
    exact ⟨none, rfl, rfl⟩
  | some kept =>
    rw [hget] at hthere
    obtain ⟨now, storedAt, expiresAt, hfile, hstored, hexpires⟩ := hthere
    rw [show m.files.read (d.recordPath key) = _ from hfound _ hfile (show allows privateMode readBit = true by decide)]
    have hback := ofJson?_pretty kept.2 hstored (hexpires.isMoment hstored)
    have htext : ∀ s : String, String.fromUTF8? s.toUTF8 = some s := fromUTF8?_toByteArray
    dsimp only
    rw [htext, Option.bind_some, hback]
    refine ⟨_, rfl, _, rfl, ?_, ?_⟩
    · cases kept.2 with
      | none => rfl
      | some tag => exact congrArg some (name_ofName tag.name)
    · exact hexpires.days

end Answers

lemma mem_keysBelow (hstart : IsEmptyStore d start o p) (h : HoldsBundles d start o p content t) {names : Place}
    {f : File} (hmem : (names, .file f) ∈ t.below o) :
    content.contains (pathOfNames names) = true ∧ namesOf (pathOfNames names) = names := by
  obtain ⟨files, hfiled, hfiling⟩ := h.filed
  obtain ⟨hne, hfile⟩ := mem_below.mp hmem
  have hput := (hstart.file_iff hfiled (.inl rfl) hne).mp hfile
  obtain ⟨key, hkey, hplace | hplace⟩ := hfiling.only hput
  · have hsame := (h.fits hkey).isObject.text
    rw [← List.append_cancel_left hplace] at hsame
    rw [hsame]
    exact ⟨hkey, (List.append_cancel_left hplace).symm⟩
  · exact ((hstart.apart.append _ _).ne hplace).elim

/-- No key is listed twice where each file has the names that its key is made of. -/
lemma nodup_keysBelow {place : Place}
    (hback : ∀ names f, (names, .file f) ∈ t.below place → namesOf (pathOfNames names) = names) :
    (keysBelow t place).Nodup := by
  unfold keysBelow
  rw [List.Nodup, List.pairwise_filterMap]
  refine (List.pairwise_map.mp (nodup_below t place)).imp_of_mem ?_
  rintro ⟨names, node⟩ ⟨names', node'⟩ hmem hmem' hne key hkey key' hkey' rfl
  cases node with
  | directory | link => cases hkey
  | file f =>
    cases node' with
    | directory | link => cases hkey'
    | file f' =>
      refine hne ?_
      have hsame : pathOfNames names = pathOfNames names' := (Option.some.inj hkey).trans (Option.some.inj hkey').symm
      dsimp only
      rw [← hback names f hmem, hsame, hback names' f' hmem']

/-- The files below the objects are found once each, by the keys that they are kept under. -/
lemma keysBelow_perm (hstart : IsEmptyStore d start o p) (h : HoldsBundles d start o p content t) :
    (keysBelow t o).Perm content.keys := by
  have hnodup := nodup_keysBelow fun _ _ hmem => (mem_keysBelow hstart h hmem).2
  refine (List.perm_ext_iff_of_nodup hnodup (nodup_keys content)).mpr fun key => ?_
  rw [mem_keys]
  constructor
  · intro hlisted
    obtain ⟨⟨names, node⟩, hmem, hkey⟩ := List.mem_filterMap.mp hlisted
    cases node with
    | directory | link => cases hkey
    | file f =>
      obtain rfl : pathOfNames names = key := Option.some.inj hkey
      exact (mem_keysBelow hstart h hmem).1
  · intro hkey
    have hfits := h.fits hkey
    obtain ⟨_, _, hthere⟩ := h.object hstart hfits
    obtain ⟨kept, hget⟩ := (contains_eq_true content key).mp hkey
    rw [hget] at hthere
    obtain ⟨now, hfile⟩ := hthere
    refine List.mem_filterMap.mpr ⟨(namesOf key, _), mem_below.mpr ⟨hfits.isObject.ne_nil, hfile⟩, ?_⟩
    exact congrArg some hfits.isObject.text

/-- Keys that are found in any order are listed in theirs. -/
lemma mergeSort_keys {α : Type} {found : List String} {content : SortedMap String α} (h : found.Perm content.keys)
    (text : String) : (found.filter (Text.startsWith · text)).mergeSort (· ≤ ·) =
      content.keys.filter (Text.startsWith · text) := by
  have hkeys : (content.keys.filter (Text.startsWith · text)).Pairwise (· < ·) :=
    ((increasing_keys content).imp compareOfLessAndEq_eq_lt.mp).filter _
  refine ((List.mergeSort_perm _ _).trans (h.filter _)).eq_of_pairwise (fun a b _ _ => String.le_antisymm)
    ((List.pairwise_mergeSort ?_ ?_ _).imp of_decide_eq_true) (hkeys.imp fun hlt => ?_)
  · intro a b c hab hbc
    exact decide_eq_true (String.le_trans (of_decide_eq_true hab) (of_decide_eq_true hbc))
  · intro a b
    simpa using String.le_total a b
  · exact String.not_lt.mp (String.lt_asymm hlt)

/-- The listing is that of the keys in order. -/
lemma HoldsBundles.list (hstart : IsEmptyStore d start o p) {m : Machine σ} (h : HoldsBundles d start o p content m.files)
    (text : String) : Gives (d.list text) m (content.keys.filter (Text.startsWith · text)) m := by
  obtain ⟨files, hfiled, _⟩ := h.filed
  have hopens := (hstart.opens hfiled).1
  unfold Gives
  rw [list_run, hopens.place_eq (checkPath_of_place hstart.objects)]
  dsimp only
  rw [mergeSort_keys (keysBelow_perm hstart h)]

end Operations

/-! ### Setting up -/

lemma HasWay.concat {t : FileTree} {w front : Place} (h : HasWay t w front) {name : String}
    (hnone : t.get? (w ++ (front ++ [name])) = none)
    (hwritable : t.get? (w ++ front) = none ∨ t.checkDirectory (w ++ front) writeBit = .ok ()) :
    HasWay t w (front ++ [name]) := by
  intro before last hbefore
  rcases List.prefix_concat_iff.mp hbefore with heq | hbefore
  · obtain ⟨rfl, hlast⟩ := List.append_inj' heq rfl
    obtain rfl : last = name := List.cons.inj hlast |>.1
    exact .inl ⟨hnone, hwritable⟩
  · exact h before last hbefore

/-- On the way to one name below a place there is only that one. -/
lemma eq_singleton_of_begins {w front names : Place} {name : String} (hne : names ≠ [])
    (h : w ++ (front ++ names) <+: w ++ (front ++ [name])) : names = [name] := by
  rw [List.prefix_append_right_inj, List.prefix_append_right_inj, List.prefix_cons_iff] at h
  obtain ⟨rest, rfl, hrest⟩ := h.resolve_left hne
  rw [List.prefix_nil.mp hrest]

section SetUp

variable {t : FileTree} {base root : String} {w front : Place} (ht : Rooted t) (hopens : Opens t base w)
  (hroot : LiesBelow base front root) (hsizes : ∀ name ∈ front, name.utf8ByteSize ≤ longestName)
  (hway : HasWay t w front)
  (hwritable : t.get? (w ++ front) = none ∨ t.checkDirectory (w ++ front) writeBit = .ok ())

include ht hopens hroot hsizes hway hwritable

/-- A directory of the store is made with all above it. -/
lemma makeDirectories_below (name : String) (hname : IsFileName name) (hsize : name.utf8ByteSize ≤ longestName)
    (hnone : t.get? (w ++ (front ++ [name])) = none) (hcheck : checkPath (Path.join root name) = .ok ()) (now : Instant) :
    ∃ t', t.makeDirectories (Path.join root name) now = (t', none) ∧ Prepared t t' (w ++ (front ++ [name])) ∧ Rooted t' ∧
      Opens t' (Path.join root name) (w ++ (front ++ [name])) ∧
      HasWay t' w front ∧ t'.checkDirectory (w ++ front) writeBit = .ok () := by
  have hall : ∀ other ∈ [name], IsFileName other := by simpa using hname
  have hplain := isPlain_pathOfNames hall (by simp)
  have hnames := namesOf_pathOfNames hall (by simp)
  have hactive := endsActive_pathOfNames hall (by simp)
  rw [pathOfNames_singleton] at hplain hnames hactive
  have hbelow := hroot.join hplain
  rw [hnames] at hbelow
  have hends : EndsActive (Path.join root name) := hactive.join root (isPlain_names hplain).1
  have hsizes' : ∀ other ∈ front ++ [name], other.utf8ByteSize ≤ longestName := by
    intro other hother
    rcases List.mem_append.mp hother with hother | hother
    · exact hsizes other hother
    · rwa [List.mem_singleton.mp hother]
  have hwayName := hway.concat hnone hwritable
  obtain ⟨t', hmade, hprepared⟩ :=
    makeDirectories_prepares now ht hopens hwayName hsizes' ⟨hbelow.start, .inl hbelow.steps⟩ (.inr hends) hcheck
  have hrooted := rooted_makeDirectories ht (Path.join root name) now
  rw [hmade] at hrooted
  have hsearch : ∀ {before}, before <+: front ++ [name] → t'.checkDirectory (w ++ before) searchBit = .ok () :=
    hprepared.check_way hwayName hopens.check
  refine ⟨t', hmade, hprepared, hrooted, (hopens.mono hprepared.preserves).along hbelow hsizes' fun _ => hsearch, ?_, ?_⟩
  · exact fun before last hbefore => .inr (hsearch (hbefore.trans (List.prefix_append front [name])))
  · exact hprepared.check ((List.prefix_append_right_inj w).mpr (List.prefix_append front [name])) (by decide) hwritable

end SetUp

/-- Where nothing is and it can be made, the directories of a store are made and are empty. -/
theorem setUp_gives {m : Machine σ} (ht : Rooted m.files) {base : String} {w front : Place} (hopens : Opens m.files base w)
    {d : Directory} (hroot : LiesBelow base front d.root) (hsizes : ∀ name ∈ front, name.utf8ByteSize ≤ longestName)
    (hway : HasWay m.files w front)
    (hwritable : m.files.get? (w ++ front) = none ∨ m.files.checkDirectory (w ++ front) writeBit = .ok ())
    (hempty : ∀ names, names ≠ [] → m.files.get? (w ++ (front ++ names)) = none)
    (hobjects : checkPath d.objectsDir = .ok ()) (hrecords : checkPath d.recordsDir = .ok ()) :
    ∃ t', Gives d.setUp m () { m with files := t' } ∧
      IsEmptyStore d t' (w ++ (front ++ ["objects"])) (w ++ (front ++ ["meta"])) := by
  obtain ⟨t₁, hmade, hprepared, hrooted, hopenObjects, hway₁, hwritable₁⟩ := makeDirectories_below ht hopens hroot hsizes
    hway hwritable "objects" (by decide) (by decide) (hempty _ (by simp)) hobjects m.now
  have hnone : ∀ names, names ≠ [] → names ≠ ["objects"] → t₁.get? (w ++ (front ++ names)) = none := by
    intro names hne hother
    rw [hprepared.nodes, if_neg, hempty names hne]
    rintro ⟨_, hbegins⟩
    exact hother (eq_singleton_of_begins hne hbegins)
  obtain ⟨t₂, hmade', hprepared', hrooted', hopenRecords, _⟩ := makeDirectories_below hrooted
    (hopens.mono hprepared.preserves) hroot hsizes hway₁ (.inr hwritable₁) "meta" (by decide) (by decide)
    (hnone _ (by simp) (by simp)) hrecords m.now
  have hopenObjects := hopenObjects.mono hprepared'.preserves
  refine ⟨t₂, ?_, hrooted', hopenObjects.place_eq hobjects, hopenRecords.place_eq hrecords, ⟨hopenObjects.check, ?_⟩,
    ⟨hopenRecords.check, ?_⟩, ?_, ?_⟩
  · refine gives_bind.mpr ⟨(), _, gives_makeDirectories.mpr ⟨t₁, hmade, rfl⟩, ?_⟩
    exact gives_makeDirectories.mpr ⟨t₂, hmade', rfl⟩
  · exact hprepared'.preserves.check
      (hprepared.check List.prefix_rfl (by decide) (.inl (hempty ["objects"] (by simp))))
  · exact hprepared'.check List.prefix_rfl (by decide) (.inl (hnone ["meta"] (by simp) (by simp)))
  · simp only [Beside, List.prefix_append_right_inj]
    decide
  · have hkept : ∀ names, names ≠ [] → names ≠ ["objects"] → names ≠ ["meta"] →
        t₂.get? (w ++ (front ++ names)) = none := by
      intro names hne hother hother'
      rw [hprepared'.nodes, if_neg, hnone names hne hother]
      rintro ⟨_, hbegins⟩
      exact hother' (eq_singleton_of_begins hne hbegins)
    intro names hne
    simp only [List.append_assoc, List.singleton_append]
    exact ⟨hkept _ (by simp) (by simp [hne]) (by simp), hkept _ (by simp) (by simp) (by simp [hne])⟩

end CrossBuild.Proofs
