import CrossBuild.Proofs.AlikeDownloads
import CrossBuild.Proofs.StoreAnswers

/-!
# Stores with the same bundles

Two trees in which a store keeps the same bundles differ in when its files were written and in what its
records say about that, and are alike in all else. The store lists and hands out the same in both, also while
a download changes files: what a download does takes no directory away and makes no links, so a path without
links goes on leading where it led.
-/

namespace CrossBuild.Proofs
open FileTree Directory

variable {σ : Type}

/-! ### Trees with the same bundles -/

/-- Of the files of a store their times do not count, and of those of its records the data does not either. -/
def storeView (o p : Place) : FileView where
  see q f := if o.isPrefixOf q then ⟨f.data, ⟨0, 0⟩, f.mode⟩
    else if p.isPrefixOf q then ⟨.empty, ⟨0, 0⟩, f.mode⟩ else f
  mode q f := by split <;> [rfl; split <;> rfl]

lemma storeView_object (o p names : Place) (f : File) :
    (storeView o p).see (o ++ names) f = ⟨f.data, ⟨0, 0⟩, f.mode⟩ := by
  simp [storeView]

lemma storeView_record {o p : Place} (h : Beside o p) (names : Place) (f : File) :
    (storeView o p).see (p ++ names) f = ⟨.empty, ⟨0, 0⟩, f.mode⟩ := by
  have hnot : ¬o <+: p ++ names := fun hbegins => (h.append [] names).1 (by rwa [List.append_nil])
  simp [storeView, hnot]

/-- Trees are alike if alike files were put into the same one. -/
lemma FiledAs.alike {v : FileView} {start t t' : FileTree} {files files' : Place → Option File}
    (h : FiledAs start t files) (h' : FiledAs start t' files')
    (hsame : ∀ q, Option.Rel (fun f f' => v.see q f = v.see q f') (files q) (files' q)) : Alike v t t' := by
  refine ⟨h.current.trans h'.current.symm, fun q => ?_⟩
  have hq := hsame q
  generalize hf : files q = file, hf' : files' q = file' at hq
  cases hq with
  | some hsee =>
    rw [h.filed hf, h'.filed hf']
    exact .file hsee
  | none =>
    by_cases hmade : start.get? q = none ∧ ∃ place f, files place = some f ∧ q <+: place
    · obtain ⟨hfree, place, f, hfile, hbegins⟩ := hmade
      have hplace := hsame place
      rw [hfile] at hplace
      generalize hfile' : files' place = file' at hplace
      cases hplace
      rw [h.made hf hfree hfile hbegins, h'.made hf' hfree hfile' hbegins]
      exact .directory _
    · have hnot : ∀ {f' place}, start.get? q = none → files' place = some f' → ¬q <+: place := by
        intro f' place hfree hfile' hbegins
        have hplace := hsame place
        rw [hfile'] at hplace
        generalize hfile : files place = file at hplace
        cases hplace
        exact hmade ⟨hfree, place, _, hfile, hbegins⟩
      rw [h.kept hf fun hfree place f hfile hbegins => hmade ⟨hfree, place, f, hfile, hbegins⟩,
        h'.kept hf' fun hfree _ _ => hnot hfree]
      exact sameNode_refl _ _

lemma IsFiling.seen {r : Retention} {o p : Place} {content : KeptBundles} {files files' : Place → Option File}
    (h : IsFiling r o p content files) (h' : IsFiling r o p content files') (hapart : Beside o p) {q : Place} {f : File}
    (hf : files q = some f) : ∃ f', files' q = some f' ∧ (storeView o p).see q f = (storeView o p).see q f' := by
  obtain ⟨key, hkey, rfl | rfl⟩ := h.only hf
  · obtain ⟨kept, hget⟩ := (contains_eq_true _ _).mp hkey
    obtain ⟨now, hobject⟩ := h.object hget
    obtain ⟨now', hobject'⟩ := h'.object hget
    cases hf.symm.trans hobject
    exact ⟨_, hobject', by rw [storeView_object, storeView_object]⟩
  · obtain ⟨kept, hget⟩ := (contains_eq_true _ _).mp hkey
    obtain ⟨now, _, _, hrecord, _⟩ := h.record hget
    obtain ⟨now', _, _, hrecord', _⟩ := h'.record hget
    cases hf.symm.trans hrecord
    exact ⟨_, hrecord', by rw [storeView_record hapart, storeView_record hapart]⟩

/-- What a store keeps tells all of its tree that counts. -/
lemma HoldsBundles.alike {d : Directory} {start t t' : FileTree} {o p : Place} {content : KeptBundles}
    (hstart : IsEmptyStore d start o p) (h : HoldsBundles d start o p content t)
    (h' : HoldsBundles d start o p content t') : Alike (storeView o p) t t' := by
  obtain ⟨files, hfiled, hfiling⟩ := h.filed
  obtain ⟨files', hfiled', hfiling'⟩ := h'.filed
  refine hfiled.alike hfiled' fun q => ?_
  cases hf : files q with
  | some f =>
    obtain ⟨f', hf', hsee⟩ := hfiling.seen hfiling' hstart.apart hf
    rw [hf']
    exact .some hsee
  | none =>
    cases hf' : files' q with
    | none => exact .none
    | some f' =>
      obtain ⟨_, hf'', _⟩ := hfiling'.seen hfiling hstart.apart hf'
      rw [hf] at hf''
      cases hf''

/-! ### What a download leaves of the way to a store -/

/-- No link has to be followed on the way to the directory. -/
def LeadsStraight (t : FileTree) (path : String) (w : Place) : Prop :=
  Passes t 0 (startOf t path) ((activePieces path).map stepOf) 0 w

/-- The directories of another tree are there, and no link below a place. -/
structure KeepsDirectories (start : FileTree) (o : Place) (t : FileTree) : Prop where
  current : t.current = start.current
  directories : ∀ {q}, DirectoryAt start q → DirectoryAt t q
  linkFree : LinkFree t o

section Kept

variable {start t t' : FileTree} {o : Place}

lemma Edit.keepsDirectories {q : Place} (h : Edit t q t') (ht : KeepsDirectories start o t) :
    KeepsDirectories start o t' := by
  refine ⟨h.current.trans ht.current, fun hdir => h.directoryAt (ht.directories hdir), fun names target => ?_⟩
  by_cases hq : o ++ names = q
  · subst hq
    exact h.not_link (ht.linkFree names) target
  · rw [h.get?_of_ne hq]
    exact ht.linkFree names target

lemma KeepsDirectories.setDirectory (ht : KeepsDirectories start o t) (place : Place) (mode : Nat) :
    KeepsDirectories start o (t.set place (.directory mode)) := by
  refine ⟨ht.current, fun {q} hdir => ?_, fun names target => ?_⟩
  · by_cases hq : q = place
    · rw [hq]
      exact directoryAt_set t place mode
    · obtain ⟨old, hold⟩ := ht.directories hdir
      exact ⟨old, by rw [get?_set, if_neg fun hset => hq hset.1, hold]⟩
  · rw [get?_set]
    split
    · simp
    · exact ht.linkFree names target

/-- Wherever a download works, it takes no directory away and makes no link. -/
lemma bears_keepsDirectories (start : FileTree) (o : Place) (now : Instant) (dest : String) :
    Bears now (KeepsDirectories start o) dest fun _ => True where
  ensure := by
    intro t t' target path names ht _ _ _ hensure
    rcases ensureDirectory_cases hensure with ⟨rfl, _⟩ | ⟨_, _, _, hedit⟩
    · exact ht
    · exact hedit.keepsDirectories ht
  mode := by
    intro t t' target names mode ht _ _ hmode
    obtain ⟨place, _, rfl⟩ := setDirectoryMode_edit hmode
    exact ht.setDirectory place mode
  replace := by
    intro t t' target names f ht _ _ _ hreplace
    obtain ⟨_, _, hedit, _⟩ := replace_edit hreplace
    exact hedit.keepsDirectories ht
  write := by
    intro t t' target names data ht _ _ hwrite
    obtain ⟨_, _, hedit, _⟩ := update_edit hwrite
    exact hedit.keepsDirectories ht
  remove := by
    intro t t' target names ht _ _ hremove
    obtain ⟨_, _, hedit, _⟩ := remove_edit hremove
    exact hedit.keepsDirectories ht

lemma Passes.leads_straight {place q : Place} {steps : List Step} {left : Nat} (h : Passes start 0 place steps left q)
    (hdirs : ∀ {q}, DirectoryAt start q → DirectoryAt t q) : Leads t place steps q := by
  generalize hlimit : 0 = limit at h
  induction h with
  | done => exact .done _
  | here hcheck _ ih => exact .here (hdirs (directoryAt_of_check hcheck)) (ih hlimit)
  | up hcheck _ ih => exact .up (hdirs (directoryAt_of_check hcheck)) (ih hlimit)
  | into hcheck _ hdir _ ih =>
    obtain ⟨mode, hmode⟩ := hdirs ⟨_, hdir⟩
    exact .into (hdirs (directoryAt_of_check hcheck)) hmode (by simp) (ih hlimit)
  | link => cases hlimit

lemma KeepsDirectories.isClean {path : String} (h : KeepsDirectories start o t) (hway : LeadsStraight start path o) :
    IsClean t path o := by
  refine ⟨⟨?_, h.directories (directoryAt_of_check hway.check_end)⟩, h.linkFree⟩
  rw [startOf, h.current]
  exact hway.leads_straight h.directories

lemma HoldsBundles.keepsDirectories {d : Directory} {p : Place} {content : KeptBundles}
    (hstart : IsEmptyStore d start o p) (h : HoldsBundles d start o p content t) : KeepsDirectories start o t := by
  obtain ⟨files, hfiled, _⟩ := h.filed
  exact ⟨hfiled.current, fun ⟨mode, hmode⟩ => ⟨mode, hfiled.preserves.directories hmode⟩,
    hstart.linkFree hfiled (.inl rfl)⟩

end Kept

/-! ### The same answers -/

lemma Alike.keysBelow {v : FileView} {t t' : FileTree} (h : Alike v t t') (place : Place) :
    Directory.keysBelow t place = Directory.keysBelow t' place :=
  h.filterMap_below place (by rintro names (mode | f | target) <;> rfl)

/-- A store in a directory answers the same in alike trees. -/
lemma directory_answersAlike {d : Directory} {o p : Place} {m m' : Machine σ} (hclean : IsClean m.files d.objectsDir o)
    (h : Alike (storeView o p) m.files m'.files) : AnswersAlike d.store m m' where
  list := by
    intro start
    change ∃ keys, d.list start m = (keys, m) ∧ d.list start m' = (keys, m')
    rw [list_run, list_run, ← h.place]
    simp only [h.keysBelow]
    cases m.files.place d.objectsDir with
    | error fault => exact ⟨_, rfl, rfl⟩
    | ok place => exact ⟨_, rfl, rfl⟩
  fetch := by
    intro key
    change ∃ data, d.fetch key m = (data, m) ∧ d.fetch key m' = (data, m')
    rw [Directory.fetch, checkKey]
    cases hkey : isUsableKey key with
    | false => exact ⟨_, rfl, rfl⟩
    | true =>
      obtain ⟨names, hne, hnames, rfl⟩ := usableKey_names hkey
      have hbelow := (liesBelow_refl d.objectsDir).join (isPlain_pathOfNames hnames hne)
      rw [List.nil_append, namesOf_pathOfNames hnames hne] at hbelow
      have hread : m.files.read (d.objectPath (pathOfNames names)) = m'.files.read (d.objectPath (pathOfNames names)) := by
        refine h.read fun q f f' hq _ _ hsee => ?_
        rw [(hclean.reaches hbelow hne).place hq, storeView_object, storeView_object] at hsee
        exact (File.mk.inj hsee).1
      rw [if_pos rfl, pure_bind, readOr_run, readOr_run, hread]
      rcases m'.files.read (d.objectPath (pathOfNames names)) with fault | data
      · cases fault <;> exact ⟨_, rfl, rfl⟩
      · exact ⟨_, rfl, rfl⟩

/-- So does a store in memory that keeps the same data. -/
lemma memory_answersAlike {r : Retention} {m m' : Machine Memory}
    (h : ∀ key, (m.service.get? key).map (·.data) = (m'.service.get? key).map (·.data)) :
    AnswersAlike (Memory.store r) m m' where
  list := by
    intro start
    have hrun : ∀ m : Machine Memory, (Memory.store r).list start m = (.ok (Memory.listed m.service start), m) :=
      fun _ => rfl
    have hkeys : m.service.keys = m'.service.keys := by
      refine keys_eq_of_contains fun key => ?_
      rw [SortedMap.contains, SortedMap.contains, ← Option.isSome_map, h key, Option.isSome_map]
    rw [hrun, hrun, Memory.listed, Memory.listed, hkeys]
    exact ⟨_, rfl, rfl⟩
  fetch := by
    intro key
    have hkey := h key
    cases hfound : m.service.get? key with
    | none =>
      rw [hfound, Option.map_none, eq_comm, Option.map_eq_none_iff] at hkey
      exact ⟨_, memory_fetch_none hfound, memory_fetch_none hkey⟩
    | some blob =>
      rw [hfound, Option.map_some, eq_comm, Option.map_eq_some_iff] at hkey
      obtain ⟨blob', hfound', hdata⟩ := hkey
      exact ⟨_, memory_fetch_some hfound, hdata ▸ memory_fetch_some hfound'⟩

end CrossBuild.Proofs
