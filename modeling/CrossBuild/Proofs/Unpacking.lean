import CrossBuild.Archive.Unpack
import CrossBuild.Proofs.PathParents
import CrossBuild.Proofs.TreeEdits

/-!
# What unpacking keeps

A task is taken apart into the changes of the tree that it makes, whether it succeeds or fails on the way.
A property of trees that bears making a directory on the way to something below the destination, putting
a file there and setting the permissions of a directory there is kept by unpacking any archive. So the
loop over the entries is gone through once, and each property only has to bear the three changes.
-/

namespace CrossBuild.Proofs
open Archive

variable {σ : Type}

/-! ### Tasks that keep a property of the files -/

/-- Run at a time on files with a property, the task changes nothing but files, and they keep the
property even if it fails. -/
def Keeps {ε α : Type} (now : Instant) (I : FileTree → Prop) (task : Task σ ε α) : Prop :=
  ∀ m : Machine σ, m.now = now → I m.files → ∃ files, (task m).2 = { m with files } ∧ I files

section Sequences

variable {ε ε' α β : Type} {now : Instant} {I : FileTree → Prop}

lemma Keeps.gives {task : Task σ ε α} (h : Keeps now I task) {m m' : Machine σ} {a : α}
    (hgives : Gives task m a m') (hnow : m.now = now) (hm : I m.files) :
    ∃ files, m' = { m with files } ∧ I files := by
  obtain ⟨files, hfiles, hkept⟩ := h m hnow hm
  rw [show task m = (.ok a, m') from hgives] at hfiles
  exact ⟨files, hfiles, hkept⟩

lemma keeps_pure (a : α) : Keeps now I (pure a : Task σ ε α) := fun m _ hm => ⟨m.files, rfl, hm⟩

lemma keeps_throw (e : ε) : Keeps now I (throw e : Task σ ε α) := fun m _ hm => ⟨m.files, rfl, hm⟩

lemma keeps_bind {x : Task σ ε α} {f : α → Task σ ε β} (hx : Keeps now I x) (hf : ∀ a, Keeps now I (f a)) :
    Keeps now I (x >>= f) := by
  intro m hnow hm
  obtain ⟨files, hfiles, hkept⟩ := hx m hnow hm
  rw [run_bind]
  rcases hrun : x m with ⟨e | a, between⟩
  · rw [hrun] at hfiles
    exact ⟨files, hfiles, hkept⟩
  · rw [hrun] at hfiles
    obtain rfl : between = { m with files } := hfiles
    exact hf a { m with files } hnow hkept

/-- What is done with the machine that is seen is done at its time. -/
lemma keeps_get {f : Machine σ → Task σ ε β} (hf : ∀ m : Machine σ, m.now = now → Keeps now I (f m)) :
    Keeps now I (get >>= f) :=
  fun m hnow hm => hf m hnow m hnow hm

lemma keeps_bind_ofExcept {wrap : ε' → ε} {r : Except ε' α} {f : α → Task σ ε β}
    (hf : ∀ a, r = .ok a → Keeps now I (f a)) : Keeps now I (Task.ofExcept wrap r >>= f) := by
  cases r with
  | ok a => exact hf a rfl
  | error e => exact fun m _ hm => ⟨m.files, rfl, hm⟩

lemma keeps_changeFiles (wrap : FileFault → ε) {f : FileTree → Instant → Except FileFault FileTree}
    (hf : ∀ {t t'}, I t → f t now = .ok t' → I t') : Keeps now I (Task.changeFiles wrap f : Task σ ε Unit) := by
  rintro m rfl hm
  rw [run_changeFiles]
  cases hfiles : f m.files m.now with
  | ok files => exact ⟨files, rfl, hf hm hfiles⟩
  | error fault => exact ⟨m.files, rfl, hm⟩

lemma keeps_makeDirectories (wrap : FileFault → ε) {path : String}
    (hmake : ∀ {t : FileTree}, I t → I (t.makeDirectories path now).1) :
    Keeps now I (Task.makeDirectories wrap path : Task σ ε Unit) := by
  rintro m rfl hm
  rw [run_makeDirectories]
  exact ⟨_, rfl, hmake hm⟩

end Sequences

/-! ### What unpacking does to a tree -/

lemma relativePath_plain {path rest : String} (h : relativePath path = .ok rest) :
    Path.isPlain rest = true := by
  unfold relativePath at h
  split at h
  · split at h
    · rename_i hplain
      cases h
      exact hplain
    · cases h
  · cases h

/-- The property of trees is kept by what is done below a directory at a time, with files as given. -/
structure Bears (now : Instant) (I : FileTree → Prop) (dest : String) (given : File → Prop) : Prop where
  ensure : ∀ {t t' target path names}, I t → LiesBelow dest names target → names ≠ [] →
    IsFront path target → t.ensureDirectory path now = .ok t' → I t'
  mode : ∀ {t t' target names mode}, I t → LiesBelow dest names target → names ≠ [] →
    t.setDirectoryMode target mode = .ok t' → I t'
  replace : ∀ {t t' target names f}, I t → LiesBelow dest names target → names ≠ [] → given f →
    t.replace target f now = .ok t' → I t'
  write : ∀ {t t' target names data}, I t → LiesBelow dest names target → names ≠ [] →
    t.write target data now = .ok t' → I t'
  remove : ∀ {t t' target names}, I t → LiesBelow dest names target → names ≠ [] →
    t.remove target now = .ok t' → I t'

lemma bears_true (now : Instant) (dest : String) : Bears now (fun _ => True) dest fun _ => True :=
  ⟨fun _ _ _ _ _ => trivial, fun _ _ _ _ => trivial, fun _ _ _ _ _ => trivial, fun _ _ _ _ => trivial,
    fun _ _ _ _ => trivial⟩

section Unpack

variable {now : Instant} {I : FileTree → Prop} {dest : String} {given : File → Prop}
  (hI : Bears now I dest given)

include hI

lemma Bears.makeDirectories {target path : String} {names : Place} (htarget : LiesBelow dest names target)
    (hne : names ≠ []) (hfront : IsFront path target) {t : FileTree} (ht : I t) :
    I (t.makeDirectories path now).1 := by
  refine makeDirectories_keeps ?_ ht
  intro above habove made made' hmade hensure
  refine hI.ensure hmade htarget hne ?_ hensure
  rcases List.mem_append.mp habove with habove | habove
  · exact (isFront_ancestor habove).trans hfront
  · rwa [List.mem_singleton.mp habove]

/-- The directory above something below the destination can be made with all above it. -/
lemma Bears.makeParent {target : String} {names : Place} (htarget : LiesBelow dest names target) (hne : names ≠ [])
    {t : FileTree} (ht : I t) : I (t.makeDirectories ((Path.parent? target).getD "") now).1 := by
  cases hparent : Path.parent? target with
  | none => exact ht
  | some parent =>
    by_cases hempty : parent = ""
    · rw [Option.getD_some, FileTree.makeDirectories, if_pos (by simp [hempty])]
      exact ht
    · exact hI.makeDirectories htarget hne (isFront_parent hparent hempty) ht

lemma keeps_makeParents {target : String} {names : Place} (htarget : LiesBelow dest names target)
    (hne : names ≠ []) : Keeps now I (makeParents target : Task σ ArchiveError Unit) := by
  unfold makeParents
  split
  · rename_i parent hparent
    refine keeps_makeDirectories _ fun ht => ?_
    have hkept := hI.makeParent htarget hne ht
    rwa [hparent] at hkept
  · exact keeps_pure _

lemma keeps_makeNamedDirectory {target : String} {names : Place} (htarget : LiesBelow dest names target)
    (hne : names ≠ []) (e : Entry) :
    Keeps now I (makeNamedDirectory target e : Task σ ArchiveError Unit) := by
  unfold makeNamedDirectory
  refine keeps_bind (keeps_changeFiles _ fun ht => hI.ensure ht htarget hne (isFront_refl _)) fun _ => ?_
  split
  · exact keeps_changeFiles _ fun ht => hI.mode ht htarget hne
  · exact keeps_pure _

lemma keeps_unpackEntry (fileOf : Entry → Instant → File) {e : Entry} (hgiven : given (fileOf e now)) :
    Keeps now I (unpackEntry fileOf dest e : Task σ ArchiveError Nat) := by
  unfold unpackEntry
  refine keeps_bind_ofExcept fun rest hrest => ?_
  have hplain := relativePath_plain hrest
  have htarget : LiesBelow dest (namesOf rest) (Path.join dest rest) := (liesBelow_refl dest).join hplain
  split
  · exact keeps_pure _
  · rename_i hnonempty
    have hne : namesOf rest ≠ [] := (isPlain_names hplain).2.2 (by simpa using hnonempty)
    dsimp only
    split
    · refine keeps_bind (keeps_makeDirectories _ fun ht => ?_) fun _ => keeps_pure _
      exact hI.makeDirectories htarget hne (isFront_refl _) ht
    · refine keeps_bind (keeps_makeParents hI htarget hne) fun _ => ?_
      exact keeps_bind (keeps_changeFiles _ fun ht => hI.replace ht htarget hne hgiven) fun _ => keeps_pure _
    · refine keeps_bind (keeps_makeParents hI htarget hne) fun _ => ?_
      exact keeps_bind (keeps_makeNamedDirectory hI htarget hne e) fun _ => keeps_pure _
    · exact keeps_throw _

lemma keeps_unpackEntries {entries : List Entry} (hgiven : ∀ e ∈ entries, given (unpackedFile e now)) :
    Keeps now I (unpackEntries dest entries : Task σ ArchiveError Nat) := by
  induction entries with
  | nil => exact keeps_pure _
  | cons e rest ih =>
    rw [List.forall_mem_cons] at hgiven
    refine keeps_bind (keeps_unpackEntry hI _ hgiven.1) fun _ => ?_
    exact keeps_bind (ih hgiven.2) fun _ => keeps_pure _

/-- The property is kept whatever the archive holds and however it ends. -/
lemma keeps_unpackContents {c : Contents} (hgiven : ∀ e ∈ c.entries, given (unpackedFile e now))
    (hcut : ∀ e, c.ending = .cut e → given (partialFile e now)) :
    Keeps now I (unpackContents dest c : Task σ ArchiveError Nat) := by
  unfold unpackContents
  refine keeps_bind (keeps_unpackEntries hI hgiven) fun _ => ?_
  split
  · exact keeps_pure _
  · exact keeps_throw _
  · rename_i e hending
    exact keeps_bind (keeps_unpackEntry hI _ (hcut e hending)) fun _ => keeps_throw _

end Unpack

/-! ### Successful runs -/

/-- The names of the place, below the directory that an entry is unpacked into, that the entry has. -/
def entryNames? (e : Entry) : Option Place := (relativePath e.path).toOption.map namesOf

/-- The entry counts as a file that is unpacked. -/
def countsAsFile (e : Entry) : Bool :=
  (e.kind == .file || e.kind == .directoryByName) && (entryNames? e).any (!·.isEmpty)

/-- How many files entries count as. -/
def fileCount (entries : List Entry) : Nat := entries.countP countsAsFile

lemma entryNames?_of_ok {e : Entry} {rest : String} (h : relativePath e.path = .ok rest) :
    entryNames? e = some (namesOf rest) := by
  rw [entryNames?, h]
  rfl

lemma namesOf_isEmpty {rest : String} (hplain : Path.isPlain rest = true) :
    (namesOf rest).isEmpty = rest.isEmpty := by
  by_cases hrest : rest = ""
  · rw [hrest]
    decide
  · have hne := (isPlain_names hplain).2.2 hrest
    rw [Bool.eq_iff_iff, List.isEmpty_iff, String.isEmpty_iff]
    exact iff_of_false hne hrest

section Runs

variable {dest : String} {m m' : Machine σ} {count : Nat}

lemma unpackEntry_count {fileOf : Entry → Instant → File} {e : Entry}
    (h : Gives (unpackEntry fileOf dest e) m count m') : count = if countsAsFile e then 1 else 0 := by
  simp only [unpackEntry, gives_bind, gives_ofExcept] at h
  obtain ⟨rest, _, ⟨hrest, _⟩, h⟩ := h
  rw [countsAsFile, entryNames?_of_ok hrest, Option.any_some, namesOf_isEmpty (relativePath_plain hrest)]
  split at h
  · rename_i hempty
    obtain ⟨rfl, _⟩ := gives_pure.mp h
    simp [hempty]
  · rename_i hnonempty
    split at h
    · rename_i hkind
      obtain ⟨_, _, _, h⟩ := gives_bind.mp h
      obtain ⟨rfl, _⟩ := gives_pure.mp h
      simp [hkind]
    · rename_i hkind
      simp only [gives_bind, gives_pure] at h
      obtain ⟨_, _, _, _, _, _, rfl, _⟩ := h
      simp [hkind, hnonempty]
    · rename_i hkind
      simp only [gives_bind, gives_pure] at h
      obtain ⟨_, _, _, _, _, _, rfl, _⟩ := h
      simp [hkind, hnonempty]
    · exact (gives_throw h).elim

lemma unpackEntries_count {entries : List Entry} (h : Gives (unpackEntries dest entries) m count m') :
    count = fileCount entries := by
  induction entries generalizing m m' count with
  | nil =>
    obtain ⟨rfl, _⟩ := gives_pure.mp h
    rfl
  | cons e rest ih =>
    simp only [unpackEntries, gives_bind, gives_pure] at h
    obtain ⟨one, _, hone, others, _, hothers, rfl, _⟩ := h
    rw [unpackEntry_count hone, ih hothers, fileCount, fileCount, List.countP_cons, Nat.add_comm]

/-- Only archives that end as they should are unpacked with success. -/
lemma gives_unpackContents {c : Contents} : Gives (unpackContents dest c) m count m' ↔
    c.ending = .complete ∧ Gives (unpackEntries dest c.entries) m count m' := by
  simp only [unpackContents, gives_bind]
  constructor
  · rintro ⟨counted, between, hentries, h⟩
    split at h
    · rename_i hending
      obtain ⟨rfl, rfl⟩ := gives_pure.mp h
      exact ⟨hending, hentries⟩
    · exact (gives_throw h).elim
    · obtain ⟨_, _, _, h⟩ := gives_bind.mp h
      exact (gives_throw h).elim
  · rintro ⟨hending, hentries⟩
    refine ⟨count, m', hentries, ?_⟩
    rw [hending]
    exact gives_pure.mpr ⟨rfl, rfl⟩

end Runs

/-! ### Below a directory without links -/

section Clean

variable {t t' : FileTree} {now : Instant} {dest target path : String} {w names : Place}

lemma IsClean.ensureDirectory (h : IsClean t dest w) (htarget : LiesBelow dest names target)
    (hfront : IsFront path target) (hensure : t.ensureDirectory path now = .ok t') :
    t' = t ∨ ∃ front, front ≠ [] ∧ Edit t (w ++ front) t' := by
  rcases ensureDirectory_cases hensure with ⟨hsame, _⟩ | ⟨parent, name, hspot, hedit⟩
  · exact .inl hsame
  · have hsteps := stepsOf_eq (FileTree.withoutEndSlashes path)
    rw [activePieces_withoutEndSlashes] at hsteps
    rcases h.spot_front htarget hfront hsteps hspot with ⟨place, htaken⟩ | ⟨front, hne, _, hends⟩
    · cases htaken
    · rw [show parent ++ [name] = w ++ front from hends.placeOf] at hedit
      exact .inr ⟨front, hne, hedit⟩

lemma Reaches.setDirectoryMode (h : Reaches t target w names) {mode : Nat}
    (hmode : t.setDirectoryMode target mode = .ok t') : Edit t (w ++ names) t' := by
  obtain ⟨place, hplace, rfl⟩ := setDirectoryMode_edit hmode
  obtain ⟨s, hspot, htaken⟩ := bind_eq_ok.mp hplace
  cases h.spot hspot with
  | taken node hnode =>
    cases htaken
    exact .moded mode (by simp [hnode])
  | free => cases htaken

/-- A property that no edit below a directory without links takes away is kept by all that is done there. -/
lemma bears_of_edits (now : Instant) {I : FileTree → Prop} (hclean : ∀ {t}, I t → IsClean t dest w)
    (hedit : ∀ {t t' names}, I t → names ≠ [] → Edit t (w ++ names) t' → I t') :
    Bears now I dest fun _ => True where
  ensure := by
    intro t t' target path names ht htarget _ hfront hensure
    rcases (hclean ht).ensureDirectory htarget hfront hensure with rfl | ⟨front, hne, hmade⟩
    · exact ht
    · exact hedit ht hne hmade
  mode := fun ht htarget hne hmode => hedit ht hne (((hclean ht).reaches htarget hne).setDirectoryMode hmode)
  replace := by
    intro t t' target names f ht htarget hne _ hreplace
    obtain ⟨s, hspot, hdone, _⟩ := replace_edit hreplace
    rw [(((hclean ht).reaches htarget hne).spot hspot).placeOf] at hdone
    exact hedit ht hne hdone
  write := by
    intro t t' target names data ht htarget hne hwrite
    obtain ⟨s, hspot, hdone, _⟩ := update_edit hwrite
    rw [(((hclean ht).reaches htarget hne).spot hspot).placeOf] at hdone
    exact hedit ht hne hdone
  remove := by
    intro t t' target names ht htarget hne hremove
    obtain ⟨s, hspot, hdone, _⟩ := remove_edit hremove
    rw [(((hclean ht).reaches htarget hne).spot hspot).placeOf] at hdone
    exact hedit ht hne hdone

/-- The tree has come from another by changes below a place that the path leads to and that has no links
below it. -/
structure StaysWithin (start : FileTree) (dest : String) (w : Place) (t : FileTree) : Prop where
  within : Within w start t
  clean : IsClean t dest w

lemma bears_staysWithin (now : Instant) (start : FileTree) (dest : String) (w : Place) :
    Bears now (StaysWithin start dest w) dest fun _ => True := by
  refine bears_of_edits now (fun h => h.clean) ?_
  intro t t' names h hne hedit
  have hone := hedit.within hne h.clean.linkFree
  exact ⟨h.within.trans hone, hone.isClean h.clean⟩

end Clean

end CrossBuild.Proofs
