import CrossBuild.Proofs.ArchivePaths

/-!
# Archives that mean harm

Whatever an archive holds, unpacking it into a directory without links changes nothing outside that
directory and makes no links in it, so no entry can prepare the way out for a later one. The first entry
that is not safe ends the work, if the files let it get that far.
-/

namespace CrossBuild.Proofs
open Archive CrossBuild.Path

variable {σ : Type}

/-! ### Entries -/

/-- The entry's path is not the base with plain names after it, or it stands for neither a directory nor
a file below the base. -/
def IsUnsafe (e : Entry) : Prop :=
  (∀ names : Place, components e.path ≠ .name base :: names.map .name) ∨
    e.kind = .other ∧ ∃ names : Place, names ≠ [] ∧ components e.path = .name base :: names.map .name

/-- The entry stands for a file below the base, if only by its kind. -/
def IsFileBelow (e : Entry) : Prop :=
  (e.kind = .file ∨ e.kind = .directoryByName) ∧
    ∃ names : Place, names ≠ [] ∧ components e.path = .name base :: names.map .name

lemma isUnsafe_iff {e : Entry} : IsUnsafe e ↔ entryNames? e = none ∨
    e.kind = .other ∧ ∃ names, names ≠ [] ∧ entryNames? e = some names := by
  simp only [IsUnsafe, entryNames?_eq_some_iff, Option.eq_none_iff_forall_ne_some, ne_eq]

lemma countsAsFile_iff {e : Entry} : countsAsFile e = true ↔ IsFileBelow e := by
  simp only [IsFileBelow, ← entryNames?_eq_some_iff, countsAsFile, Bool.and_eq_true, Bool.or_eq_true,
    beq_iff_eq, Option.any_eq_true, Bool.not_eq_true', List.isEmpty_eq_false_iff]
  exact and_congr_right fun _ => exists_congr fun _ => and_comm

instance (e : Entry) : Decidable (IsFileBelow e) := decidable_of_iff _ countsAsFile_iff

/-! ### Entries that are not safe -/

section Unsafe

variable {e : Entry} (h : IsUnsafe e)

include h

/-- An entry that is not safe is refused before anything is changed. -/
lemma unpackEntry_refused (fileOf : Entry → Instant → File) (dest : String) (m : Machine σ) :
    unpackEntry fileOf dest e m = (.error (.unsafeEntry e.path), m) := by
  unfold unpackEntry
  rw [run_bind]
  rcases isUnsafe_iff.mp h with hnone | ⟨hkind, names, hne, hnames⟩
  · rw [relativePath_of_none hnone]
    rfl
  · obtain ⟨rest, hrest, rfl⟩ := relativePath_of_names hnames
    have hnonempty : rest.isEmpty = false := by
      rw [← namesOf_isEmpty (relativePath_plain hrest)]
      simpa using hne
    rw [hrest]
    change (if rest.isEmpty then pure 0 else _ : Task σ ArchiveError Nat) m = _
    rw [hnonempty, if_neg Bool.false_ne_true, hkind]
    rfl

omit h in
lemma run_unpackEntries_cons (first : Entry) (rest : List Entry) (dest : String) (m : Machine σ) :
    unpackEntries dest (first :: rest) m =
      match unpackEntry unpackedFile dest first m with
      | (.ok one, between) =>
        match unpackEntries dest rest between with
        | (.ok others, last) => (.ok (one + others), last)
        | (.error err, last) => (.error err, last)
      | (.error err, between) => (.error err, between) := by
  rw [unpackEntries, run_bind]
  rcases unpackEntry unpackedFile dest first m with ⟨err | one, between⟩
  · rfl
  · dsimp only
    rw [run_bind]
    rcases unpackEntries dest rest between with ⟨err | others, last⟩
    · rfl
    · rfl

lemma unpackEntries_refused (dest : String) (before after : List Entry) (m : Machine σ) :
    unpackEntries dest (before ++ e :: after) m =
      match unpackEntries dest before m with
      | (.ok _, between) => (.error (.unsafeEntry e.path), between)
      | (.error err, between) => (.error err, between) := by
  induction before generalizing m with
  | nil =>
    rw [List.nil_append, run_unpackEntries_cons, unpackEntry_refused h]
    rfl
  | cons first before ih =>
    rw [List.cons_append, run_unpackEntries_cons, run_unpackEntries_cons]
    rcases unpackEntry unpackedFile dest first m with ⟨err | one, between⟩
    · rfl
    · dsimp only
      rw [ih]
      rcases unpackEntries dest before between with ⟨err | count, last⟩
      · rfl
      · rfl

end Unsafe

/-! ### Entries that are safe -/

/-- The task fails for the sake of files only. -/
def FailsByFiles {α : Type} (task : Task σ ArchiveError α) : Prop :=
  ∀ m err, (task m).1 = .error err → ∃ fault, err = .file fault

section Safe

variable {α β : Type}

lemma failsByFiles_pure (a : α) : FailsByFiles (pure a : Task σ ArchiveError α) := by
  intro m err h
  cases h

lemma failsByFiles_bind {x : Task σ ArchiveError α} {f : α → Task σ ArchiveError β} (hx : FailsByFiles x)
    (hf : ∀ a, FailsByFiles (f a)) : FailsByFiles (x >>= f) := by
  intro m err h
  rw [run_bind] at h
  have hfirst := hx m
  rcases hrun : x m with ⟨e | a, between⟩
  · rw [hrun] at h hfirst
    exact hfirst err (congrArg Except.error (Except.error.inj h))
  · rw [hrun] at h
    exact hf a between err h

lemma failsByFiles_bind_ok {wrap : ArchiveError → ArchiveError} {a : α} {f : α → Task σ ArchiveError β}
    (hf : FailsByFiles (f a)) : FailsByFiles (Task.ofExcept wrap (.ok a) >>= f) :=
  fun m err h => hf m err h

lemma failsByFiles_changeFiles (f : FileTree → Instant → Except FileFault FileTree) :
    FailsByFiles (Task.changeFiles .file f : Task σ ArchiveError Unit) := by
  intro m err h
  rw [run_changeFiles] at h
  cases hfiles : f m.files m.now with
  | ok files =>
    rw [hfiles] at h
    cases h
  | error fault =>
    rw [hfiles] at h
    exact ⟨fault, (Except.error.inj h).symm⟩

lemma failsByFiles_makeDirectories (path : String) :
    FailsByFiles (Task.makeDirectories .file path : Task σ ArchiveError Unit) := by
  intro m err h
  rw [run_makeDirectories] at h
  cases hfault : (m.files.makeDirectories path m.now).2 with
  | none =>
    rw [hfault] at h
    cases h
  | some fault =>
    rw [hfault] at h
    exact ⟨fault, (Except.error.inj h).symm⟩

lemma failsByFiles_makeParents (target : String) :
    FailsByFiles (makeParents target : Task σ ArchiveError Unit) := by
  unfold makeParents
  split
  · exact failsByFiles_makeDirectories _
  · exact failsByFiles_pure _

lemma failsByFiles_makeNamedDirectory (target : String) (e : Entry) :
    FailsByFiles (makeNamedDirectory target e : Task σ ArchiveError Unit) := by
  unfold makeNamedDirectory
  refine failsByFiles_bind (failsByFiles_changeFiles _) fun _ => ?_
  split
  · exact failsByFiles_changeFiles _
  · exact failsByFiles_pure _

lemma unpackEntry_safe {e : Entry} (h : ¬IsUnsafe e) (fileOf : Entry → Instant → File) (dest : String) :
    FailsByFiles (unpackEntry fileOf dest e : Task σ ArchiveError Nat) := by
  rw [isUnsafe_iff, not_or] at h
  obtain ⟨names, hnames⟩ := Option.ne_none_iff_exists'.mp h.1
  obtain ⟨rest, hrest, rfl⟩ := relativePath_of_names hnames
  unfold unpackEntry
  rw [hrest]
  refine failsByFiles_bind_ok ?_
  split
  · exact failsByFiles_pure _
  · rename_i hnonempty
    dsimp only
    split
    · exact failsByFiles_bind (failsByFiles_makeDirectories _) fun _ => failsByFiles_pure _
    · refine failsByFiles_bind (failsByFiles_makeParents _) fun _ => ?_
      exact failsByFiles_bind (failsByFiles_changeFiles _) fun _ => failsByFiles_pure _
    · refine failsByFiles_bind (failsByFiles_makeParents _) fun _ => ?_
      exact failsByFiles_bind (failsByFiles_makeNamedDirectory _ _) fun _ => failsByFiles_pure _
    · rename_i hkind
      -- such an entry is only safe where nothing is unpacked for it
      rw [← namesOf_isEmpty (relativePath_plain hrest)] at hnonempty
      exact (h.2 ⟨hkind, _, by simpa using hnonempty, hnames⟩).elim

lemma unpackEntries_safe {entries : List Entry} (h : ∀ e ∈ entries, ¬IsUnsafe e) (dest : String) :
    FailsByFiles (unpackEntries dest entries : Task σ ArchiveError Nat) := by
  induction entries with
  | nil => exact failsByFiles_pure _
  | cons e rest ih =>
    rw [List.forall_mem_cons] at h
    refine failsByFiles_bind (unpackEntry_safe h.1 _ dest) fun _ => ?_
    exact failsByFiles_bind (ih h.2) fun _ => failsByFiles_pure _

end Safe

/-! ### Archives -/

lemma unpackContents_of_error {dest : String} {c : Contents} {m m' : Machine σ} {err : ArchiveError}
    (h : unpackEntries dest c.entries m = (.error err, m')) :
    unpackContents dest c m = (.error err, m') := by
  rw [unpackContents, run_bind, h]

/-- Success takes entries that are all safe. -/
lemma safe_of_unpackEntries {dest : String} {entries : List Entry} {m m' : Machine σ} {count : Nat}
    (h : Gives (unpackEntries dest entries) m count m') : ∀ e ∈ entries, ¬IsUnsafe e := by
  intro e he hunsafe
  obtain ⟨before, after, rfl⟩ := List.append_of_mem he
  unfold Gives at h
  rw [unpackEntries_refused hunsafe] at h
  rcases hfront : unpackEntries dest before m with ⟨err | count, between⟩
  · rw [hfront] at h
    cases h
  · rw [hfront] at h
    cases h

lemma fileCount_eq (entries : List Entry) : fileCount entries = (entries.filter (IsFileBelow ·)).length := by
  rw [fileCount, List.countP_eq_length_filter]
  congr 1
  refine List.filter_congr fun e _ => ?_
  rw [Bool.eq_iff_iff, countsAsFile_iff, decide_eq_true_iff]

/-- Unpacking keeps to its destination however it ends, and no entry from the first one on that is not safe
has any effect. That entry is what is reported, unless the files failed it before. -/
theorem unpackContents_contained {dest : String} {w : Place} {m : Machine σ}
    (hclean : IsClean m.files dest w) (c : Contents) :
    ∃ (result : Except ArchiveError Nat) (files : FileTree),
      unpackContents dest c m = (result, { m with files }) ∧
      (∀ q, ¬IsBelow w q → files.get? q = m.files.get? q) ∧ LinkFree files w ∧
      (∀ before e after, c.entries = before ++ e :: after → (∀ e' ∈ before, ¬IsUnsafe e') → IsUnsafe e →
        (∃ count, unpackEntries dest before m = (.ok count, { m with files }) ∧
          result = .error (.unsafeEntry e.path)) ∨
        ∃ fault, unpackEntries dest before m = (.error (.file fault), { m with files }) ∧
          result = .error (.file fault)) ∧
      ∀ count, result = .ok count → c.ending = .complete ∧ (∀ e ∈ c.entries, ¬IsUnsafe e) ∧
        count = (c.entries.filter (IsFileBelow ·)).length := by
  have hkeeps := keeps_unpackContents (σ := σ) (c := c) (bears_staysWithin m.now m.files dest w)
    (fun _ _ => trivial) fun _ _ => trivial
  obtain ⟨files, hfiles, hstays⟩ := hkeeps m rfl ⟨within_refl w m.files, hclean⟩
  have hrun : unpackContents dest c m = ((unpackContents dest c m).1, { m with files }) :=
    Prod.ext rfl hfiles
  refine ⟨_, files, hrun, hstays.within.outside, hstays.clean.linkFree, ?_, ?_⟩
  · intro before e after hentries hbefore hunsafe
    have hall := unpackEntries_refused hunsafe dest before after m
    rw [← hentries] at hall
    rcases hfront : unpackEntries dest before m with ⟨err | count, between⟩
    · rw [hfront] at hall
      obtain ⟨fault, rfl⟩ := unpackEntries_safe hbefore dest m err (by rw [hfront])
      have hsame := hrun.symm.trans (unpackContents_of_error hall)
      obtain ⟨hresult, rfl⟩ := Prod.ext_iff.mp hsame
      exact .inr ⟨fault, rfl, hresult⟩
    · rw [hfront] at hall
      have hsame := hrun.symm.trans (unpackContents_of_error hall)
      obtain ⟨hresult, rfl⟩ := Prod.ext_iff.mp hsame
      exact .inl ⟨count, rfl, hresult⟩
  · intro count hcount
    rw [hcount] at hrun
    obtain ⟨hending, hentries⟩ := gives_unpackContents.mp hrun
    exact ⟨hending, safe_of_unpackEntries hentries,
      (unpackEntries_count hentries).trans (fileCount_eq c.entries)⟩

/-- A machine whose current directory is empty. -/
def emptyDirectory : Machine Unit := ⟨⟨.ofList [(["d"], .directory 0o755)], ["d"], ∅⟩, ⟨100, 0⟩, ()⟩

lemma isClean_emptyDirectory : IsClean emptyDirectory.files "." ["d"] := by
  refine isClean_here ⟨0o755, by rfl⟩ ?_
  intro names target hlink
  have hmem := (get?_eq_some _ _ _).mp hlink
  have hnodes : emptyDirectory.files.nodes.entries = [(["d"], .directory 0o755)] := by rfl
  rw [hnodes, List.mem_singleton] at hmem
  cases hmem

def textEntry (path : String) : Entry := ⟨path, .file, "x".toUTF8, some 1, some 0o644⟩

lemma isUnsafe_up : IsUnsafe (textEntry "workspace/../x") := by
  refine .inl fun names hnames => ?_
  have hcomponents : components (textEntry "workspace/../x").path = [.name base, .up, .name "x"] := by decide
  rw [hcomponents, List.cons.injEq] at hnames
  cases names with
  | nil => simp at hnames
  | cons name names => simp at hnames

lemma not_isUnsafe_textEntry {path : String} {names : Place}
    (h : components path = .name base :: names.map .name) : ¬IsUnsafe (textEntry path) := by
  rintro (hother | ⟨hkind, _⟩)
  · exact hother names h
  · cases hkind

/-- A file is unpacked, the way up is refused, and what comes after it is not looked at. -/
theorem unpackContents_contained_up : IsClean emptyDirectory.files "." ["d"] ∧ ∃ files,
    unpackContents "." ⟨[textEntry "workspace/a", textEntry "workspace/../x", textEntry "workspace/b"], .complete⟩
        emptyDirectory =
      (.error (.unsafeEntry "workspace/../x"), { emptyDirectory with files }) ∧
    fileAt files ["d", "a"] = some ⟨"x".toUTF8, ⟨1, 0⟩, 0o644⟩ ∧ fileAt files ["d", "b"] = none ∧
    files.get? ["x"] = none := by
  obtain ⟨result, files, hrun, houtside, _, hunsafe, _⟩ := unpackContents_contained isClean_emptyDirectory
    ⟨[textEntry "workspace/a", textEntry "workspace/../x", textEntry "workspace/b"], .complete⟩
  have hbefore : ∀ e ∈ [textEntry "workspace/a"], ¬IsUnsafe e := by
    intro e he
    rw [List.mem_singleton.mp he]
    have hpath : components "workspace/a" = .name base :: ["a"].map Component.name := by decide
    exact not_isUnsafe_textEntry hpath
  have hx : ¬IsBelow ["d"] ["x"] := by
    rintro ⟨names, _, hnames⟩
    simp at hnames
  refine ⟨isClean_emptyDirectory, files, ?_⟩
  rcases hunsafe [textEntry "workspace/a"] _ [textEntry "workspace/b"] rfl hbefore isUnsafe_up with
    ⟨count, hfront, rfl⟩ | ⟨fault, hfront, _⟩
  · have hfiles : (unpackEntries "." [textEntry "workspace/a"] emptyDirectory).2.files = files := by
      rw [hfront]
    refine ⟨hrun, ?_, ?_, houtside ["x"] hx⟩
    · rw [← hfiles]
      decide +kernel
    · rw [← hfiles]
      decide +kernel
  · have hok : (unpackEntries "." [textEntry "workspace/a"] emptyDirectory).1 = .ok 1 := by decide +kernel
    rw [hfront] at hok
    cases hok

/-- A name that no file can have ends the work as well, before the entry that is not safe is come to. -/
theorem badName_before_unsafeEntry : IsClean emptyDirectory.files "." ["d"] ∧
    ¬IsUnsafe (textEntry "workspace/a\x00") ∧ IsUnsafe (textEntry "workspace/../x") ∧
    (unpackContents "." ⟨[textEntry "workspace/a\x00", textEntry "workspace/../x"], .complete⟩
      emptyDirectory).1 = .error (.file .badName) := by
  have hpath : components "workspace/a\x00" = .name base :: ["a\x00"].map Component.name := by decide
  exact ⟨isClean_emptyDirectory, not_isUnsafe_textEntry hpath, isUnsafe_up, by decide +kernel⟩

end CrossBuild.Proofs
