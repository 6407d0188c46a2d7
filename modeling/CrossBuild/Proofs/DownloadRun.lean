import CrossBuild.Handoff.Download
import CrossBuild.Proofs.Unpacking
import CrossBuild.Proofs.WrittenFiles
import CrossBuild.Store.Memory
import Mathlib.Algebra.GroupWithZero.Nat

/-!
# Runs of a download

A download that succeeds reports the bundles that its request selects from the store, source by source
and in the order of the store's listings. The store is any one that serves some content; unpacking
changes nothing but files, so it goes on serving that content while the download runs.
-/

namespace CrossBuild.Proofs
open Handoff

variable {σ : Type}

/-! ### Unpacking -/

def stagingPath (workspace key : String) : String := Path.join (Path.join workspace stagingName) key

lemma liesBelow_stagingPath (workspace : String) {key : String} (hplain : Path.isPlain key = true) :
    LiesBelow workspace (stagingName :: namesOf key) (stagingPath workspace key) := by
  have hname : Path.isPlain stagingName = true := by decide
  have hstaging := ((liesBelow_refl workspace).join hname).join hplain
  rwa [List.nil_append, show namesOf stagingName = [stagingName] by decide] at hstaging

/-- What unpacking a bundle does: it puts the bundle below the staging directory, unpacks the entries
that are read from it there and takes it away. -/
lemma unpackBundle_run {workspace key : String} {data : ByteArray} {m m' : Machine σ} {count : Nat}
    (h : Gives (unpackBundle workspace key data) m count m') :
    Path.isPlain key = true ∧ (Archive.decode data).ending = .complete ∧
      count = fileCount (Archive.decode data).entries ∧ ∃ made written unpacked removed : FileTree,
        m.files.makeDirectories ((Path.parent? (stagingPath workspace key)).getD "") m.now = (made, none) ∧
        made.write (stagingPath workspace key) data m.now = .ok written ∧
        Gives (Archive.unpackEntries workspace (Archive.decode data).entries) { m with files := written } count
          { m with files := unpacked } ∧
        unpacked.remove (stagingPath workspace key) m.now = .ok removed ∧ m' = { m with files := removed } := by
  simp only [unpackBundle, gives_bind, gives_ofExcept, gives_makeDirectories, gives_get, gives_changeFiles,
    gives_widen, gives_pure] at h
  obtain ⟨_, _, ⟨hsafe, rfl⟩, _, _, ⟨made, hmake, rfl⟩, _, _, ⟨written, hwrite, rfl⟩, _, _, ⟨rfl, rfl⟩, archive, _,
    ⟨hread, rfl⟩, counted, between, hunpack, _, _, ⟨removed, hremove, rfl⟩, rfl, rfl⟩ := h
  unfold safePath at hsafe
  split at hsafe
  · rename_i hplain
    cases hsafe
    -- what is read is what was written, whatever else is in the tree
    obtain ⟨f, hfile, rfl, _⟩ := write_file hwrite
    obtain ⟨found, hfound, _, rfl⟩ := read_iff_file.mp hread
    cases hfile.symm.trans hfound
    obtain ⟨hending, hentries⟩ := gives_unpackContents.mp hunpack
    obtain ⟨unpacked, rfl, _⟩ :=
      (keeps_unpackEntries (bears_true m.now workspace) fun _ _ => trivial).gives hentries rfl trivial
    exact ⟨hplain, hending, unpackEntries_count hentries, made, written, unpacked, removed, hmake, hwrite,
      hentries, hremove, rfl⟩
  · cases hsafe

/-- A property of the files that bears what is done below the workspace is kept. -/
lemma Bears.unpackBundle {now : Instant} {I : FileTree → Prop} {workspace : String} {given : File → Prop}
    (hI : Bears now I workspace given) {key : String} {data : ByteArray}
    (hgiven : ∀ e ∈ (Archive.decode data).entries, given (Archive.unpackedFile e now)) {m m' : Machine σ}
    {count : Nat} (hnow : m.now = now) (hm : I m.files)
    (h : Gives (Handoff.unpackBundle workspace key data) m count m') : I m'.files := by
  obtain ⟨hplain, _, _, made, written, unpacked, removed, hmake, hwrite, hentries, hremove, rfl⟩ :=
    unpackBundle_run h
  have htarget := liesBelow_stagingPath workspace hplain
  have hne : stagingName :: namesOf key ≠ [] := by simp
  subst hnow
  have hmade := hI.makeParent htarget hne hm
  rw [show m.files.makeDirectories _ m.now = (made, none) from hmake] at hmade
  have hwritten : I written := hI.write hmade htarget hne hwrite
  obtain ⟨_, heq, hunpacked⟩ := (keeps_unpackEntries hI hgiven).gives hentries rfl hwritten
  cases heq
  exact hI.remove hunpacked htarget hne hremove

/-- The bundles are unpacked into the workspace one after another, and files go from one tree to
another by it. -/
inductive Unpacked (workspace : String) (now : Instant) :
    List (String × ByteArray) → FileTree → FileTree → Prop where
  | nil (t : FileTree) : Unpacked workspace now [] t t
  | cons {σ : Type} {key : String} {data : ByteArray} {rest : List (String × ByteArray)}
      {m m' : Machine σ} {count : Nat} {t : FileTree} (hnow : m.now = now)
      (hone : Gives (unpackBundle workspace key data) m count m')
      (hrest : Unpacked workspace now rest m'.files t) :
      Unpacked workspace now ((key, data) :: rest) m.files t

lemma Unpacked.append {workspace : String} {now : Instant} {bundles bundles' : List (String × ByteArray)}
    {t t' t'' : FileTree} (h : Unpacked workspace now bundles t t')
    (h' : Unpacked workspace now bundles' t' t'') :
    Unpacked workspace now (bundles ++ bundles') t t'' := by
  induction h with
  | nil => exact h'
  | cons hnow hone _ ih => exact .cons hnow hone (ih h')

/-- What unpacking one bundle keeps is kept by unpacking them all. -/
lemma Bears.unpacked {now : Instant} {I : FileTree → Prop} {workspace : String} {given : File → Prop}
    (hI : Bears now I workspace given) {bundles : List (String × ByteArray)} {t t' : FileTree}
    (h : Unpacked workspace now bundles t t')
    (hgiven : ∀ b ∈ bundles, ∀ e ∈ (Archive.decode b.2).entries, given (Archive.unpackedFile e now))
    (ht : I t) : I t' := by
  induction h with
  | nil => exact ht
  | cons hnow hone _ ih =>
    rw [List.forall_mem_cons] at hgiven
    exact ih hgiven.2 (hI.unpackBundle hgiven.1 hnow ht hone)

lemma unpackBundles_run {workspace : String} {bundles : List (String × ByteArray)} {m m' : Machine σ}
    {report : DownloadReport} (h : Gives (unpackBundles workspace bundles) m report m') :
    report.bundles = bundles.map (·.1) ∧
      report.files = (bundles.map fun b => fileCount (Archive.decode b.2).entries).sum ∧
      Unpacked workspace m.now bundles m.files m'.files ∧ ∃ files, m' = { m with files } := by
  induction bundles generalizing m report with
  | nil =>
    obtain ⟨rfl, rfl⟩ := gives_pure.mp h
    exact ⟨rfl, rfl, .nil _, m.files, rfl⟩
  | cons bundle rest ih =>
    obtain ⟨key, data⟩ := bundle
    simp only [unpackBundles, gives_bind, gives_pure] at h
    obtain ⟨count, between, hone, others, last, hrest, rfl, rfl⟩ := h
    obtain ⟨_, _, hcount, _, _, _, files, _, _, _, _, rfl⟩ := unpackBundle_run hone
    obtain ⟨hkeys, hfiles, hunpacked, files', hm'⟩ := ih hrest
    exact ⟨by simp [hkeys], by simp [hcount, hfiles], .cons rfl hone hunpacked, files', hm'⟩

lemma unpackBundles_holds {workspace : String} {holds : Machine σ → Prop}
    (hone : ∀ {m m' key data count}, holds m →
      Gives (unpackBundle workspace key data) m count m' → holds m')
    {bundles : List (String × ByteArray)} {m m' : Machine σ} {report : DownloadReport} (hm : holds m)
    (h : Gives (unpackBundles workspace bundles) m report m') : holds m' := by
  induction bundles generalizing m report with
  | nil =>
    obtain ⟨_, rfl⟩ := gives_pure.mp h
    exact hm
  | cons bundle rest ih =>
    simp only [unpackBundles, gives_bind, gives_pure] at h
    obtain ⟨_, _, hfirst, _, _, hrest, _, rfl⟩ := h
    exact ih (hone hm hfirst) hrest

/-! ### Stores -/

/-- On machines with a property that unpacking into the workspace does not take away, the store lists and
fetches what is in the content, and changes no files by it. -/
structure Serves (store : Store σ) (workspace : String) (holds : Machine σ → Prop) (content : Memory) :
    Prop where
  list : ∀ {m m' start listed}, holds m → Gives (store.list start) m listed m' →
    listed = content.listed start ∧ holds m' ∧ m'.files = m.files ∧ m'.now = m.now
  fetch : ∀ {m m' key data}, holds m → Gives (store.fetch key) m data m' →
    (content.get? key).map (·.data) = some data ∧ holds m' ∧ m'.files = m.files ∧ m'.now = m.now
  staged : ∀ {m : Machine σ} {files}, holds m →
    m.files.makeDirectories (Path.join workspace stagingName) m.now = (files, none) → holds { m with files }
  unpacked : ∀ {m m' key data count}, holds m →
    Gives (unpackBundle workspace key data) m count m' → holds m'

section Selection

variable {store : Store σ} {workspace : String} {holds : Machine σ → Prop} {content : Memory}

lemma fetchAll_run (hs : Serves store workspace holds content) {keys : List String} {m m' : Machine σ}
    {bundles : List (String × ByteArray)} (hm : holds m) (h : Gives (store.fetchAll keys) m bundles m') :
    bundles.map (·.1) = keys ∧ (∀ b ∈ bundles, (content.get? b.1).map (·.data) = some b.2) ∧
      holds m' ∧ m'.files = m.files ∧ m'.now = m.now := by
  induction keys generalizing m bundles with
  | nil =>
    obtain ⟨rfl, rfl⟩ := gives_pure.mp h
    exact ⟨rfl, by simp, hm, rfl, rfl⟩
  | cons key keys ih =>
    simp only [Store.fetchAll, gives_bind, gives_pure] at h
    obtain ⟨data, between, hfetch, others, last, hrest, rfl, rfl⟩ := h
    obtain ⟨hdata, hbetween, hfiles, hnow⟩ := hs.fetch hm hfetch
    obtain ⟨hkeys, hall, hlast, hfiles', hnow'⟩ := ih hbetween hrest
    refine ⟨by simp [hkeys], ?_, hlast, hfiles'.trans hfiles, hnow'.trans hnow⟩
    intro b hb
    rcases List.mem_cons.mp hb with rfl | hb
    · exact hdata
    · exact hall b hb

/-- The keys that a source selects. -/
def sourceKeys (content : Memory) (includes : List String) (source : BundleSource) : List String :=
  (content.listed source.start).filter (sourceFilter includes source).accepts

/-- The keys that a request selects, source by source. -/
def selectedKeys (content : Memory) (request : DownloadRequest) : List String :=
  request.sources.flatMap (sourceKeys content request.includes)

lemma takeSources_run {request : DownloadRequest} (hs : Serves store request.workspace holds content)
    {sources : List BundleSource} {m m' : Machine σ} {report : DownloadReport} (hm : holds m)
    (h : Gives (takeSources store request sources) m report m') :
    report.bundles = sources.flatMap (sourceKeys content request.includes) ∧
      ∃ bundles : List (String × ByteArray), bundles.map (·.1) = report.bundles ∧
        report.files = (bundles.map fun b => fileCount (Archive.decode b.2).entries).sum ∧
        (∀ b ∈ bundles, (content.get? b.1).map (·.data) = some b.2) ∧
        Unpacked request.workspace m.now bundles m.files m'.files := by
  induction sources generalizing m report with
  | nil =>
    obtain ⟨rfl, rfl⟩ := gives_pure.mp h
    exact ⟨rfl, [], rfl, rfl, by simp, .nil _⟩
  | cons source rest ih =>
    simp only [takeSources, Store.get, gives_bind, gives_widen, gives_pure] at h
    obtain ⟨own, between, ⟨listed, afterList, hlist, hfetch⟩, ownReport, next, hown, others, last, hrest,
      rfl, rfl⟩ := h
    obtain ⟨rfl, hafterList, hfiles, hnow⟩ := hs.list hm hlist
    obtain ⟨hkeys, hall, hbetween, hfiles', hnow'⟩ := fetchAll_run hs hafterList hfetch
    -- the next source is listed after these bundles are unpacked, so the store must still serve then
    have hnext := unpackBundles_holds hs.unpacked hbetween hown
    obtain ⟨hownKeys, hownFiles, hunpacked, files, rfl⟩ := unpackBundles_run hown
    obtain ⟨hrestKeys, bundles, hbundles, hcount, hdata, hunpackedRest⟩ := ih hnext hrest
    rw [hfiles', hfiles, hnow', hnow] at hunpacked
    rw [show ({ between with files } : Machine σ).now = m.now from hnow'.trans hnow] at hunpackedRest
    refine ⟨?_, own ++ bundles, ?_, ?_, ?_, hunpacked.append hunpackedRest⟩
    · rw [hownKeys, hkeys, hrestKeys, List.flatMap_cons]
      rfl
    · rw [List.map_append, hbundles, hownKeys]
    · rw [List.map_append, List.sum_append, hownFiles, hcount]
    · intro b hb
      rcases List.mem_append.mp hb with hb | hb
      · exact hall b hb
      · exact hdata b hb

/-- The store goes on serving its content while bundles are taken from it, and no time passes. -/
lemma takeSources_holds {request : DownloadRequest} (hs : Serves store request.workspace holds content)
    {sources : List BundleSource} {m m' : Machine σ} {report : DownloadReport} (hm : holds m)
    (h : Gives (takeSources store request sources) m report m') : holds m' ∧ m'.now = m.now := by
  induction sources generalizing m report with
  | nil =>
    obtain ⟨_, rfl⟩ := gives_pure.mp h
    exact ⟨hm, rfl⟩
  | cons source rest ih =>
    simp only [takeSources, Store.get, gives_bind, gives_widen, gives_pure] at h
    obtain ⟨_, _, ⟨_, _, hlist, hfetch⟩, _, _, hown, _, _, hrest, _, rfl⟩ := h
    obtain ⟨_, hlisted, _, hnow⟩ := hs.list hm hlist
    obtain ⟨_, _, hfetched, _, hnow'⟩ := fetchAll_run hs hlisted hfetch
    obtain ⟨hlast, hnow''⟩ := ih (unpackBundles_holds hs.unpacked hfetched hown) hrest
    obtain ⟨_, _, _, files, rfl⟩ := unpackBundles_run hown
    exact ⟨hlast, hnow''.trans (hnow'.trans hnow)⟩

end Selection

/-! ### Whole downloads -/

/-- Pruning the directories below a place and some more, each of which is listed by the path that leads to it
from the start of the walk. -/
abbrev pruneFrom (m : Machine σ) (path : String) (place : Place) : List Place → FileTree × Option HandoffError :=
  prune (fun d => m.files.canList (walkedPath path place d)) m.now m.files

lemma run_pruneWalked (path : String) (place : Place) (top : List Place) (m : Machine σ) :
    pruneWalked path place top m =
      (match (pruneFrom m path place (top ++ (directoriesBelow m.files place).map (place ++ ·))).2 with
        | none => .ok ()
        | some error => .error error,
        { m with files := (pruneFrom m path place (top ++ (directoriesBelow m.files place).map (place ++ ·))).1 }) := by
  unfold pruneWalked
  rw [run_bind, run_get]
  change (match (pruneFrom m path place _).2 with
    | none => pure ()
    | some error => throw error : Task σ HandoffError Unit) { m with files := (pruneFrom m path place _).1 } = _
  rcases pruneFrom m path place _ with ⟨files, _ | error⟩ <;> rfl

lemma gives_pruneWalked {path : String} {place : Place} {top : List Place} {m m' : Machine σ} {u : Unit} :
    Gives (pruneWalked path place top) m u m' ↔
      ∃ files, pruneFrom m path place (top ++ (directoriesBelow m.files place).map (place ++ ·)) = (files, none) ∧
        m' = { m with files } := by
  rw [gives_iff _ _ (run_pruneWalked path place top m)]
  generalize pruneFrom m path place _ = result
  obtain ⟨files, _ | error⟩ := result
  · simp [eq_comm]
  · simp

/-- What pruning does that succeeds: it deals with some directories, which are the one that the path leads
to and those below it if it leads to one. -/
lemma pruneStaging_run {path : String} {m m' : Machine σ} {u : Unit}
    (h : Gives (pruneStaging path) m u m') : ∃ place files directories,
      m.files.spot false path = .ok (.taken place) ∧ (∀ d ∈ directories, DirectoryAt m.files d) ∧
      (DirectoryAt m.files place → directories = branch m.files place) ∧
      (∃ canList, prune canList m.now m.files directories = (files, none)) ∧ m' = { m with files } := by
  simp only [pruneStaging, gives_bind, gives_get] at h
  obtain ⟨_, _, ⟨rfl, rfl⟩, h⟩ := h
  split at h
  · rename_i place hspot
    split at h
    · rename_i mode hmode
      obtain ⟨files, hprune, rfl⟩ := gives_pruneWalked.mp h
      exact ⟨place, files, _, hspot, directoryAt_of_mem_branch ⟨mode, hmode⟩, fun _ => rfl, ⟨_, hprune⟩, rfl⟩
    · rename_i target hlink
      have hnot : ¬DirectoryAt m.files place := by
        rintro ⟨mode, hmode⟩
        rw [hlink] at hmode
        cases hmode
      split at h
      · rename_i goal hgoal
        split at h
        · obtain ⟨_, rfl⟩ := gives_pure.mp h
          exact ⟨place, m.files, [], hspot, by simp, fun hdir => (hnot hdir).elim, ⟨fun _ => true, by rw [prune]⟩, rfl⟩
        · split at h
          · obtain ⟨files, hprune, rfl⟩ := gives_pruneWalked.mp h
            refine ⟨place, files, _, hspot, fun d hd => ?_, fun hdir => (hnot hdir).elim, ⟨_, hprune⟩, rfl⟩
            obtain ⟨names, hnames, rfl⟩ := List.mem_map.mp hd
            exact (mem_directoriesBelow.mp hnames).2
          · exact (gives_throw h).elim
      · exact (gives_throw h).elim
    · rename_i hnot _
      obtain ⟨_, rfl⟩ := gives_pure.mp h
      exact ⟨place, m.files, [], hspot, by simp, fun hdir => (Exists.elim hdir hnot).elim,
        ⟨fun _ => true, by rw [prune]⟩, rfl⟩
  · exact (gives_throw h).elim

/-- What a successful download does: it makes the staging directory, unpacks the selected bundles one
after another and prunes the staging directory. -/
theorem download_run {store : Store σ} {holds : Machine σ → Prop} {content : Memory}
    {request : DownloadRequest} (hs : Serves store request.workspace holds content) {m m' : Machine σ}
    {report : DownloadReport} (hm : holds m) (h : Gives (download store request) m report m') :
    report.bundles = selectedKeys content request ∧
      ∃ (bundles : List (String × ByteArray)) (staged unpacked : FileTree),
        bundles.map (·.1) = report.bundles ∧
        report.files = (bundles.map fun b => fileCount (Archive.decode b.2).entries).sum ∧
        (∀ b ∈ bundles, (content.get? b.1).map (·.data) = some b.2) ∧
        m.files.makeDirectories (Path.join request.workspace stagingName) m.now = (staged, none) ∧
        Unpacked request.workspace m.now bundles staged unpacked ∧
        ∃ place directories, unpacked.spot false (Path.join request.workspace stagingName) = .ok (.taken place) ∧
          (∀ d ∈ directories, DirectoryAt unpacked d) ∧
          (DirectoryAt unpacked place → directories = branch unpacked place) ∧
          ∃ canList now, prune canList now unpacked directories = (m'.files, none) := by
  simp only [download, gives_bind, gives_makeDirectories, gives_pure] at h
  obtain ⟨_, _, ⟨staged, hstaged, rfl⟩, taken, between, htake, _, last, hprune, rfl, rfl⟩ := h
  obtain ⟨hkeys, bundles, hbundles, hcount, hdata, hunpacked⟩ :=
    takeSources_run hs (hs.staged hm hstaged) htake
  obtain ⟨place, _, directories, hspot, hdirs, hbranch, ⟨canList, hpruned⟩, rfl⟩ := pruneStaging_run hprune
  exact ⟨hkeys, bundles, staged, between.files, hbundles, hcount, hdata, hstaged, hunpacked, place, directories,
    hspot, hdirs, hbranch, canList, _, hpruned⟩

/-- A download ends with the store as it is while bundles are taken from it. -/
lemma download_holds {store : Store σ} {holds : Machine σ → Prop} {content : Memory}
    {request : DownloadRequest} (hs : Serves store request.workspace holds content) {m m' : Machine σ}
    {report : DownloadReport} (hm : holds m) (h : Gives (download store request) m report m') :
    ∃ between : Machine σ, holds between ∧ between.now = m.now ∧ ∃ files, m' = { between with files } := by
  simp only [download, gives_bind, gives_makeDirectories, gives_pure] at h
  obtain ⟨_, _, ⟨staged, hstaged, rfl⟩, _, between, htake, _, _, hprune, _, rfl⟩ := h
  obtain ⟨hbetween, hnow⟩ := takeSources_holds hs (hs.staged hm hstaged) htake
  obtain ⟨_, files, _, _, _, _, _, rfl⟩ := pruneStaging_run hprune
  exact ⟨between, hbetween, hnow, files, rfl⟩

/-! ### What it takes to succeed -/

/-- A store in memory hands out the bundles under the keys that a filter lets pass. -/
lemma memory_get (r : Retention) {m : Machine Memory} {start : String} {filter : KeyFilter}
    {bundles : List (String × ByteArray)}
    (hkeys : (m.service.listed start).filter filter.accepts = bundles.map (·.1))
    (hdata : ∀ b ∈ bundles, (m.service.get? b.1).map (·.data) = some b.2) :
    Gives ((Memory.store r).get start filter) m bundles m := by
  have hlist : Gives ((Memory.store r).list start) m (m.service.listed start) m :=
    gives_bind.mpr ⟨m, m, gives_get.mpr ⟨rfl, rfl⟩, gives_pure.mpr ⟨rfl, rfl⟩⟩
  refine gives_bind.mpr ⟨_, m, hlist, ?_⟩
  rw [hkeys]
  clear hkeys hlist
  induction bundles with
  | nil => exact gives_pure.mpr ⟨rfl, rfl⟩
  | cons b rest ih =>
    obtain ⟨blob, hblob, hb⟩ := Option.map_eq_some_iff.mp (hdata b (by simp))
    have hfetch : Gives ((Memory.store r).fetch b.1) m b.2 m := by
      refine gives_bind.mpr ⟨m, m, gives_get.mpr ⟨rfl, rfl⟩, ?_⟩
      rw [hblob]
      exact gives_pure.mpr ⟨hb, rfl⟩
    refine gives_bind.mpr ⟨b.2, m, hfetch, ?_⟩
    exact gives_bind.mpr ⟨rest, m, ih (fun b' hb' => hdata b' (List.mem_cons_of_mem _ hb')),
      gives_pure.mpr ⟨rfl, rfl⟩⟩

open Archive in
/-- A file is unpacked once its parents are there. -/
lemma unpackEntry_gives {dest rest : String} {e : Entry} (hpath : relativePath e.path = .ok rest)
    (hne : rest.isEmpty = false) (hkind : e.kind = .file) {m : Machine σ} {made placed : FileTree}
    (hparents : Gives (makeParents (Path.join dest rest)) m () { m with files := made })
    (hplaced : made.replace (Path.join dest rest) (unpackedFile e m.now) m.now = .ok placed) :
    Gives (unpackEntry unpackedFile dest e) m 1 { m with files := placed } := by
  unfold unpackEntry
  refine gives_bind.mpr ⟨rest, m, gives_ofExcept.mpr ⟨hpath, rfl⟩, ?_⟩
  rw [hne, if_neg Bool.false_ne_true, hkind]
  refine gives_bind.mpr ⟨(), _, hparents, ?_⟩
  exact gives_bind.mpr ⟨(), _, gives_changeFiles.mpr ⟨placed, hplaced, rfl⟩, gives_pure.mpr ⟨rfl, rfl⟩⟩

open Archive in
/-- What a bundle takes on the files alone, step by step. -/
lemma unpackBundle_gives {workspace key : String} {data : ByteArray} {contents : Contents}
    (hdecode : decode data = contents) (hplain : Path.isPlain key = true) {m : Machine σ}
    {made written unpacked removed : FileTree} {count : Nat}
    (hmade : m.files.makeDirectories
      ((Path.parent? (stagingPath workspace key)).getD "") m.now = (made, none))
    (hwritten : made.write (stagingPath workspace key) data m.now = .ok written)
    (hread : written.read (stagingPath workspace key) = .ok data)
    (hunpacked : Gives (unpackContents workspace contents) { m with files := written } count
      { m with files := unpacked })
    (hremoved : unpacked.remove (stagingPath workspace key) m.now = .ok removed) :
    Gives (unpackBundle workspace key data) m count { m with files := removed } := by
  have hsafe : safePath key = .ok key := by rw [safePath, if_pos hplain]
  unfold unpackBundle
  refine gives_bind.mpr ⟨key, m, gives_ofExcept.mpr ⟨hsafe, rfl⟩, ?_⟩
  refine gives_bind.mpr ⟨(), _, gives_makeDirectories.mpr ⟨made, hmade, rfl⟩, ?_⟩
  refine gives_bind.mpr ⟨(), _, gives_changeFiles.mpr ⟨written, hwritten, rfl⟩, ?_⟩
  refine gives_bind.mpr ⟨_, _, gives_get.mpr ⟨rfl, rfl⟩, ?_⟩
  refine gives_bind.mpr ⟨data, _, gives_ofExcept.mpr ⟨hread, rfl⟩, ?_⟩
  refine gives_bind.mpr ⟨count, { m with files := unpacked }, gives_widen.mpr ?_, ?_⟩
  · rw [Archive.unpack, hdecode]
    exact hunpacked
  · exact gives_bind.mpr ⟨(), _, gives_changeFiles.mpr ⟨removed, hremoved, rfl⟩, gives_pure.mpr ⟨rfl, rfl⟩⟩

lemma unpackBundles_gives {workspace key : String} {data : ByteArray} {rest : List (String × ByteArray)}
    {m between m' : Machine σ} {count : Nat} {report : DownloadReport}
    (hone : Gives (unpackBundle workspace key data) m count between)
    (hrest : Gives (unpackBundles workspace rest) between report m') :
    Gives (unpackBundles workspace ((key, data) :: rest)) m
      ⟨key :: report.bundles, count + report.files⟩ m' :=
  gives_bind.mpr ⟨count, between, hone, gives_bind.mpr ⟨report, m', hrest, gives_pure.mpr ⟨rfl, rfl⟩⟩⟩

lemma pruneStaging_gives {path : String} {m : Machine σ} {place : Place} {mode : Nat} {files : FileTree}
    (hspot : m.files.spot false path = .ok (.taken place))
    (hplace : m.files.get? place = some (.directory mode))
    (hpruned : pruneFrom m path place (branch m.files place) = (files, none)) :
    Gives (pruneStaging path) m () { m with files } := by
  refine gives_bind.mpr ⟨m, m, gives_get.mpr ⟨rfl, rfl⟩, ?_⟩
  rw [hspot]
  dsimp only
  rw [hplace]
  exact gives_pruneWalked.mpr ⟨files, hpruned, rfl⟩

/-- A download from one source. -/
lemma download_gives {store : Store σ} {request : DownloadRequest} {source : BundleSource}
    (hsource : request.sources = [source]) {m : Machine σ} {staged unpacked pruned : FileTree}
    {bundles : List (String × ByteArray)} {report : DownloadReport}
    (hstaged : m.files.makeDirectories (Path.join request.workspace stagingName) m.now = (staged, none))
    (hget : Gives (store.get source.start (sourceFilter request.includes source))
      { m with files := staged } bundles { m with files := staged })
    (hunpacked : Gives (unpackBundles request.workspace bundles) { m with files := staged } report
      { m with files := unpacked })
    (hpruned : Gives (pruneStaging (Path.join request.workspace stagingName))
      { m with files := unpacked } () { m with files := pruned }) :
    Gives (download store request) m report { m with files := pruned } := by
  unfold download
  refine gives_bind.mpr ⟨(), _, gives_makeDirectories.mpr ⟨staged, hstaged, rfl⟩, ?_⟩
  refine gives_bind.mpr ⟨report, { m with files := unpacked }, ?_, ?_⟩
  · rw [hsource, takeSources]
    refine gives_bind.mpr ⟨bundles, _, gives_widen.mpr hget, ?_⟩
    refine gives_bind.mpr ⟨report, _, hunpacked, ?_⟩
    refine gives_bind.mpr ⟨⟨[], 0⟩, _, gives_pure.mpr ⟨rfl, rfl⟩, gives_pure.mpr ⟨?_, rfl⟩⟩
    rw [List.append_nil, Nat.add_zero]
  · exact gives_bind.mpr ⟨(), _, hpruned, gives_pure.mpr ⟨rfl, rfl⟩⟩

end CrossBuild.Proofs
