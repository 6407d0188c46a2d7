import CrossBuild.Proofs.ArchiveEntries
import CrossBuild.Proofs.BundleChoice
import CrossBuild.Proofs.Overlay

/-!
# Which copy of a file stays

Of several bundles with a file of one name, a staged job keeps the copy from the bundle whose key comes
last in the store's order. Keys are ordered as texts, so this goes by the names of the stages: the order
in which a pipeline runs them has no say in it.
-/

namespace CrossBuild.Proofs
open Archive CommandLine Handoff

variable {σ : Type}

/-! ### The order of keys -/

lemma compare_eq_lt {a b : String} : compare a b = .lt ↔ a < b := compareOfLessAndEq_eq_lt

/-- The copy of a file that a bundle of the store has: the last one in it. -/
def copyIn? (content : Memory) (names : Place) (key : String) : Option Entry :=
  (content.get? key).bind fun blob => lastFile? names (decode blob.data).entries

/-- The opening download of a job takes the bundle from the job's own pipeline. -/
structure IsTaken (store : StoreOptions) (options : DownloadOptions) (k : BundleKey) : Prop where
  accepted : IsAccepted k
  own : k.pipelineId = store.pipelineId
  passes : (sourceFilter options.includes
    ⟨BundleKey.pipelineStart store.pipelineId, options.excludes⟩).accepts k.text = true

lemma IsTaken.failed {store : StoreOptions} {options : DownloadOptions} {k : BundleKey}
    (h : IsTaken store options k) : k.failed = false := by
  rw [Bool.eq_false_iff]
  intro hfailed
  have hexcluded := (accepts_eq_true _ _).mp h.passes
  have hglob := hexcluded.2 KeyFilter.failedGlob ((mem_excludes_excludingFailed _ _).mpr (.inr rfl))
  rw [isMatch_failedGlob_of_failed hfailed] at hglob
  cases hglob

lemma IsTaken.mem_sourceKeys {store : StoreOptions} {options : DownloadOptions} {k : BundleKey}
    (h : IsTaken store options k) {content : Memory} {names : Place} {e : Entry}
    (hcopy : copyIn? content names k.text = some e) : k.text ∈ sourceKeys content options.includes
      ⟨BundleKey.pipelineStart store.pipelineId, options.excludes⟩ := by
  obtain ⟨blob, hblob, _⟩ := Option.bind_eq_some_iff.mp hcopy
  have hid := h.accepted.hasPieces.pipelineId
  refine Proofs.mem_sourceKeys.mpr ⟨?_, ?_, h.passes⟩
  · exact List.mem_map_of_mem ((get?_eq_some content k.text blob).mp hblob)
  · rw [← h.own]
    exact (startsWith_pipelineStart hid hid).mpr rfl

/-! ### The test job of the first host -/

/-- What the test job of the first host downloads. -/
def testOptions : DownloadOptions :=
  ⟨platformGlobs ["centos7"], (Catalog.v2.fromStage .host "test").map KeyFilter.stageGlob, none⟩

def testStore : StoreOptions := ⟨none, none, "1", "."⟩

def testRequest : DownloadRequest := testStore.downloadRequest testOptions

lemma sources_test : testRequest.sources = [⟨"1/", testOptions.excludes⟩] := by rfl

/-- The bundle of the first host's job in a stage. -/
def sampleKey (stage : String) : BundleKey := ⟨"1", stage, stage ++ ":centos7", false⟩

/-- A file in an archive. -/
def sampleEntry (path text : String) : Entry :=
  ⟨"workspace/" ++ path, .file, text.toUTF8, some 1, some 0o644⟩

/-- What the build has. -/
def buildEntries : List Entry := [sampleEntry "out" "build"]

/-- What the prerequisites have. Where there is a link, they have another path to the same file. -/
def prereqsEntries (linked : Bool) : List Entry :=
  sampleEntry "out" "prereqs" :: if linked then [sampleEntry "self/out" "alias"] else []

/-- The copy of the file that is unpacked last. -/
def lastOut (linked : Bool) : Entry :=
  if linked then sampleEntry "self/out" "alias" else sampleEntry "out" "prereqs"

lemma isStorable_sampleEntry {e : Entry} (h : e = sampleEntry "out" "build" ∨
    e = sampleEntry "out" "prereqs" ∨ e = sampleEntry "self/out" "alias") : IsStorable e := by
  rcases h with rfl | rfl | rfl
  all_goals
    refine ⟨?_, ?_, .inr ⟨rfl, ?_⟩, ?_, ⟨0o644, by decide, rfl⟩, ⟨1, rfl, by decide, by decide⟩⟩
    · decide +kernel
    · decide +kernel
    · decide +kernel
    · decide +kernel

lemma decode_build : decode (encode buildEntries) = ⟨buildEntries, .complete⟩ := by
  refine decode_encode fun e he => ?_
  rw [buildEntries, List.mem_singleton] at he
  exact isStorable_sampleEntry (.inl he)

lemma decode_prereqs (linked : Bool) :
    decode (encode (prereqsEntries linked)) = ⟨prereqsEntries linked, .complete⟩ := by
  refine decode_encode fun e he => ?_
  cases linked with
  | false =>
    simp only [prereqsEntries, Bool.false_eq_true, if_false, List.mem_singleton] at he
    exact isStorable_sampleEntry (.inr (.inl he))
  | true =>
    simp only [prereqsEntries, if_true, List.mem_cons, List.not_mem_nil, or_false] at he
    exact isStorable_sampleEntry (.inr he)

lemma compare_prereqs_build :
    compare (sampleKey "prereqs").text (sampleKey "build").text = .gt := by
  decide +kernel

/-- A store with both bundles. -/
def sampleStore (linked : Bool) : Memory where
  entries := [((sampleKey "build").text, ⟨encode buildEntries, none, none⟩),
    ((sampleKey "prereqs").text, ⟨encode (prereqsEntries linked), none, none⟩)]
  increasing := by
    rw [List.pairwise_pair]
    exact Std.OrientedCmp.lt_of_gt compare_prereqs_build

lemma get?_build (linked : Bool) :
    (sampleStore linked).get? (sampleKey "build").text = some ⟨encode buildEntries, none, none⟩ :=
  (get?_eq_some _ _ _).mpr (by simp [sampleStore])

lemma get?_prereqs (linked : Bool) : (sampleStore linked).get? (sampleKey "prereqs").text =
    some ⟨encode (prereqsEntries linked), none, none⟩ :=
  (get?_eq_some _ _ _).mpr (by simp [sampleStore])

lemma sourceKeys_test (linked : Bool) :
    sourceKeys (sampleStore linked) testOptions.includes ⟨"1/", testOptions.excludes⟩ =
      [(sampleKey "build").text, (sampleKey "prereqs").text] := by
  have hkeys : (sampleStore linked).keys = [(sampleKey "build").text, (sampleKey "prereqs").text] := rfl
  rw [sourceKeys, Memory.listed, hkeys]
  decide +kernel

def sampleTime : Instant := ⟨100, 0⟩

def outNode (e : Entry) : FileNode := .file (unpackedFile e sampleTime)

/-- A workspace with some directories for staging. A link in it may lead to the workspace itself. -/
def sampleTree (linked : Bool) (out : Option Entry) (staging : List Place) : FileTree :=
  ⟨.ofList ((["w"], .directory 0o755) :: (if linked then [(["w", "self"], .link ".")] else []) ++
    (out.map fun e => (["w", "out"], outNode e)).toList ++
    staging.map fun names => ("w" :: stagingName :: names, .directory 0o755)), ["w"], ∅⟩

/-- The workspace once its entries have changed, and those of some directories for staging. -/
def changedTree (linked : Bool) (out : Option Entry) (staging changed : List Place) : FileTree :=
  { sampleTree linked out staging with
    changes := .ofList ((["w"], sampleTime) :: changed.map fun names => ("w" :: stagingName :: names, sampleTime)) }

/-- The tree after a bundle has been staged. -/
def withStaged (t : FileTree) (k : BundleKey) (data : ByteArray) : FileTree :=
  t.set ("w" :: stagingName :: namesOf k.text) (.file ⟨data, sampleTime, 0o644⟩)

def stagedPath (k : BundleKey) : String := Path.join (Path.join "." stagingName) k.text

def withOut (t : FileTree) (e : Entry) : FileTree := t.set ["w", "out"] (outNode e)

def buildStaging : List Place := [[], ["1"], ["1", "build"]]

def prereqsStaging : List Place := buildStaging ++ [["1", "prereqs"]]

def sampleMachine (linked : Bool) (out : Option Entry) (staging : List Place) : Machine Memory :=
  ⟨sampleTree linked out staging, sampleTime, sampleStore linked⟩

def changedMachine (linked : Bool) (out : Option Entry) (staging changed : List Place) : Machine Memory :=
  ⟨changedTree linked out staging changed, sampleTime, sampleStore linked⟩

/-! ### Its download -/

section Steps

variable (linked : Bool) {data : ByteArray} (content : Memory)

-- The data stays a variable here, as comparing trees must not compute archives.
lemma unpack_build (hdecode : decode data = ⟨buildEntries, .complete⟩) :
    Gives (unpackBundle "." (sampleKey "build").text data)
      ⟨changedTree linked none [[]] [[]], sampleTime, content⟩ 1
      ⟨changedTree linked (some (sampleEntry "out" "build")) buildStaging buildStaging, sampleTime, content⟩ := by
  let made := changedTree linked none buildStaging buildStaging
  let staged := withStaged made (sampleKey "build") data
  let placed := withOut staged (sampleEntry "out" "build")
  have hmade : (changedTree linked none [[]] [[]]).makeDirectories
      ((Path.parent? (stagedPath (sampleKey "build"))).getD "") sampleTime = (made, none) := by
    cases linked <;> decide +kernel
  have hwritten : made.write (stagedPath (sampleKey "build")) data sampleTime = .ok staged := by
    cases linked <;> rfl
  have hfile : staged.file (stagedPath (sampleKey "build")) = .ok ⟨data, sampleTime, 0o644⟩ := by
    cases linked <;> rfl
  have hunpacked : Gives (unpackContents "." ⟨buildEntries, .complete⟩)
      ⟨staged, sampleTime, content⟩ 1 ⟨placed, sampleTime, content⟩ := by
    cases linked <;> rfl
  have hremoved : placed.remove (stagedPath (sampleKey "build")) sampleTime =
      .ok (changedTree linked (some (sampleEntry "out" "build")) buildStaging buildStaging) := by
    cases linked <;> rfl
  exact unpackBundle_gives hdecode (by decide) hmade hwritten (read_of_file hfile (by decide))
    hunpacked hremoved

/-- The entry with the other path goes through the link to the file that is there. -/
lemma unpackEntry_alias {t : FileTree} (ht : t = withOut (withStaged
    (changedTree true (some (sampleEntry "out" "build")) prereqsStaging prereqsStaging) (sampleKey "prereqs") data)
      (sampleEntry "out" "prereqs")) :
    Gives (unpackEntry unpackedFile "." (sampleEntry "self/out" "alias")) ⟨t, sampleTime, content⟩ 1
      ⟨withOut t (sampleEntry "self/out" "alias"), sampleTime, content⟩ := by
  have hpath : relativePath (sampleEntry "self/out" "alias").path = .ok "self/out" := by rfl
  have hparents : Gives (makeParents (Path.join "." "self/out")) ⟨t, sampleTime, content⟩ ()
      ⟨t, sampleTime, content⟩ := by
    subst ht
    rfl
  have hspot : t.spot false (Path.join "." "self/out") = .ok (.taken ["w", "out"]) := by
    subst ht
    rfl
  have hreplaceable : t.checkReplaceable ["w", "out"] = .ok () := by
    subst ht
    rfl
  -- the workspace was changed at this time before
  have hchanged : t.changed ["w"] sampleTime = t := by
    subst ht
    rfl
  refine unpackEntry_gives hpath (by decide) rfl hparents ?_
  rw [FileTree.replace, hspot]
  simp only [bind, Except.bind, hreplaceable]
  change Except.ok ((t.changed ["w"] sampleTime).set ["w", "out"] _) = _
  rw [hchanged]
  rfl

lemma unpack_prereqs (hdecode : decode data = ⟨prereqsEntries linked, .complete⟩) :
    ∃ count, Gives (unpackBundle "." (sampleKey "prereqs").text data)
      ⟨changedTree linked (some (sampleEntry "out" "build")) buildStaging buildStaging, sampleTime, content⟩ count
      ⟨changedTree linked (some (lastOut linked)) prereqsStaging prereqsStaging, sampleTime, content⟩ := by
  let made := changedTree linked (some (sampleEntry "out" "build")) prereqsStaging prereqsStaging
  let staged := withStaged made (sampleKey "prereqs") data
  let first := withOut staged (sampleEntry "out" "prereqs")
  let placed := withOut first (lastOut linked)
  have hmade : (changedTree linked (some (sampleEntry "out" "build")) buildStaging buildStaging).makeDirectories
      ((Path.parent? (stagedPath (sampleKey "prereqs"))).getD "") sampleTime = (made, none) := by
    cases linked <;> rfl
  have hwritten : made.write (stagedPath (sampleKey "prereqs")) data sampleTime = .ok staged := by
    cases linked <;> rfl
  have hfile : staged.file (stagedPath (sampleKey "prereqs")) = .ok ⟨data, sampleTime, 0o644⟩ := by
    cases linked <;> rfl
  have hfirst : Gives (unpackEntry unpackedFile "." (sampleEntry "out" "prereqs"))
      ⟨staged, sampleTime, content⟩ 1 ⟨first, sampleTime, content⟩ := by
    cases linked <;> rfl
  have hentries : ∃ count, Gives (unpackEntries "." (prereqsEntries linked))
      ⟨staged, sampleTime, content⟩ count ⟨placed, sampleTime, content⟩ := by
    cases linked with
    | false => exact ⟨1, gives_bind.mpr ⟨1, _, hfirst, rfl⟩⟩
    | true =>
      have hsecond : Gives (unpackEntries "." [sampleEntry "self/out" "alias"])
          ⟨first, sampleTime, content⟩ 1 ⟨placed, sampleTime, content⟩ :=
        gives_bind.mpr ⟨1, _, unpackEntry_alias content rfl, rfl⟩
      exact ⟨2, gives_bind.mpr ⟨1, _, hfirst, gives_bind.mpr ⟨1, _, hsecond, rfl⟩⟩⟩
  have hremoved : placed.remove (stagedPath (sampleKey "prereqs")) sampleTime =
      .ok (changedTree linked (some (lastOut linked)) prereqsStaging prereqsStaging) := by
    cases linked <;> rfl
  obtain ⟨count, hentries⟩ := hentries
  have hunpacked : Gives (unpackContents "." ⟨prereqsEntries linked, .complete⟩)
      ⟨staged, sampleTime, content⟩ count ⟨placed, sampleTime, content⟩ :=
    gives_bind.mpr ⟨count, _, hentries, gives_pure.mpr ⟨rfl, rfl⟩⟩
  exact ⟨count, unpackBundle_gives hdecode (by decide) hmade hwritten
    (read_of_file hfile (by decide)) hunpacked hremoved⟩

end Steps

/-- The two bundles as a store hands them out. -/
def sampleBoth (linked : Bool) : List (String × ByteArray) :=
  [((sampleKey "build").text, encode buildEntries),
    ((sampleKey "prereqs").text, encode (prereqsEntries linked))]

lemma get_test (linked : Bool) (files : FileTree) :
    Gives ((Memory.store .standard).get "1/"
        (sourceFilter testOptions.includes ⟨"1/", testOptions.excludes⟩))
      ⟨files, sampleTime, sampleStore linked⟩ (sampleBoth linked) ⟨files, sampleTime, sampleStore linked⟩ := by
  refine memory_get _ (sourceKeys_test linked) ?_
  intro b hb
  simp only [sampleBoth, List.mem_cons, List.not_mem_nil, or_false] at hb
  rcases hb with rfl | rfl
  · simp only [get?_build, Option.map_some]
  · simp only [get?_prereqs, Option.map_some]

lemma unpack_test (linked : Bool) : ∃ report, Gives (unpackBundles "." (sampleBoth linked))
    (changedMachine linked none [[]] [[]]) report
    (changedMachine linked (some (lastOut linked)) prereqsStaging prereqsStaging) := by
  have hbuild := unpack_build linked (sampleStore linked) decode_build
  obtain ⟨count, hprereqs⟩ := unpack_prereqs linked (sampleStore linked) (decode_prereqs linked)
  have hnone : Gives (unpackBundles "." [])
      (changedMachine linked (some (lastOut linked)) prereqsStaging prereqsStaging) ⟨[], 0⟩
      (changedMachine linked (some (lastOut linked)) prereqsStaging prereqsStaging) :=
    gives_pure.mpr ⟨rfl, rfl⟩
  exact ⟨_, unpackBundles_gives hbuild (unpackBundles_gives hprereqs hnone)⟩

lemma prune_test (linked : Bool) : Gives (pruneStaging (Path.join "." stagingName))
    (changedMachine linked (some (lastOut linked)) prereqsStaging prereqsStaging) ()
    (changedMachine linked (some (lastOut linked)) [] prereqsStaging) := by
  let unpacked := changedTree linked (some (lastOut linked)) prereqsStaging prereqsStaging
  have hspot : unpacked.spot false (Path.join "." stagingName) = .ok (.taken ["w", stagingName]) := by
    cases linked <;> rfl
  have hplace : unpacked.get? ["w", stagingName] = some (.directory 0o755) := by
    cases linked <;> rfl
  have hbelow : directoriesBelow unpacked ["w", stagingName] = prereqsStaging.tail := by
    cases linked <;> rfl
  have hpruned : prune (fun d => unpacked.canList (walkedPath (Path.join "." stagingName) ["w", stagingName] d))
      sampleTime unpacked (branch unpacked ["w", stagingName]) =
      (changedTree linked (some (lastOut linked)) [] prereqsStaging, none) := by
    rw [branch, hbelow]
    cases linked <;> decide +kernel
  exact pruneStaging_gives (m := changedMachine linked (some (lastOut linked)) prereqsStaging prereqsStaging)
    hspot hplace hpruned

lemma download_test (linked : Bool) : ∃ report,
    Gives (Handoff.download (Memory.store .standard) testRequest) (sampleMachine linked none []) report
      (changedMachine linked (some (lastOut linked)) [] prereqsStaging) := by
  have hstaged : (sampleTree linked none []).makeDirectories (Path.join "." stagingName) sampleTime =
      (changedTree linked none [[]] [[]], none) := by
    cases linked <;> rfl
  obtain ⟨report, hunpacked⟩ := unpack_test linked
  exact ⟨report, download_gives (m := sampleMachine linked none []) sources_test hstaged
    (get_test linked _) hunpacked (prune_test linked)⟩

end CrossBuild.Proofs
