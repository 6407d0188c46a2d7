import CrossBuild.Proofs.DownloadRun
import CrossBuild.Proofs.KeyGlobs
import CrossBuild.Proofs.OpeningDownload

/-!
# Which bundles a staged job takes

A staged job opens with a download whose globs come from its stage and its platforms. Here the keys
that those globs accept are worked out: never those of the job's own stage or of a later one, and of
the rest just those of jobs whose names end in one of the platforms. A host's name can end in the name
of another host, and then the one takes what the other has built.
-/

namespace CrossBuild.Proofs
open CommandLine Handoff Text.Wildcard

/-! ### The order of stages -/

/-- In a list of stages, the second stage is the first one or follows it. -/
def AtOrAfter (stages : List String) (stage later : String) : Prop :=
  ∃ front back, stages = front ++ stage :: back ∧ later ∈ stage :: back

lemma atOrAfter_iff (stages : List String) (stage later : String) :
    AtOrAfter stages stage later ↔ later ∈ stages.dropWhile (· != stage) := by
  constructor
  · rintro ⟨front, back, rfl, hlater⟩
    induction front with
    | nil => simpa using hlater
    | cons first front ih =>
      by_cases h : first = stage
      · subst h
        have hmem : later ∈ front ++ first :: back := List.mem_append_right _ hlater
        simpa using .inr (by simpa using hmem)
      · rw [List.cons_append, List.dropWhile_cons_of_pos (by simpa using h)]
        exact ih
  · intro h
    cases hdrop : stages.dropWhile (· != stage) with
    | nil => simp [hdrop] at h
    | cons first back =>
      have hfirst : first = stage := by
        have hnot := List.head_dropWhile_not (· != stage) (l := stages) (by simp [hdrop])
        simpa [hdrop] using hnot
      subst hfirst
      rw [hdrop] at h
      refine ⟨stages.takeWhile (· != first), back, ?_, h⟩
      rw [← hdrop, List.takeWhile_append_dropWhile]

instance (stages : List String) (stage later : String) : Decidable (AtOrAfter stages stage later) :=
  decidable_of_iff _ (atOrAfter_iff stages stage later).symm

lemma mem_fromStage {p : Plan} {pipeline : Pipeline} (hg : Generates p pipeline) (stage later : String) :
    later ∈ p.catalog.fromStage pipeline.kind stage ↔ AtOrAfter pipeline.stages stage later := by
  rw [atOrAfter_iff, stages_of_generates hg]
  rfl

/-! ### The options of a staged job -/

/-- What the opening download of a staged job is told. -/
lemma options_of_stagedFor {p : Plan} {kind : PipelineKind} {host : String} {platforms : List String}
    {job : Job} (hfor : StagedFor p kind host platforms job) {vars : Run.Variables} {store : StoreOptions}
    {options : DownloadOptions} (hopen : openingAction? vars job = some (.download store options)) :
    store.workspace = "." ∧ options.includes = platformGlobs platforms ∧
      options.excludes = (p.catalog.fromStage kind job.stage).map KeyFilter.stageGlob := by
  obtain ⟨_, _, id, _, haction⟩ := (openingAction?_staged hfor vars _).mp hopen
  simp only [openingDownload, Action.download.injEq] at haction
  obtain ⟨rfl, rfl⟩ := haction
  exact ⟨rfl, rfl, rfl⟩

lemma options_of_opening {p : Plan} {pipeline : Pipeline} (hg : Generates p pipeline) {job : Job}
    (hjob : job ∈ pipeline.jobs) (hstaged : IsStaged job) {vars : Run.Variables} {store : StoreOptions}
    {options : DownloadOptions} (hopen : openingAction? vars job = some (.download store options)) :
    store.workspace = "." ∧
      options.excludes = (p.catalog.fromStage pipeline.kind job.stage).map KeyFilter.stageGlob ∧
      ∃ host platforms, StagedFor p pipeline.kind host platforms job ∧
        options.includes = platformGlobs platforms := by
  obtain ⟨host, platforms, hfor⟩ := exists_stagedFor hg hjob hstaged
  obtain ⟨hworkspace, hincludes, hexcludes⟩ := options_of_stagedFor hfor hopen
  exact ⟨hworkspace, hexcludes, host, platforms, hfor, hincludes⟩

/-! ### Sources -/

lemma mem_sources {store : StoreOptions} {options : DownloadOptions} {source : BundleSource} :
    source ∈ store.sources options ↔
      (∃ parent, options.parent = some parent ∧ parent ≠ store.pipelineId ∧
        source = ⟨BundleKey.pipelineStart parent, []⟩) ∨
      source = ⟨BundleKey.pipelineStart store.pipelineId, options.excludes⟩ := by
  unfold StoreOptions.sources
  cases options.parent with
  | none => simp
  | some parent =>
    by_cases h : parent = store.pipelineId
    · simp [h, Option.filter]
    · simp [h, Option.filter]

lemma pipelineStart_inj {id id' : String}
    (h : BundleKey.pipelineStart id = BundleKey.pipelineStart id') : id = id' := by
  have hchars := congrArg String.toList h
  simp only [BundleKey.pipelineStart, String.toList_append] at hchars
  exact String.toList_inj.mp (List.append_cancel_right hchars)

lemma startsWith_iff (text start : String) :
    Text.startsWith text start = true ↔ start.toList <+: text.toList := by
  rw [Text.startsWith, Option.isSome_iff_exists]
  exact exists_congr fun rest => dropStart_eq_some.trans eq_comm

/-- A key begins as those of a pipeline do only if it is one of them. The id is a whole part of the
key, so an id that merely begins with the other one does not count. -/
lemma startsWith_pipelineStart {k : BundleKey} (hk : IsPiece k.pipelineId.toList) {id : String}
    (hid : IsPiece id.toList) :
    Text.startsWith k.text (BundleKey.pipelineStart id) = true ↔ k.pipelineId = id := by
  rw [startsWith_iff, toList_text, BundleKey.pipelineStart]
  constructor
  · rintro ⟨rest, hrest⟩
    have hshape : id.toList ++ '/' :: rest = k.pipelineId.toList ++ '/' :: (stagePart k ++ '/' ::
        (k.job.toList ++ BundleKey.extension.toList)) := by
      rw [← hrest]
      simp
    exact String.toList_inj.mp (append_slash_inj hid hk hshape).1.symm
  · rintro rfl
    exact ⟨_, by simp; rfl⟩

lemma mem_sourceKeys {content : Memory} {includes : List String} {source : BundleSource} {key : String} :
    key ∈ sourceKeys content includes source ↔
      key ∈ content.keys ∧ Text.startsWith key source.start = true ∧
        (sourceFilter includes source).accepts key = true := by
  simp only [sourceKeys, Memory.listed, List.mem_filter, and_assoc]

/-! ### Stages as barriers -/

/-- The exclusions for some stages reject all bundles of those stages. A failed job's bundle is marked
in the part that names the stage, but the exclusion of failed jobs is always there for it. -/
lemma rejects_stage {includes laterStages : List String} {start : String} {k : BundleKey}
    (h : k.stage ∈ laterStages) :
    (sourceFilter includes ⟨start, laterStages.map KeyFilter.stageGlob⟩).accepts k.text = false := by
  rw [Bool.eq_false_iff, ne_eq, accepts_eq_true]
  rintro ⟨_, hexcluded⟩
  simp only [sourceFilter, mem_excludes_excludingFailed] at hexcluded
  cases hfailed : k.failed with
  | false =>
    have hglob := hexcluded (KeyFilter.stageGlob k.stage) (.inl (List.mem_map_of_mem h))
    rw [isMatch_ownStage hfailed] at hglob
    cases hglob
  | true =>
    have hglob := hexcluded KeyFilter.failedGlob (.inr rfl)
    rw [isMatch_failedGlob_of_failed hfailed] at hglob
    cases hglob

/-- No staged job takes a bundle of its own stage or of a later one from its own pipeline: the filter
for that pipeline rejects them whatever characters the names have, and where ids are parts of keys no
other source of the download shows them. -/
theorem stage_barrier {p : Plan} {pipeline : Pipeline} (hg : Generates p pipeline) {job : Job}
    (hjob : job ∈ pipeline.jobs) (hstaged : IsStaged job) {vars : Run.Variables} {store : StoreOptions}
    {options : DownloadOptions} (hopen : openingAction? vars job = some (.download store options))
    {stage : String} (hstage : AtOrAfter pipeline.stages job.stage stage) (name : String) (failed : Bool) :
    (∀ source ∈ store.sources options, source.start = BundleKey.pipelineStart store.pipelineId →
      (sourceFilter options.includes source).accepts
        (BundleKey.text ⟨store.pipelineId, stage, name, failed⟩) = false) ∧
    (IsPiece store.pipelineId.toList → (∀ parent ∈ options.parent, IsPiece parent.toList) →
      ∀ {σ : Type} {opened : Store σ} {holds : Machine σ → Prop} {content : Memory}
        {m m' : Machine σ} {report : DownloadReport},
        Serves opened store.workspace holds content → holds m →
        Gives (Handoff.download opened (store.downloadRequest options)) m report m' →
        BundleKey.text ⟨store.pipelineId, stage, name, failed⟩ ∉ report.bundles) := by
  obtain ⟨_, hexcludes, _⟩ := options_of_opening hg hjob hstaged hopen
  have hmem := (mem_fromStage hg job.stage stage).mpr hstage
  have hown : ∀ source ∈ store.sources options,
      source.start = BundleKey.pipelineStart store.pipelineId →
      (sourceFilter options.includes source).accepts
        (BundleKey.text ⟨store.pipelineId, stage, name, failed⟩) = false := by
    intro source hsource hstart
    rcases mem_sources.mp hsource with ⟨parent, _, hne, rfl⟩ | rfl
    · -- a parent with the pipeline's own id is no source at all
      exact (hne (pipelineStart_inj hstart)).elim
    · rw [hexcludes]
      exact rejects_stage hmem
  refine ⟨hown, ?_⟩
  intro hid hparent σ opened holds content m m' report hs hm hrun htaken
  rw [(download_run hs hm hrun).1] at htaken
  obtain ⟨source, hsource, hkey⟩ := List.mem_flatMap.mp htaken
  obtain ⟨_, hstart, haccepts⟩ := mem_sourceKeys.mp hkey
  have hsame : source.start = BundleKey.pipelineStart store.pipelineId := by
    rcases mem_sources.mp hsource with ⟨parent, hsome, hne, rfl⟩ | rfl
    · have heq := (startsWith_pipelineStart hid (hparent parent hsome)).mp hstart
      exact (hne heq.symm).elim
    · rfl
  have hrejects := hown source hsource hsame
  simp only [StoreOptions.downloadRequest] at haccepts
  rw [haccepts] at hrejects
  cases hrejects

/-- A build job on the second host leaves alone the tests of its own pipeline. -/
theorem stage_barrier_twoHosts :
    Generates twoHosts twoHostsPipeline ∧ twoHostsJob "os7" .build "build" ∈ twoHostsPipeline.jobs ∧
      AtOrAfter twoHostsPipeline.stages "build" "test" ∧
      (sourceFilter (platformGlobs ["os7"])
        ⟨"1/", (Catalog.v2.fromStage .host "build").map KeyFilter.stageGlob⟩).accepts
          "1/test/test:os7.tar.gz" = false := by
  have hg : Generates twoHosts twoHostsPipeline := .inl topLevel_twoHosts
  have hjob : twoHostsJob "os7" .build "build" ∈ twoHostsPipeline.jobs := by simp [twoHostsPipeline]
  have hstage : AtOrAfter twoHostsPipeline.stages "build" "test" := by decide
  have hbarrier := stage_barrier hg hjob (stagedFor_twoHostsJob "os7" .build "build").isStaged
    (opening_twoHostsJob "os7" .build "build" "1" none) hstage "test:os7" false
  exact ⟨hg, hjob, hstage, hbarrier.1 _ (mem_sources.mpr (.inr rfl)) rfl⟩

/-! ### What filters accept -/

lemma platformGlobs_eq (platforms : List String) : platformGlobs platforms = platforms.map platformGlob :=
  rfl

/-- The filter of a source on the key of a bundle, where neither the pipeline nor the stage is called
as if it had failed. -/
lemma accepts_text {platforms laterStages : List String} (hne : platforms ≠ [])
    (hliteral : ∀ later ∈ laterStages, IsLiteral later.toList) {k : BundleKey} (hk : HasPieces k)
    (hid : ¬EndsFailed k.pipelineId) (hstage : ¬EndsFailed k.stage) (start : String) :
    (sourceFilter (platformGlobs platforms) ⟨start, laterStages.map KeyFilter.stageGlob⟩).accepts k.text =
        true ↔
      (∃ platform ∈ platforms, MatchesEnd platform k) ∧ k.failed = false ∧ k.stage ∉ laterStages := by
  have hincludes : (∃ glob ∈ platformGlobs platforms, isMatch glob k.text = true) ↔
      ∃ platform ∈ platforms, MatchesEnd platform k := by
    simp [platformGlobs_eq, isMatch_platformGlob_text]
  have hempty : platformGlobs platforms ≠ [] := by simpa [platformGlobs_eq] using hne
  have hfailed := isMatch_failedGlob_text hk hid hstage
  rw [accepts_eq_true]
  simp only [sourceFilter, includes_excludingFailed, mem_excludes_excludingFailed, hempty, false_or,
    hincludes]
  apply and_congr_right
  intro _
  constructor
  · intro h
    have hok : k.failed = false := by
      rw [Bool.eq_false_iff, ne_eq, ← hfailed, h _ (.inr rfl)]
      exact Bool.false_ne_true
    refine ⟨hok, fun hmem => ?_⟩
    have hglob := h _ (.inl (List.mem_map_of_mem hmem))
    rw [isMatch_ownStage hok] at hglob
    cases hglob
  · rintro ⟨hok, hnot⟩ glob (hglob | rfl)
    · obtain ⟨later, hlater, rfl⟩ := List.mem_map.mp hglob
      rw [Bool.eq_false_iff, ne_eq, isMatch_stageGlob_text (hliteral later hlater) hk]
      intro heq
      have hsame : k.stage = later := String.toList_inj.mp (by simpa [stagePart, hok] using heq)
      exact hnot (hsame ▸ hlater)
    · rw [Bool.eq_false_iff, ne_eq, hfailed, hok]
      exact Bool.false_ne_true

/-! ### Bundles of other hosts -/

/-- Whether a host's job takes the bundle of a job of another host. It does so just when that job is of
an earlier stage, did not fail, and some end of its key matches the name of the first host; for a name
that is plain this means that the name of the other job ends in it, as it does where the name of one
host ends in the name of the other. -/
theorem accepts_other_host_iff {p : Plan} {pipeline : Pipeline} (hg : p.topLevel = .ok pipeline)
    {job other : Job} (hother : other ∈ pipeline.jobs) {host host' : String}
    (hfor : StagedFor p .host host [host] job)
    (hfor' : StagedFor p .host host' [host'] other) {vars : Run.Variables} {store : StoreOptions}
    {options : DownloadOptions} (hopen : openingAction? vars job = some (.download store options))
    (hliteral : ∀ stage ∈ pipeline.stages, IsLiteral stage.toList) {id : String} {failed : Bool}
    (hk : HasPieces ⟨id, other.stage, other.name, failed⟩) (hid : ¬EndsFailed id)
    (hstage : ¬EndsFailed other.stage) :
    ((sourceFilter options.includes ⟨BundleKey.pipelineStart id, options.excludes⟩).accepts
        (BundleKey.text ⟨id, other.stage, other.name, failed⟩) = true ↔
      MatchesEnd host ⟨id, other.stage, jobName [other.stage, host'], failed⟩ ∧ failed = false ∧
        ¬AtOrAfter pipeline.stages job.stage other.stage) ∧
    (IsLiteral host.toList → IsPiece host.toList →
      (MatchesEnd host ⟨id, other.stage, jobName [other.stage, host'], failed⟩ ↔
        host.toList <:+ (jobName [other.stage, host']).toList)) := by
  obtain ⟨hkind, _, hjobs⟩ := topLevel_eq_ok hg
  have hname : other.name = jobName [other.stage, host'] := by
    obtain ⟨h, _, hforh, hname⟩ := hjobs other hother hfor'.isStaged
    have hsame : h.name = host' := by simpa [hforh.tags_head?] using hfor'.tags_head?
    rw [hname, hsame]
  obtain ⟨_, hincludes, hexcludes⟩ := options_of_stagedFor hfor hopen
  have hmem : ∀ later, later ∈ p.catalog.fromStage .host job.stage ↔
      AtOrAfter pipeline.stages job.stage later := by
    intro later
    rw [← mem_fromStage (.inl hg), hkind]
  have hlater : ∀ later ∈ p.catalog.fromStage .host job.stage, IsLiteral later.toList := by
    intro later h
    obtain ⟨front, back, hstages, hlater⟩ := (hmem later).mp h
    exact hliteral later (by rw [hstages]; exact List.mem_append_right _ hlater)
  refine ⟨?_, fun hs hp => matchesEnd_of_plain hs hp _⟩
  rw [hincludes, hexcludes, accepts_text (by simp) hlater hk hid hstage, hmem, ← hname]
  simp

/-- Tests on the second host take what the first one has built, since its name ends in the other's. -/
theorem accepts_other_host_twoHosts :
    (sourceFilter (platformGlobs ["os7"])
      ⟨"1/", (Catalog.v2.fromStage .host "test").map KeyFilter.stageGlob⟩).accepts
        "1/build/build:centos7.tar.gz" = true := by
  have hother : twoHostsJob "centos7" .build "build" ∈ twoHostsPipeline.jobs := by simp [twoHostsPipeline]
  have hliteral : ∀ stage ∈ twoHostsPipeline.stages, IsLiteral stage.toList := by decide
  have hk : HasPieces ⟨"1", "build", "build:centos7", false⟩ := ⟨by decide, by decide, by decide⟩
  have hiff := accepts_other_host_iff topLevel_twoHosts hother
    (stagedFor_twoHostsJob "os7" .test "test") (stagedFor_twoHostsJob "centos7" .build "build")
    (opening_twoHostsJob "os7" .test "test" "1" none) hliteral hk (by decide) (by decide)
  exact hiff.1.mpr ⟨(hiff.2 (by decide) (by decide)).mpr (by decide), rfl, by decide⟩

/-! ### All that is selected -/

/-- The key is one that a bundle can be stored under. -/
def IsAccepted (k : BundleKey) : Prop :=
  BundleKey.ofParts k.pipelineId k.stage k.job = .ok { k with failed := false }

instance (k : BundleKey) : Decidable (IsAccepted k) :=
  inferInstanceAs
    (Decidable (BundleKey.ofParts k.pipelineId k.stage k.job = .ok { k with failed := false }))

lemma isPiece_of_fault? {part : String} (h : BundleKey.fault? part = none) : IsPiece part.toList := by
  unfold BundleKey.fault? at h
  split at h
  · cases h
  · split at h
    · cases h
    · rename_i hslash
      simpa [IsPiece] using hslash

lemma IsAccepted.hasPieces {k : BundleKey} (h : IsAccepted k) : HasPieces k := by
  unfold IsAccepted BundleKey.ofParts at h
  split at h
  · cases h
  · rename_i hnone
    simp only [List.findSome?_eq_none_iff, List.mem_cons, List.not_mem_nil, or_false,
      forall_eq_or_imp, forall_eq, Option.map_eq_none_iff] at hnone
    exact ⟨isPiece_of_fault? hnone.1, isPiece_of_fault? hnone.2.1, isPiece_of_fault? hnone.2.2⟩

/-- A successful job of the pipeline has left the bundle, for one of the platforms. -/
def IsFor (platforms : List String) (id : String) (k : BundleKey) : Prop :=
  k.pipelineId = id ∧ k.failed = false ∧ ∃ platform ∈ platforms, platform.toList <:+ k.job.toList

instance (platforms : List String) (id : String) (k : BundleKey) : Decidable (IsFor platforms id k) :=
  inferInstanceAs (Decidable (k.pipelineId = id ∧ k.failed = false ∧
    ∃ platform ∈ platforms, platform.toList <:+ k.job.toList))

/-- The bundles that a job of some stage should take: those of the parent pipeline, if there is one that
is not its own, and then those that earlier stages of its own pipeline have left. -/
def wantedBundles (stages : List String) (stage : String) (platforms : List String) (id : String)
    (parent : Option String) (bundles : List BundleKey) : List BundleKey :=
  (parent.filter (· != id)).toList.flatMap (fun parentId => bundles.filter (IsFor platforms parentId)) ++
    bundles.filter fun k => IsFor platforms id k ∧ ¬AtOrAfter stages stage k.stage

section Selection

variable {platforms : List String} {content : Memory} {bundles : List BundleKey}

/-- What a source selects is the bundles that a test on keys accepts, if the filter does what the test
does on the keys of its pipeline. -/
lemma sourceKeys_eq {includes excludes : List String} {id : String}
    (hkeys : content.keys = bundles.map BundleKey.text) (hpieces : ∀ k ∈ bundles, HasPieces k)
    (hid : IsPiece id.toList) (wanted : BundleKey → Bool)
    (hwanted : ∀ k ∈ bundles, (wanted k = true ↔ k.pipelineId = id ∧
      (sourceFilter includes ⟨BundleKey.pipelineStart id, excludes⟩).accepts k.text = true)) :
    sourceKeys content includes ⟨BundleKey.pipelineStart id, excludes⟩ =
      (bundles.filter wanted).map BundleKey.text := by
  unfold sourceKeys Memory.listed
  rw [hkeys, List.filter_map, List.filter_map, List.filter_filter]
  congr 1
  apply List.filter_congr
  intro k hk
  rw [Bool.eq_iff_iff, hwanted k hk, ← startsWith_pipelineStart (hpieces k hk).pipelineId hid]
  simp [and_comm]

lemma isFor_iff {id : String} {laterStages : List String} (hne : platforms ≠ [])
    (hplain : ∀ platform ∈ platforms, IsLiteral platform.toList ∧ IsPiece platform.toList)
    (hliteral : ∀ later ∈ laterStages, IsLiteral later.toList) (hid : ¬EndsFailed id) {k : BundleKey}
    (hk : HasPieces k) (hstage : ¬EndsFailed k.stage) :
    IsFor platforms id k ∧ k.stage ∉ laterStages ↔ k.pipelineId = id ∧
      (sourceFilter (platformGlobs platforms)
        ⟨BundleKey.pipelineStart id, laterStages.map KeyFilter.stageGlob⟩).accepts k.text = true := by
  have hends : (∃ platform ∈ platforms, MatchesEnd platform k) ↔
      ∃ platform ∈ platforms, platform.toList <:+ k.job.toList :=
    exists_congr (fun platform => and_congr_right
      (fun h => matchesEnd_of_plain (hplain platform h).1 (hplain platform h).2 k))
  constructor
  · rintro ⟨⟨rfl, hok, hfor⟩, hnot⟩
    exact ⟨rfl, (accepts_text hne hliteral hk hid hstage _).mpr ⟨hends.mpr hfor, hok, hnot⟩⟩
  · rintro ⟨rfl, haccepts⟩
    obtain ⟨hmatch, hok, hnot⟩ := (accepts_text hne hliteral hk hid hstage _).mp haccepts
    exact ⟨⟨rfl, hok, hends.mp hmatch⟩, hnot⟩

/-- What the job's globs select of a pipeline is what successful jobs for its platforms have left there,
but for the excluded stages. -/
lemma sourceKeys_isFor {id : String} {laterStages : List String} (hne : platforms ≠ [])
    (hplain : ∀ platform ∈ platforms, IsLiteral platform.toList ∧ IsPiece platform.toList)
    (hliteral : ∀ later ∈ laterStages, IsLiteral later.toList) (hpiece : IsPiece id.toList)
    (hid : ¬EndsFailed id) (hkeys : content.keys = bundles.map BundleKey.text)
    (hbundles : ∀ k ∈ bundles, IsAccepted k ∧ ¬EndsFailed k.stage) :
    sourceKeys content (platformGlobs platforms)
        ⟨BundleKey.pipelineStart id, laterStages.map KeyFilter.stageGlob⟩ =
      (bundles.filter fun k => IsFor platforms id k ∧ k.stage ∉ laterStages).map BundleKey.text := by
  have hpieces : ∀ k ∈ bundles, HasPieces k := fun k hk => (hbundles k hk).1.hasPieces
  apply sourceKeys_eq hkeys hpieces hpiece
  intro k hk
  rw [decide_eq_true_eq]
  exact isFor_iff hne hplain hliteral hid (hpieces k hk) (hbundles k hk).2

lemma pipelineId_of_text {k k' : BundleKey} (hk : HasPieces k) (hk' : HasPieces k')
    (h : k.text = k'.text) : k.pipelineId = k'.pipelineId := by
  have hchars := congrArg String.toList h
  rw [toList_text, toList_text] at hchars
  exact String.toList_inj.mp (append_slash_inj hk.pipelineId hk'.pipelineId hchars).1

lemma mem_wantedBundles {stages : List String} {stage id : String} {parent : Option String}
    {k : BundleKey} (h : k ∈ wantedBundles stages stage platforms id parent bundles) :
    k ∈ bundles ∧ (k.pipelineId = id ∨ parent = some k.pipelineId) := by
  simp only [wantedBundles, List.mem_append, List.mem_flatMap, Option.mem_toList,
    Option.filter_eq_some_iff, List.mem_filter, decide_eq_true_eq] at h
  rcases h with ⟨parentId, ⟨hparent, _⟩, hk, hfor⟩ | ⟨hk, hfor, _⟩
  · exact ⟨hk, .inr (by rw [hparent, hfor.1])⟩
  · exact ⟨hk, .inl hfor.1⟩

/-- The opening download of a staged job takes the bundles that the job should take and no others, in
the order of the store: it neither misses a bundle of an earlier stage nor takes one of another
pipeline, a failed job or another platform. -/
theorem selects_exactly {p : Plan} {pipeline : Pipeline} (hg : Generates p pipeline) {job : Job}
    (hjob : job ∈ pipeline.jobs) (hstaged : IsStaged job) {vars : Run.Variables} {store : StoreOptions}
    {options : DownloadOptions} (hopen : openingAction? vars job = some (.download store options))
    (hplatforms : options.includes = platformGlobs platforms)
    (hplain : ∀ platform ∈ platforms, IsLiteral platform.toList ∧ IsPiece platform.toList)
    (hstages : ∀ stage ∈ pipeline.stages, IsLiteral stage.toList)
    (hids : ∀ id, id = store.pipelineId ∨ options.parent = some id → IsPiece id.toList ∧ ¬EndsFailed id)
    (hkeys : content.keys = bundles.map BundleKey.text)
    (hbundles : ∀ k ∈ bundles, IsAccepted k ∧ ¬EndsFailed k.stage) :
    let wanted := (wantedBundles pipeline.stages job.stage platforms store.pipelineId options.parent
      bundles).map BundleKey.text
    selectedKeys content (store.downloadRequest options) = wanted ∧
    (∀ {σ : Type} {opened : Store σ} {holds : Machine σ → Prop} {m m' : Machine σ}
      {report : DownloadReport}, Serves opened store.workspace holds content → holds m →
      Gives (Handoff.download opened (store.downloadRequest options)) m report m' →
      report.bundles = wanted) ∧
    (∀ k ∈ bundles, k.text ∈ selectedKeys content (store.downloadRequest options) →
      k.pipelineId = store.pipelineId ∨ options.parent = some k.pipelineId) := by
  intro wanted
  obtain ⟨_, hexcludes, host, platforms', hfor, hincludes⟩ := options_of_opening hg hjob hstaged hopen
  have hne : platforms ≠ [] := by
    rintro rfl
    have hempty : platformGlobs platforms' = [] := hincludes.symm.trans hplatforms
    simp [platformGlobs_eq, List.ne_nil_of_mem hfor.host_mem] at hempty
  have hlater : ∀ later ∈ p.catalog.fromStage pipeline.kind job.stage, IsLiteral later.toList := by
    intro later h
    obtain ⟨front, back, heq, hmem⟩ := (mem_fromStage hg _ _).mp h
    exact hstages later (by rw [heq]; exact List.mem_append_right _ hmem)
  have hparent : ∀ id, options.parent = some id →
      sourceKeys content options.includes ⟨BundleKey.pipelineStart id, []⟩ =
        (bundles.filter (IsFor platforms id)).map BundleKey.text := by
    intro id hid
    obtain ⟨hpiece, hends⟩ := hids id (.inr hid)
    have hnone : ∀ later ∈ ([] : List String), IsLiteral later.toList := by simp
    have hkeys' := sourceKeys_isFor hne hplain hnone hpiece hends hkeys hbundles
    simpa [hplatforms] using hkeys'
  have hown : sourceKeys content options.includes
      ⟨BundleKey.pipelineStart store.pipelineId, options.excludes⟩ =
        (bundles.filter fun k => IsFor platforms store.pipelineId k ∧
          ¬AtOrAfter pipeline.stages job.stage k.stage).map BundleKey.text := by
    obtain ⟨hpiece, hends⟩ := hids store.pipelineId (.inl rfl)
    simp only [← mem_fromStage hg]
    rw [hplatforms, hexcludes]
    exact sourceKeys_isFor hne hplain hlater hpiece hends hkeys hbundles
  have hselected : selectedKeys content (store.downloadRequest options) = wanted := by
    simp only [selectedKeys, StoreOptions.downloadRequest, StoreOptions.sources, wanted, wantedBundles,
      List.flatMap_append, List.flatMap_map, List.map_append, List.map_flatMap, List.flatMap_singleton,
      hown]
    congr 1
    apply List.flatMap_congr
    intro id hid
    exact hparent id (Option.filter_eq_some_iff.mp (Option.mem_toList.mp hid)).1
  refine ⟨hselected, ?_, ?_⟩
  · intro σ opened holds m m' report hs hm hrun
    exact (download_run hs hm hrun).1.trans hselected
  · intro k hk hmem
    rw [hselected] at hmem
    obtain ⟨k', hk', htext⟩ := List.mem_map.mp hmem
    obtain ⟨hmem', hid⟩ := mem_wantedBundles hk'
    rw [← pipelineId_of_text (hbundles k' hmem').1.hasPieces (hbundles k hk).1.hasPieces htext]
    exact hid

end Selection

/-- Bundles of a run on two hosts, of its parent and of a pipeline with a similar id. -/
def sampleBundles : List BundleKey := [
  ⟨"0", "test", "test:os7", false⟩, ⟨"1", "build", "build:os7", true⟩,
  ⟨"1", "build", "build:os7", false⟩, ⟨"1", "build", "build:ubuntu", false⟩,
  ⟨"1", "prereqs", "prereqs:centos7", false⟩, ⟨"1", "test", "test:os7", false⟩,
  ⟨"10", "build", "build:os7", false⟩]

/-- A store of those bundles, which have nothing in them. -/
def sampleContent : Memory :=
  .ofList (sampleBundles.map fun k => (k.text, ⟨.empty, none, none⟩))

theorem selects_exactly_twoHosts :
    selectedKeys sampleContent ⟨".",
        [⟨"0/", []⟩, ⟨"1/", (Catalog.v2.fromStage .host "test").map KeyFilter.stageGlob⟩],
        platformGlobs ["os7"]⟩ =
      ["0/test/test:os7.tar.gz", "1/build/build:os7.tar.gz", "1/prereqs/prereqs:centos7.tar.gz"] := by
  have hg : Generates twoHosts twoHostsPipeline := .inl topLevel_twoHosts
  have hjob : twoHostsJob "os7" .test "test" ∈ twoHostsPipeline.jobs := by simp [twoHostsPipeline]
  have hkeys : sampleContent.keys = sampleBundles.map BundleKey.text := by decide +kernel
  have hids : ∀ id, id = "1" ∨ some "0" = some id → IsPiece id.toList ∧ ¬EndsFailed id := by
    rintro id (rfl | hid)
    · decide
    · cases hid
      decide
  have hexactly := selects_exactly hg hjob (stagedFor_twoHostsJob "os7" .test "test").isStaged
    (opening_twoHostsJob "os7" .test "test" "1" (some "0")) rfl (by decide) (by decide) hids hkeys
    (by decide)
  exact hexactly.1

end CrossBuild.Proofs
