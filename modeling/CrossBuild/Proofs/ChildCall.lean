import CrossBuild.CommandLine.Perform
import CrossBuild.Proofs.ChildLine
import CrossBuild.Proofs.ChildSucceeds
import CrossBuild.Proofs.WrittenFiles

/-!
# What the line that describes a child writes

The descriptor of the first pipeline and those of the children are written by different calls of the
program, which have nothing in common but the files, the environment and the line that one call puts into
a job for the other. The later call finds the same settings, as the line names the file they were read
from, and plans with the same run, catalog and directive. It looks for projects where the settings say,
wherever the first call was told to look.
-/

namespace CrossBuild.Proofs
open CommandLine Plan

variable {σ : Type}

/-! ### Calls -/

lemma call_eq_success {vars : Run.Variables} {exec : Executor (Machine σ)} {words : List String}
    {invocation : Invocation} (h : Invocation.ofWords vars words = .ok invocation) {m m' : Machine σ}
    {out : String} :
    call vars exec words m = (.success out, m') ↔ Gives (perform vars exec invocation) m out m' := by
  have hcall : call vars exec words m =
      match perform vars exec invocation m with
      | (.ok out, m') => (.success out, m')
      | (.error failure, m') => (.ofFailure failure, m') := by
    unfold call
    rw [h]
    dsimp only [bind, StateT.bind, ExceptT.run, pure, StateT.pure]
    rcases perform vars exec invocation m with ⟨_ | _, _⟩ <;> rfl
  unfold Gives
  rw [hcall]
  rcases perform vars exec invocation m with ⟨failure | told, between⟩
  · constructor
    · intro h
      cases h
    · intro h
      cases h
  · constructor
    · intro h
      cases h
      rfl
    · intro h
      cases h
      rfl

/-- Listing the branches of a repository leaves the files as they are. -/
def ListsOnly (exec : Executor (Machine σ)) : Prop :=
  ∀ url m, ((exec (Repository.listCommand url)) m).2.files = m.files

lemma refreshAll_files {exec : Executor (Machine σ)} (h : ListsOnly exec) (repositories : List Repository)
    (m : Machine σ) : (Repository.refreshAll exec repositories m).2.files = m.files := by
  have hone : ∀ (r : Repository) (m : Machine σ), (Repository.refresh exec r m).2.files = m.files := by
    intro r m
    unfold Repository.refresh
    cases r.url with
    | none => rfl
    | some url =>
      have hlist := h url m
      dsimp only [Executor.runChecked, bind, StateT.bind, pure, StateT.pure]
      rcases hexec : exec (Repository.listCommand url) m with ⟨_ | out, between⟩
      · rw [hexec] at hlist
        exact hlist
      · rw [hexec] at hlist
        dsimp only
        rcases (Repository.listCommand url).check out with _ | _
        · exact hlist
        · exact hlist
  induction repositories generalizing m with
  | nil => rfl
  | cons r rest ih =>
    change (Repository.refreshAll exec rest (Repository.refresh exec r m).2).2.files = m.files
    rw [ih, hone]

/-! ### Plans of calls -/

/-- The plan of a call for the first pipeline, with the machine as it is once branches are listed: the
settings know these branches, and the tree is the one below the root that is named, or else below the
projects of the settings. -/
structure PlannedBy (vars : Run.Variables) (exec : Executor (Machine σ)) (m : Machine σ)
    (config root : Option String) (p : Plan) (listed : Machine σ) : Prop where
  settings : ∃ found, Settings.find m.files config = .ok found ∧
    p.settings = { found with downstream := (Repository.refreshAll exec found.downstream m).1 } ∧
    listed = (Repository.refreshAll exec found.downstream m).2
  catalog : p.settings.catalog = .ok p.catalog
  run : Run.ofVariables vars = .ok p.run
  directive : p.run.directive p.settings.colonlessGroups = .ok p.directive
  inventory : Inventory.survey listed.files (root.getD p.settings.projectsDir) = .ok p.inventory

lemma PlannedBy.files {vars : Run.Variables} {exec : Executor (Machine σ)} (hexec : ListsOnly exec)
    {m listed : Machine σ} {config root : Option String} {p : Plan}
    (h : PlannedBy vars exec m config root p listed) : listed.files = m.files := by
  obtain ⟨found, _, _, rfl⟩ := h.settings
  exact refreshAll_files hexec _ _

/-- A call has one plan at most. -/
lemma PlannedBy.unique {vars : Run.Variables} {exec : Executor (Machine σ)} {m : Machine σ}
    {config root : Option String} {p q : Plan} {listed listed' : Machine σ}
    (hp : PlannedBy vars exec m config root p listed) (hq : PlannedBy vars exec m config root q listed') :
    p = q := by
  obtain ⟨settings, catalog, inventory, run, directive⟩ := p
  obtain ⟨settings', catalog', inventory', run', directive'⟩ := q
  obtain ⟨⟨found, hfound, rfl, rfl⟩, hcatalog, hrun, hdirective, hinventory⟩ := hp
  obtain ⟨⟨found', hfound', rfl, rfl⟩, hcatalog', hrun', hdirective', hinventory'⟩ := hq
  obtain rfl : found = found' := Except.ok.inj (hfound.symm.trans hfound')
  obtain rfl : run = run' := Except.ok.inj (hrun.symm.trans hrun')
  obtain rfl : catalog = catalog' := Except.ok.inj (hcatalog.symm.trans hcatalog')
  obtain rfl : directive = directive' := Except.ok.inj (hdirective.symm.trans hdirective')
  obtain rfl : inventory = inventory' := Except.ok.inj (hinventory.symm.trans hinventory')
  rfl

lemma planOf_eq_ok {settings : Settings} {run : Run} {inventory : Inventory} {p : Plan} :
    planOf settings run inventory = .ok p ↔
      (p.settings = settings ∧ p.run = run ∧ p.inventory = inventory) ∧
        settings.catalog = .ok p.catalog ∧ run.directive settings.colonlessGroups = .ok p.directive := by
  simp only [planOf, bind_eq_ok, mapError_eq_ok, pure_eq_ok]
  constructor
  · rintro ⟨catalog, hcatalog, directive, hdirective, rfl⟩
    exact ⟨⟨rfl, rfl, rfl⟩, hcatalog, hdirective⟩
  · rintro ⟨⟨rfl, rfl, rfl⟩, hcatalog, hdirective⟩
    exact ⟨p.catalog, hcatalog, p.directive, hdirective, rfl⟩

/-- The text is told or, where a file is asked for, written to it. -/
def Delivers (output : Option String) (text : String) (m : Machine σ) (out : String) (m' : Machine σ) : Prop :=
  match output with
  | none => out = text ∧ m' = m
  | some path => out = "" ∧ Writes path text m m'

/-- What a call does once it knows the branches of repositories downstream. -/
def describePipeline (options : GenerateOptions) (settings : Settings) (run : Run)
    (target : Option (String × String)) (downstream : List Repository) : Task σ Failure String := do
  let inventory ← survey (options.root.getD settings.projectsDir)
  let text ← Task.ofExcept id (descriptorOf { settings with downstream } run inventory target)
  match options.output with
  | none => return text
  | some path =>
    writeOutput path text
    return ""

lemma gives_describePipeline {options : GenerateOptions} {settings : Settings} {run : Run}
    {target : Option (String × String)} {downstream : List Repository} {m m' : Machine σ} {out : String} :
    Gives (describePipeline options settings run target downstream) m out m' ↔
      ∃ inventory text, Inventory.survey m.files (options.root.getD settings.projectsDir) = .ok inventory ∧
        descriptorOf { settings with downstream } run inventory target = .ok text ∧
        Delivers options.output text m out m' := by
  unfold describePipeline survey Delivers
  simp only [gives_bind, gives_get, gives_ofExcept]
  cases options.output with
  | none =>
    simp only [gives_pure]
    constructor
    · rintro ⟨inventory, _, ⟨_, _, ⟨rfl, rfl⟩, hsurvey, rfl⟩, text, _, ⟨htext, rfl⟩, rfl, rfl⟩
      exact ⟨inventory, _, hsurvey, htext, rfl, rfl⟩
    · rintro ⟨inventory, text, hsurvey, htext, rfl, rfl⟩
      exact ⟨inventory, _, ⟨_, _, ⟨rfl, rfl⟩, hsurvey, rfl⟩, _, _, ⟨htext, rfl⟩, rfl, rfl⟩
  | some path =>
    simp only [gives_bind, gives_pure, writes_iff]
    constructor
    · rintro ⟨inventory, _, ⟨_, _, ⟨rfl, rfl⟩, hsurvey, rfl⟩, text, _, ⟨htext, rfl⟩, ⟨⟩, _, hwrite, rfl, rfl⟩
      exact ⟨inventory, text, hsurvey, htext, rfl, hwrite⟩
    · rintro ⟨inventory, text, hsurvey, htext, rfl, hwrite⟩
      exact ⟨inventory, _, ⟨_, _, ⟨rfl, rfl⟩, hsurvey, rfl⟩, text, _, ⟨htext, rfl⟩, ⟨⟩, _, hwrite, rfl, rfl⟩

lemma gives_generate {vars : Run.Variables} {exec : Executor (Machine σ)} {config : Option String}
    {options : GenerateOptions} {target : Option (String × String)} (htarget : options.target = .ok target)
    {m m' : Machine σ} {out : String} :
    Gives (generate vars exec config options) m out m' ↔
      ∃ settings run, Settings.find m.files config = .ok settings ∧ Run.ofVariables vars = .ok run ∧
        if target.isNone then
          Gives (describePipeline options settings run target
            (Repository.refreshAll exec settings.downstream m).1)
            (Repository.refreshAll exec settings.downstream m).2 out m'
        else Gives (describePipeline options settings run target settings.downstream) m out m' := by
  unfold generate loadSettings loadRun
  simp only [gives_bind, gives_get, gives_ofExcept, htarget]
  constructor
  · rintro ⟨settings, _, ⟨_, _, ⟨rfl, rfl⟩, hsettings, rfl⟩, run, _, ⟨hrun, rfl⟩, _, _, ⟨htarget, rfl⟩, h⟩
    cases htarget
    refine ⟨settings, run, hsettings, hrun, ?_⟩
    split at h
    · rename_i hnone
      rw [if_pos hnone]
      obtain ⟨_, _, hlist, hrest⟩ := gives_bind.mp h
      obtain ⟨rfl, rfl⟩ := Prod.ext_iff.mp (gives_monadLift.mp hlist)
      exact hrest
    · rename_i hsome
      rw [if_neg hsome]
      obtain ⟨_, _, hsame, hrest⟩ := gives_bind.mp h
      obtain ⟨rfl, rfl⟩ := gives_pure.mp hsame
      exact hrest
  · rintro ⟨settings, run, hsettings, hrun, h⟩
    refine ⟨settings, _, ⟨_, _, ⟨rfl, rfl⟩, hsettings, rfl⟩, run, _, ⟨hrun, rfl⟩, _, _, ⟨rfl, rfl⟩, ?_⟩
    split
    · rename_i hnone
      rw [if_pos hnone] at h
      exact gives_bind.mpr ⟨_, _, gives_monadLift.mpr rfl, h⟩
    · rename_i hsome
      rw [if_neg hsome] at h
      exact gives_bind.mpr ⟨_, _, gives_pure.mpr ⟨rfl, rfl⟩, h⟩

/-! ### Same plans -/

/-- Settings that were found are found again by the file that they were read from. -/
lemma find_source {files : FileTree} {config fallback : Option String} {settings : Settings}
    (h : Settings.find files config = .ok settings) (hnone : config = none → fallback = none) :
    Settings.find files (settings.source.or fallback) = .ok settings := by
  have hload : ∀ path, Settings.load files path = .ok settings →
      Settings.find files (settings.source.or fallback) = .ok settings := by
    intro path hpath
    have hsource : settings.source = some path := by
      unfold Settings.load at hpath
      split at hpath
      · cases hpath
      · simp only [bind_eq_ok, pure_eq_ok] at hpath
        obtain ⟨_, _, rfl⟩ := hpath
        rfl
    rw [hsource]
    exact hpath
  cases config with
  | some path => exact hload path h
  | none =>
    by_cases hfile : files.isFile Settings.standardFile = true
    · rw [Settings.find, if_pos hfile] at h
      exact hload _ h
    · have hstandard := h
      rw [Settings.find, if_neg hfile] at hstandard
      cases hstandard
      rw [hnone rfl]
      exact h

section Downstream

variable (p : Plan) (downstream : List Repository)

/-- The plan with other repositories downstream. -/
def relisted : Plan := { p with settings := { p.settings with downstream } }

lemma stepJobs_relisted (kind : PipelineKind) (parts includes : List String) (host : String)
    (steps : List (StageRole × Command)) :
    (relisted p downstream).stepJobs kind parts includes host steps =
      p.stepJobs kind parts includes host steps := by
  induction steps with
  | nil => rfl
  | cons step steps ih =>
    obtain ⟨role, build⟩ := step
    rw [stepJobs, stepJobs, ih]
    rfl

lemma allLibraryJobs_relisted (host : String) (target : Platform) (libraries : List (Project × Library)) :
    (relisted p downstream).allLibraryJobs host target libraries = p.allLibraryJobs host target libraries := by
  induction libraries with
  | nil => rfl
  | cons owned libraries ih =>
    obtain ⟨project, library⟩ := owned
    rw [allLibraryJobs, allLibraryJobs, ih]
    rfl

/-- What is built downstream plays no part in a child. -/
lemma child_relisted (host platform : String) :
    (relisted p downstream).child host platform = p.child host platform := by
  have hsoftware : ∀ target,
      (relisted p downstream).softwareChild host target = p.softwareChild host target := by
    intro target
    rw [softwareChild, softwareChild, stepJobs_relisted]
    rfl
  have hhardware : ∀ target,
      (relisted p downstream).hardwareChild host target = p.hardwareChild host target := by
    intro target
    rw [hardwareChild, hardwareChild]
    change ((relisted p downstream).allLibraryJobs host target (librariesOf p.inventory) >>= _) = _
    rw [allLibraryJobs_relisted]
    rfl
  rw [Plan.child, Plan.child]
  simp only [hsoftware, hhardware]
  rfl

end Downstream

/-- The text is the descriptor of the child. -/
def IsChildText (p : Plan) (host platform text : String) : Prop :=
  ∃ child, p.child host platform = .ok child ∧ Descriptor.write child = .ok text

lemma descriptorOf_child {settings : Settings} {run : Run} {inventory : Inventory}
    {host platform text : String} :
    descriptorOf settings run inventory (some (host, platform)) = .ok text ↔
      ∃ p, planOf settings run inventory = .ok p ∧ IsChildText p host platform text := by
  simp only [descriptorOf, CommandLine.pipelineOf, bind_eq_ok, mapError_eq_ok, IsChildText]

lemma descriptorOf_topLevel {settings : Settings} {run : Run} {inventory : Inventory} {text : String} :
    descriptorOf settings run inventory none = .ok text ↔
      ∃ p pipeline, planOf settings run inventory = .ok p ∧ p.topLevel = .ok pipeline ∧
        Descriptor.write pipeline = .ok text := by
  simp only [descriptorOf, CommandLine.pipelineOf, bind_eq_ok, mapError_eq_ok, exists_and_left]

section Calls

variable {vars : Run.Variables} {exec : Executor (Machine σ)} {config : Option String} {m : Machine σ}

lemma gives_topLevel {options : GenerateOptions} (htop : options.child = false) {out : String}
    {m' : Machine σ} :
    Gives (generate vars exec config options) m out m' ↔
      ∃ p listed pipeline text, PlannedBy vars exec m config options.root p listed ∧
        p.topLevel = .ok pipeline ∧ Descriptor.write pipeline = .ok text ∧
        Delivers options.output text listed out m' := by
  have htarget : options.target = .ok none := by
    unfold GenerateOptions.target
    rw [htop]
  rw [gives_generate htarget]
  simp only [Option.isNone_none, if_true, gives_describePipeline, descriptorOf_topLevel, planOf_eq_ok]
  constructor
  · rintro ⟨found, run, hfound, hrun, inventory, text, hsurvey, ⟨p, pipeline, hplan, htopLevel, htext⟩,
      hdelivers⟩
    obtain ⟨⟨hsettings, rfl, rfl⟩, hcatalog, hdirective⟩ := hplan
    refine ⟨p, _, pipeline, text, ⟨⟨found, hfound, hsettings, rfl⟩, ?_, hrun, ?_, ?_⟩, htopLevel, htext,
      hdelivers⟩
    · rw [hsettings]
      exact hcatalog
    · rw [hsettings]
      exact hdirective
    · rw [hsettings]
      exact hsurvey
  · rintro ⟨p, listed, pipeline, text, ⟨⟨found, hfound, hsettings, rfl⟩, hcatalog, hrun, hdirective, hsurvey⟩,
      htopLevel, htext, hdelivers⟩
    rw [hsettings] at hcatalog hdirective hsurvey
    exact ⟨found, p.run, hfound, hrun, p.inventory, text, hsurvey,
      ⟨p, pipeline, ⟨⟨hsettings, rfl, rfl⟩, hcatalog, hdirective⟩, htopLevel, htext⟩, hdelivers⟩

/-- A later call for a child finds everything again but the root that the call of the first pipeline was
given. -/
lemma gives_child {root : Option String} {p : Plan} {listed : Machine σ}
    (hplan : PlannedBy vars exec m config root p listed)
    (hconfig : config = none → Parameter.fallback? vars .config = none) {host platform : String}
    {exec' : Executor (Machine σ)} {n n' : Machine σ} (hfiles : n.files = m.files) {told : String} :
    Gives (generate vars exec' (p.settings.source.or (Parameter.fallback? vars .config))
        (childOptions p.settings host platform)) n told n' ↔
      told = "" ∧ ∃ found text, Inventory.survey m.files p.settings.projectsDir = .ok found ∧
        IsChildText { p with inventory := found } host platform text ∧
        Writes (p.settings.childDescriptor host platform) text n n' := by
  obtain ⟨found, hfound, hsettings, _⟩ := hplan.settings
  have hsource : p.settings.source = found.source := by rw [hsettings]
  have hroot : found.projectsDir = p.settings.projectsDir := by rw [hsettings]
  have hagain : Settings.find n.files (p.settings.source.or (Parameter.fallback? vars .config)) =
      .ok found := by
    rw [hsource, hfiles]
    exact find_source hfound hconfig
  have hsame : ∀ inventory, planOf { found with downstream := found.downstream } p.run inventory =
      .ok (relisted { p with inventory } found.downstream) := by
    intro inventory
    have hcatalog := hplan.catalog
    have hdirective := hplan.directive
    rw [hsettings] at hcatalog hdirective
    refine planOf_eq_ok.mpr ⟨⟨?_, rfl, rfl⟩, hcatalog, hdirective⟩
    unfold relisted
    rw [hsettings]
  have htext : ∀ inventory text, descriptorOf { found with downstream := found.downstream } p.run inventory
      (some (host, platform)) = .ok text ↔ IsChildText { p with inventory } host platform text := by
    intro inventory text
    rw [descriptorOf_child, hsame]
    simp only [Except.ok.injEq, exists_eq_left', IsChildText, child_relisted]
  have htarget : (childOptions p.settings host platform).target = .ok (some (host, platform)) := rfl
  rw [gives_generate htarget, hagain, hplan.run]
  simp only [Except.ok.injEq, Option.isNone_some, Bool.false_eq_true, if_false, gives_describePipeline]
  rw [hfiles]
  constructor
  · rintro ⟨_, _, rfl, rfl, inventory, text, hsurvey, hdescriptor, htold, hwrites⟩
    exact ⟨htold, inventory, text, hroot ▸ hsurvey, (htext inventory text).mp hdescriptor, hwrites⟩
  · rintro ⟨htold, inventory, text, hsurvey, hchild, hwrites⟩
    exact ⟨found, p.run, rfl, rfl, inventory, text, hroot ▸ hsurvey, (htext inventory text).mpr hchild, htold,
      hwrites⟩

end Calls

/-! ### Jobs that describe a child -/

lemma validate_of_catalog {s : Settings} {c : Catalog} (h : s.catalog = .ok c) : c.validate = .ok () := by
  simp only [Settings.catalog, bind_eq_ok] at h
  obtain ⟨chosen, _, h⟩ := h
  split at h
  · rename_i hvalid
    cases h
    exact hvalid
  · cases h

/-- All jobs in the stage for it describe a child, which a later job starts from the file they keep. -/
lemma describes_of_stage {p : Plan} (hdistinct : (p.catalog.names .host).Nodup) {pipeline : Pipeline}
    (htop : p.topLevel = .ok pipeline) {job : Job} (hjob : job ∈ pipeline.jobs)
    (hstage : p.catalog.stageFor? .host .generateChildren = some job.stage) :
    ∃ host platform, Fulfills p (.describe host platform) job ∧ ∃ start ∈ pipeline.jobs,
      start.trigger = some (.child (p.settings.childDescriptor host platform) job.name p.strategy) := by
  obtain ⟨selection, jobs, _, hfulfills, _, _, hjobs⟩ := topLevel_jobs htop
  have hmem : ∀ other, other ∈ pipeline.jobs ↔ other ∈ jobs := by
    intro other
    rw [hjobs, mem_inStageOrder]
  obtain ⟨purpose, hpurpose, hown⟩ := exists_of_forall₂ hfulfills.flip ((hmem job).mp hjob)
  have hrole : purpose.role = .generateChildren := role_of_stageFor? hdistinct hown.stage hstage
  cases purpose with
  | step role host =>
    obtain ⟨_, _, hhost⟩ := List.mem_flatMap.mp hpurpose
    have hstep : role ∈ stepRoles := by
      rcases List.mem_append.mp hhost with hstep | htargets
      · obtain ⟨_, hstepRole, heq⟩ := List.mem_map.mp hstep
        cases heq
        exact hstepRole
      · obtain ⟨target, _, htarget⟩ := List.mem_flatMap.mp htargets
        cases target <;> simp [targetPurposes] at htarget
    have hnot : StageRole.generateChildren ∉ stepRoles := by decide
    exact (hnot (hrole ▸ hstep)).elim
  | start host target => cases hrole
  | describe host platform =>
    obtain ⟨found, hfound, rfl, target, htarget, rfl⟩ := exists_of_describe_mem hpurpose
    obtain ⟨start, hstart, hstarts⟩ := exists_of_forall₂ hfulfills (start_mem_purposes hfound htarget)
    obtain ⟨stage, hsame, htrigger⟩ := hstarts.work
    obtain rfl : job.stage = stage := Option.some_inj.mp (hstage.symm.trans hsame)
    refine ⟨found.name, target.name, hown, start, (hmem start).mpr hstart, ?_⟩
    rw [htrigger, hown.name]
    rfl

/-- A job has the program describe a child, which another one starts from the file that the line names. -/
structure HandsOverChild (p : Plan) (pipeline : Pipeline) (host platform : String) (job : Job) : Prop where
  name : job.name = jobName [job.stage, host, platform]
  line : job.script.map arguments? =
    [some (describeWords p host platform (p.settings.childDescriptor host platform))]
  started : ∃ start ∈ pipeline.jobs, start.trigger =
    some (.child (p.settings.childDescriptor host platform) job.name p.strategy)

/-- The words of the line make the program write the child, as planned for the projects of the settings.
The call fails if there are none, if they have no such child or if it cannot be written. -/
def LineWrites (σ : Type) (vars : Run.Variables) (files : FileTree) (p : Plan) (host platform : String) : Prop :=
  ∀ (exec : Executor (Machine σ)) (m m' : Machine σ) (out : String), m.files = files →
    (call vars exec (describeWords p host platform (p.settings.childDescriptor host platform)).tail m =
        (.success out, m') ↔
      out = "" ∧ ∃ found text, Inventory.survey files p.settings.projectsDir = .ok found ∧
        IsChildText { p with inventory := found } host platform text ∧
        Writes (p.settings.childDescriptor host platform) text m m')

/-- What a successful call for the first pipeline puts into a job that describes a child is a line whose
words, among the same files and in the same environment, make the program write the child that the call
planned, to the file that the job starting it includes. Only where the call was given a root is the child
planned for another tree, which is the projects of the settings. -/
theorem child_call_writes {vars : Run.Variables} {exec : Executor (Machine σ)} (hexec : ListsOnly exec)
    {words : List String} {config : Option String} {options : GenerateOptions}
    (hread : Invocation.ofWords vars words = .ok ⟨config, .generate options⟩) (htop : options.child = false)
    {m m' : Machine σ} {out : String} (hcall : call vars exec words m = (.success out, m')) :
    ∃ p listed pipeline text, PlannedBy vars exec m config options.root p listed ∧
      listed.files = m.files ∧ p.topLevel = .ok pipeline ∧ Descriptor.write pipeline = .ok text ∧
      Delivers options.output text listed out m' ∧
      (options.root = none → Inventory.survey m.files p.settings.projectsDir = .ok p.inventory) ∧
      ∀ job ∈ pipeline.jobs, p.catalog.stageFor? .host .generateChildren = some job.stage →
        ∃ host platform, HandsOverChild p pipeline host platform job ∧
          (ReadsLiterally vars p.settings host platform → LineWrites σ vars m.files p host platform) := by
  obtain ⟨p, listed, pipeline, text, hplan, htopLevel, htext, hdelivers⟩ :=
    (gives_topLevel htop).mp ((call_eq_success hread).mp hcall)
  have hfiles := hplan.files hexec
  have hdistinct := (validate_eq_ok.mp (validate_of_catalog hplan.catalog) .host).2
  -- a call that is told of no file has none to fall back on either
  have hconfig : config = none → Parameter.fallback? vars .config = none := by
    rintro rfl
    simp only [Invocation.ofWords, bind_eq_ok, pure_eq_ok, Invocation.mk.injEq] at hread
    obtain ⟨reading, _, _, _, hnone, _⟩ := hread
    exact (Option.or_eq_none_iff.mp hnone).2
  refine ⟨p, listed, pipeline, text, hplan, hfiles, htopLevel, htext, hdelivers, ?_, ?_⟩
  · intro hroot
    have hsurvey := hplan.inventory
    rwa [hroot, hfiles] at hsurvey
  · intro job hjob hstage
    obtain ⟨host, platform, hdescribes, hstart⟩ := describes_of_stage hdistinct htopLevel hjob hstage
    refine ⟨host, platform, ⟨hdescribes.name, hdescribes.work.2.2, hstart⟩, ?_⟩
    intro hliteral exec' n n' told hsame
    rw [← gives_child hplan hconfig hsame]
    exact call_eq_success (ofWords_childLine hliteral)

def boardVariables : Run.Variables := fun name =>
  [("CI_PIPELINE_ID", "7"), ("CI_PIPELINE_SOURCE", "web"), ("CI_COMMIT_REF_NAME", "main"),
    ("CI_PROJECT_NAMESPACE", "radio"), ("platforms", "centos7:alst4")].lookup name

def boardMachine : Machine Unit := ⟨boardTree, default, ()⟩

/-- Commands that say nothing and do nothing. -/
def boardExecutor : Executor (Machine Unit) := fun _ => pure (.ok .silent)

/-- The plan of the sample tree in a run with an environment. -/
def boardCallPlan : Plan := { boardPlan with
  run := ⟨"7", none, .web, "main", "radio", none, some "centos7:alst4", none, []⟩ }

def boardChildFile : String := ".pipegen/centos7-alst4.yml"

def boardChildWords : List String :=
  ["generate", "--child", "--host", "centos7", "--platform", "alst4", "--output", boardChildFile]

lemma plannedBy_board :
    PlannedBy boardVariables boardExecutor boardMachine none none boardCallPlan boardMachine := by
  have hsettings : Settings.find boardTree none = .ok .standard := by
    have hnone : boardTree.isFile Settings.standardFile = false := by decide +kernel
    rw [Settings.find, hnone]
    rfl
  exact ⟨⟨.standard, hsettings, rfl, rfl⟩, rfl, by decide +kernel, by decide +kernel, survey_boardTree⟩

lemma exists_writes_board (text : String) :
    (∃ m, Writes "top.yml" text boardMachine m) ∧ ∃ m, Writes boardChildFile text boardMachine m := by
  have htop : boardTree.spot true "top.yml" = .ok (.free ["w"] "top.yml") := by decide +kernel
  have hdirectory : boardTree.checkDirectory ["w"] FileTree.writeBit = .ok () := by decide +kernel
  have hparent : (Path.parent? "top.yml").filter (!·.isEmpty) = none := by decide +kernel
  have hchildParent : (Path.parent? boardChildFile).filter (!·.isEmpty) = some ".pipegen" := by decide +kernel
  obtain ⟨files, hmade⟩ : ∃ files, boardTree.makeDirectories ".pipegen" boardMachine.now = (files, none) :=
    ⟨_, Prod.ext rfl (by decide +kernel)⟩
  have hchild : (boardTree.makeDirectories ".pipegen" boardMachine.now).1.spot true boardChildFile =
      .ok (.free ["w", ".pipegen"] "centos7-alst4.yml") := by decide +kernel
  have hchildDirectory : (boardTree.makeDirectories ".pipegen" boardMachine.now).1.checkDirectory ["w", ".pipegen"]
      FileTree.writeBit = .ok () := by decide +kernel
  rw [hmade] at hchild hchildDirectory
  simp only [writes_iff, writeOutput, hparent, hchildParent, gives_bind, gives_changeFiles, gives_makeDirectories]
  constructor
  · exact ⟨_, _, write_of_free htop hdirectory _ _, rfl⟩
  · exact ⟨_, ⟨⟩, _, ⟨files, hmade, rfl⟩, _, write_of_free hchild hchildDirectory _ _, rfl⟩

/-- The first call describes the child of the board, and the later one writes it. -/
theorem child_call_writes_board :
    ListsOnly boardExecutor ∧
    Invocation.ofWords boardVariables ["generate", "--output", "top.yml"] =
      .ok ⟨none, .generate ⟨false, none, none, none, some "top.yml"⟩⟩ ∧
    ∃ m m' text f,
      call boardVariables boardExecutor ["generate", "--output", "top.yml"] boardMachine = (.success "", m) ∧
      call boardVariables boardExecutor boardChildWords boardMachine = (.success "", m') ∧
      IsChildText boardCallPlan "centos7" "alst4" text ∧
      m'.files.file boardChildFile = .ok f ∧ f.data = text.toUTF8 := by
  have hexec : ListsOnly boardExecutor := fun _ _ => rfl
  have hread : Invocation.ofWords boardVariables ["generate", "--output", "top.yml"] =
      .ok ⟨none, .generate ⟨false, none, none, none, some "top.yml"⟩⟩ := by decide +kernel
  have hdescriptor : (boardCallPlan.topLevel.toOption.bind fun pipeline =>
      (Descriptor.ofPipeline pipeline).toOption).isSome = true := by decide +kernel
  obtain ⟨pipeline, text, htop, htext⟩ : ∃ pipeline text, boardCallPlan.topLevel = .ok pipeline ∧
      Descriptor.write pipeline = .ok text := by
    cases htop : boardCallPlan.topLevel with
    | error error => simp [htop, Except.toOption] at hdescriptor
    | ok pipeline =>
      cases hvalue : Descriptor.ofPipeline pipeline with
      | error error => simp [htop, hvalue, Except.toOption] at hdescriptor
      | ok value => exact ⟨pipeline, Yaml.write value, rfl, by simp [Descriptor.write, hvalue]⟩
  obtain ⟨m, hwrites⟩ := (exists_writes_board text).1
  have hcall : call boardVariables boardExecutor ["generate", "--output", "top.yml"] boardMachine =
      (.success "", m) :=
    (call_eq_success hread).mpr <| (gives_topLevel rfl).mpr
      ⟨boardCallPlan, boardMachine, pipeline, text, plannedBy_board, htop, htext, rfl, hwrites⟩
  obtain ⟨p, _, _, _, hplan, _, htopLevel, _, _, hsurvey, hall⟩ := child_call_writes hexec hread rfl hcall
  obtain rfl : p = boardCallPlan := hplan.unique plannedBy_board
  obtain ⟨selection, jobs, hselect, hfulfills, _, _, hjobs⟩ := topLevel_jobs htopLevel
  have hselected : boardCallPlan.select = .ok boardSelection := by decide +kernel
  obtain rfl : boardSelection = selection := Except.ok.inj (hselected.symm.trans hselect)
  have hpurpose : .describe "centos7" "alst4" ∈ purposes boardSelection := by decide
  obtain ⟨job, hmem, hdescribes⟩ := exists_of_forall₂ hfulfills hpurpose
  rw [← mem_inStageOrder (boardCallPlan.catalog.names .host), ← hjobs] at hmem
  obtain ⟨host, platform, hhands, hline⟩ := hall job hmem hdescribes.stage
  have hwords := hhands.line.symm.trans hdescribes.work.2.2
  simp only [List.cons.injEq, Option.some_inj, and_true] at hwords
  obtain ⟨rfl, rfl⟩ := describeWords_inj hwords
  have hliteral : ReadsLiterally boardVariables boardCallPlan.settings "centos7" "alst4" :=
    ⟨by decide, fun _ hpath => (Option.some_ne_none _ hpath.symm).elim, by decide, by decide, by decide⟩
  have hfiles : HasFileNames boardTree := by decide +kernel
  have hcolons : NoColons boardCallPlan.inventory := ⟨by decide, by decide, by decide⟩
  have hcatalog : SuitsChildren boardCallPlan.catalog := ⟨rfl, by decide, by decide, by decide⟩
  obtain ⟨child, hchild, husable⟩ : ∃ child, boardCallPlan.child "centos7" "alst4" = .ok child ∧
      IsUsableChild boardCallPlan .hdl child :=
    hardwareChild_succeeds hcatalog (by decide) (by decide) (survey_isWellNamed hfiles survey_boardTree) hcolons
  obtain ⟨value, hvalue⟩ := husable.described
  have hchildText : IsChildText boardCallPlan "centos7" "alst4" (Yaml.write value) :=
    ⟨child, hchild, by simp [Descriptor.write, hvalue]⟩
  obtain ⟨m', hchildWrites⟩ := (exists_writes_board (Yaml.write value)).2
  obtain ⟨f, hfile, hdata⟩ := hchildWrites.file
  have hchildCall := (hline hliteral boardExecutor boardMachine m' "" rfl).mpr
    ⟨rfl, boardCallPlan.inventory, Yaml.write value, hsurvey rfl, hchildText, hchildWrites⟩
  exact ⟨hexec, hread, m, m', Yaml.write value, f, hcall, hchildCall, hchildText, hfile, hdata⟩

end CrossBuild.Proofs
