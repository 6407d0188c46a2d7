import CrossBuild.CommandLine.Handoff
import CrossBuild.Proofs.GeneratedJobs
import CrossBuild.Proofs.ShellWords

/-!
# The download that opens a staged job

The first line of a staged job's script calls the program. What the program takes the words of that
line for depends on the job, on the settings and on the variables of the environment only, and
`openingAction?_staged` says exactly how.
-/

namespace CrossBuild.Proofs
open CommandLine Settings

/-- What the first line of a job's script asks for, if a shell splits it into words that the program
can read. -/
def openingAction? (vars : Run.Variables) (job : Job) : Option Action := do
  let line ← job.script.head?
  let words ← arguments? line
  let invocation ← (Invocation.ofWords vars words.tail).toOption
  return invocation.action

/-- A word that no command line reads as an option. -/
def IsPlainWord (text : String) : Prop := Word.ofText text = .plain text

instance (text : String) : Decidable (IsPlainWord text) :=
  inferInstanceAs (Decidable (Word.ofText text = .plain text))

lemma isPlain_iff (text : String) : (Word.ofText text).isPlain = true ↔ IsPlainWord text := by
  unfold IsPlainWord
  unfold Word.ofText
  split
  · simp [Word.isPlain]
  · dsimp only
    split
    · simp [Word.isPlain]
    · simp [Word.isPlain]
  · simp [Word.isPlain]
  · simp [Word.isPlain]

lemma isPlainWord_star (text : String) : IsPlainWord ("*" ++ text) := by
  unfold IsPlainWord Word.ofText
  have hstar : ("*" ++ text).toList = '*' :: text.toList := by simp
  rw [hstar]
  rfl

/-! ### Reading options -/

lemma give_eq_ok {level : Level} {given : Given} {p : Parameter} {value : String}
    (htakes : p.takes ≠ .nothing) (hnew : p.takes = .texts ∨ given.has p = false)
    (hvalue : p.takes = .path → value ≠ "") :
    level.give given p value = .ok { given with values := given.values ++ [(p, value)] } := by
  have hhelp : p ≠ .help := by
    rintro rfl
    exact htakes rfl
  have hversion : p ≠ .version := by
    rintro rfl
    exact htakes rfl
  have honce : (p.takes != .texts && given.has p) = false := by
    rcases hnew with h | h <;> simp [h]
  have hpath : (p.takes == .path && value.isEmpty) = false := by
    rw [Bool.and_eq_false_iff]
    by_cases h : p.takes = .path
    · exact .inr (by simpa using hvalue h)
    · exact .inl (by simpa using h)
  simp [Level.give, hhelp, hversion, honce, hpath]

lemma ofText_display (p : Parameter) : Word.ofText p.display = .long p.name none := by
  cases p <;> decide

lemma giveOption_display {level : Level} {p : Parameter} (hlevel : level.optionNamed? p.name = some p)
    (htakes : p.takes ≠ .nothing) (given : Given) : level.giveOption given p.display = .ok (.awaits given p) := by
  unfold Level.giveOption Level.giveLong
  rw [ofText_display]
  simp only [hlevel]

/-- An option that goes by its name and takes the next word as its value. -/
lemma read_option (vars : Run.Variables) {level : Level} {given : Given} {p : Parameter} {value : String}
    (hlevel : level.optionNamed? p.name = some p) (htakes : p.takes ≠ .nothing)
    (hnew : p.takes = .texts ∨ given.has p = false) (hvalue : p.takes = .path → value ≠ "")
    (hv : IsPlainWord value) (rest : List String) :
    level.read vars given (p.display :: value :: rest) =
      level.read vars { given with values := given.values ++ [(p, value)] } rest := by
  rw [Level.read, ofText_display]
  simp only [giveOption_display hlevel htakes, (isPlain_iff value).mpr hv, if_true, give_eq_ok htakes hnew hvalue]
  rfl

lemma read_option_refused (vars : Run.Variables) {level : Level} {given : Given} {p : Parameter} {value : String}
    (hlevel : level.optionNamed? p.name = some p) (htakes : p.takes ≠ .nothing) (hv : ¬IsPlainWord value)
    (rest : List String) : level.read vars given (p.display :: value :: rest) = level.refuse (.missingValue p) := by
  rw [Level.read, ofText_display]
  simp only [giveOption_display hlevel htakes, mt (isPlain_iff value).mp hv, Bool.false_eq_true, if_false]

/-- The options that a download takes any number of times. -/
def IsFilterOption (p : Parameter) : Prop := p = .includes ∨ p = .excludes

lemma read_filterOption (vars : Run.Variables) (given : Given) {p : Parameter} (hp : IsFilterOption p)
    {value : String} (hv : IsPlainWord value) (rest : List String) :
    Level.download.read vars given (p.display :: value :: rest) =
      Level.download.read vars { given with values := given.values ++ [(p, value)] } rest := by
  have hfilter : Level.download.optionNamed? p.name = some p ∧ p.takes = .texts := by
    rcases hp with rfl | rfl
    · decide
    · decide
  obtain ⟨hlevel, htexts⟩ := hfilter
  exact read_option vars hlevel (by simp [htexts]) (.inl htexts) (by simp [htexts]) hv rest

lemma read_repeated (vars : Run.Variables) (given : Given) {p : Parameter} (hp : IsFilterOption p)
    {values : List String} (hv : ∀ value ∈ values, IsPlainWord value) (rest : List String) :
    Level.download.read vars given (repeated p.display values ++ rest) =
      Level.download.read vars { given with values := given.values ++ values.map (p, ·) } rest := by
  induction values generalizing given with
  | nil => simp [repeated]
  | cons value values ih =>
    have hshape : repeated p.display (value :: values) ++ rest =
        p.display :: value :: (repeated p.display values ++ rest) := by simp [repeated]
    rw [hshape, read_filterOption vars given hp (hv value (by simp)),
      ih _ (fun v h => hv v (List.mem_cons_of_mem _ h))]
    simp

/-! ### Paths from the environment -/

/-- No variable stands for an empty path. -/
def NoEmptyPath (vars : Run.Variables) : Prop :=
  ∀ p : Parameter, p.takes = .path → p.fallback? vars ≠ some ""

lemma checkFallbacks_eq_ok {vars : Run.Variables} {level : Level} {given : Given} {u : Unit} :
    level.checkFallbacks vars given = .ok u ↔
      ∀ p ∈ level.options, p.takes = .path → given.has p = false → p.fallback? vars ≠ some "" := by
  unfold Level.checkFallbacks
  dsimp only
  split
  · rename_i p hfind
    have hp := List.find?_some hfind
    simp only [Bool.and_eq_true, beq_iff_eq, Bool.not_eq_true'] at hp
    constructor
    · intro h
      cases h
    · intro h
      exact (h p (List.mem_of_find?_eq_some hfind) hp.1.1 hp.1.2 hp.2).elim
  · rename_i hnone
    rw [List.find?_eq_none] at hnone
    simp only [Bool.and_eq_true, beq_iff_eq, Bool.not_eq_true', not_and] at hnone
    exact ⟨fun _ p hp htakes hhas => hnone p hp ⟨htakes, hhas⟩, fun _ => rfl⟩

lemma checkFallbacks_of_noEmptyPath {vars : Run.Variables} (h : NoEmptyPath vars) (level : Level)
    (given : Given) : level.checkFallbacks vars given = .ok () :=
  checkFallbacks_eq_ok.mpr (fun p _ hp _ => h p hp)

lemma noEmptyPath_iff (vars : Run.Variables) :
    NoEmptyPath vars ↔ Parameter.fallback? vars .config ≠ some "" ∧
      Parameter.fallback? vars .storeDir ≠ some "" := by
  constructor
  · exact fun h => ⟨h .config rfl, h .storeDir rfl⟩
  · rintro ⟨hconfig, hstoreDir⟩ p hp
    cases p with
    | config => exact hconfig
    | storeDir => exact hstoreDir
    | root | output | workspace | marker | path => simp [Parameter.fallback?, Parameter.variableName?]
    | _ => cases hp

/-! ### What was given -/

lemma all_append (xs ys : List (Parameter × String)) (operands : List String) (p : Parameter) :
    Given.all ⟨xs ++ ys, operands⟩ p = Given.all ⟨xs, operands⟩ p ++ Given.all ⟨ys, operands⟩ p := by
  simp [Given.all]

lemma all_map_self (p : Parameter) (values operands : List String) :
    Given.all ⟨values.map (p, ·), operands⟩ p = values := by
  simp [Given.all, List.filterMap_map]

lemma all_map_of_ne {p q : Parameter} (h : q ≠ p) (values operands : List String) :
    Given.all ⟨values.map (q, ·), operands⟩ p = [] := by
  simp [Given.all, h]

/-- What the line of a job gives: its settings, if they were read from a file, and the filters. -/
def lineGiven (source : Option String) (includes excludes : List String) : Given :=
  ⟨source.toList.map (.config, ·) ++ (includes.map (.includes, ·) ++ excludes.map (.excludes, ·)), []⟩

lemma all_lineGiven (source : Option String) (includes excludes : List String) (p : Parameter) :
    (lineGiven source includes excludes).all p =
      match p with
      | .config => source.toList
      | .includes => includes
      | .excludes => excludes
      | _ => [] := by
  unfold lineGiven
  rw [all_append, all_append]
  cases p with
  | config =>
    rw [all_map_self, all_map_of_ne (by decide), all_map_of_ne (by decide)]
    simp
  | includes =>
    rw [all_map_of_ne (by decide), all_map_self, all_map_of_ne (by decide)]
    simp
  | excludes =>
    rw [all_map_of_ne (by decide), all_map_of_ne (by decide), all_map_self]
    simp
  | _ =>
    rw [all_map_of_ne (by decide), all_map_of_ne (by decide), all_map_of_ne (by decide)]
    simp

/-! ### Reading the whole line -/

lemma read_download {vars : Run.Variables} {includes excludes : List String}
    (hi : ∀ value ∈ includes, IsPlainWord value) (he : ∀ value ∈ excludes, IsPlainWord value)
    {r : Reading} :
    Level.download.read vars .nothing (repeated "--include" includes ++ repeated "--exclude" excludes) =
        .ok r ↔
      Parameter.fallback? vars .config ≠ some "" ∧
        ⟨.download, ⟨includes.map (.includes, ·) ++ excludes.map (.excludes, ·), []⟩⟩ = r := by
  have hinclude : "--include" = Parameter.display .includes := by decide
  have hexclude : "--exclude" = Parameter.display .excludes := by decide
  rw [hinclude, hexclude, ← List.append_nil (repeated (Parameter.display .excludes) excludes),
    read_repeated vars .nothing (.inl rfl) hi, read_repeated vars _ (.inr rfl) he, Level.read]
  simp only [Level.close, Level.below, List.isEmpty_nil, Bool.not_true, Bool.false_eq_true, if_false]
  rw [bind_eq_ok]
  simp only [pure_eq_ok, checkFallbacks_eq_ok, exists_const]
  have honly : ∀ p ∈ Level.download.options, p.takes = .path → p = .config := by decide
  apply and_congr
  · constructor
    · intro h
      refine h .config (by decide) rfl ?_
      unfold Given.has
      rw [all_append, all_append, all_map_of_ne (by decide), all_map_of_ne (by decide)]
      rfl
    · intro h p hp htakes _
      rw [honly p hp htakes]
      exact h
  · rfl

lemma read_command {vars : Run.Variables} {level next : Level} {given : Given} {word : String}
    (hw : IsPlainWord word) (hc : level.command? word = some next) {rest : List String} {r : Reading} :
    level.read vars given (word :: rest) = .ok r ↔
      ∃ reading, next.read vars .nothing rest = .ok reading ∧
        level.checkFallbacks vars given = .ok () ∧
        { reading with given.values := given.values ++ reading.given.values } = r := by
  rw [Level.read, hw]
  simp only [hc, bind_eq_ok, pure_eq_ok, checkFallbacks_eq_ok, exists_const]

lemma read_config {vars : Run.Variables} {path : String} {rest : List String} {r : Reading} :
    Level.top.read vars .nothing ("--config" :: path :: rest) = .ok r ↔
      path ≠ "" ∧ IsPlainWord path ∧ Level.top.read vars ⟨[(.config, path)], []⟩ rest = .ok r := by
  have hword : Word.ofText "--config" = .long "config" none := by decide
  have hoption : Level.top.giveOption .nothing "--config" = .ok (.awaits .nothing .config) := by
    unfold Level.giveOption
    rw [hword]
    rfl
  rw [Level.read, hword]
  simp only [hoption]
  by_cases hplain : IsPlainWord path
  · rw [if_pos ((isPlain_iff path).mpr hplain), bind_eq_ok]
    by_cases hpath : path = ""
    · subst hpath
      have hgive : Level.top.give .nothing .config "" = .error (.usage .top (.emptyPath .config)) := rfl
      simp [hgive]
    · have hgive : Level.top.give .nothing .config path = .ok ⟨[(.config, path)], []⟩ := by
        simp [Level.give, Parameter.takes, Given.has, Given.all, Given.nothing, hpath]
      simp [hgive, hpath, hplain]
  · rw [if_neg (fun h => hplain ((isPlain_iff path).mp h))]
    simp [hplain, Level.refuse]

/-- The commands above a download check every path that a variable can stand for. -/
lemma read_artifacts {vars : Run.Variables} (given : Given) {includes excludes : List String}
    (hi : ∀ value ∈ includes, IsPlainWord value) (he : ∀ value ∈ excludes, IsPlainWord value)
    {r : Reading} :
    Level.top.read vars given ("artifacts" :: "download" ::
        (repeated "--include" includes ++ repeated "--exclude" excludes)) = .ok r ↔
      NoEmptyPath vars ∧ ⟨.download, ⟨given.values ++
        (includes.map (.includes, ·) ++ excludes.map (.excludes, ·)), []⟩⟩ = r := by
  have hartifacts : Level.top.command? "artifacts" = some .artifacts := by decide
  have hdownload : Level.artifacts.command? "download" = some .download := by decide
  rw [read_command (by decide) hartifacts]
  simp only [read_command (by decide) hdownload, read_download hi he]
  constructor
  · rintro ⟨_, ⟨_, ⟨hconfig, rfl⟩, hpaths, rfl⟩, _, rfl⟩
    refine ⟨(noEmptyPath_iff vars).mpr ⟨hconfig, ?_⟩, rfl⟩
    exact checkFallbacks_eq_ok.mp hpaths .storeDir (by decide) rfl rfl
  · rintro ⟨hpaths, rfl⟩
    exact ⟨_, ⟨_, ⟨hpaths .config rfl, rfl⟩, checkFallbacks_of_noEmptyPath hpaths _ _, rfl⟩,
      checkFallbacks_of_noEmptyPath hpaths _ _, rfl⟩

/-- The file that settings were read from can be told to the program in a word of its own. -/
def CanNameSource (s : Settings) : Prop := ∀ path ∈ s.source, path ≠ "" ∧ IsPlainWord path

lemma read_line {vars : Run.Variables} {s : Settings} {includes excludes : List String}
    (hi : ∀ value ∈ includes, IsPlainWord value) (he : ∀ value ∈ excludes, IsPlainWord value)
    {r : Reading} :
    Reading.ofWords vars (s.downloadCommand includes excludes).argv.tail = .ok r ↔
      NoEmptyPath vars ∧ CanNameSource s ∧ ⟨.download, lineGiven s.source includes excludes⟩ = r := by
  unfold Reading.ofWords downloadCommand generatorCommand lineGiven CanNameSource
  cases s.source with
  | none =>
    simp only [Command.withArgs, Command.ofArgv, List.cons_append, List.tail_cons, List.nil_append,
      Option.toList_none, List.map_nil, Option.mem_def, reduceCtorEq, false_imp_iff, implies_true, true_and]
    exact read_artifacts .nothing hi he
  | some path =>
    simp only [Command.withArgs, Command.ofArgv, List.cons_append, List.tail_cons, List.nil_append,
      read_config, read_artifacts _ hi he, Option.mem_some, forall_eq']
    exact ⟨fun ⟨hne, hplain, hpaths, hr⟩ => ⟨hpaths, ⟨hne, hplain⟩, hr⟩,
      fun ⟨hpaths, ⟨hne, hplain⟩, hr⟩ => ⟨hne, hplain, hpaths, hr⟩⟩

/-! ### The opening action -/

/-- What a job downloads that the variables of its environment let the program read: into the current
directory, all bundles of the platforms but those of its own and later stages. -/
def openingDownload (vars : Run.Variables) (id : String) (includes laterStages : List String) : Action :=
  .download
    ⟨Parameter.fallback? vars .storeDir, Parameter.fallback? vars .bucket, id, "."⟩
    ⟨includes, laterStages.map KeyFilter.stageGlob, Parameter.fallback? vars .parent⟩

lemma ofWords_eq_ok {vars : Run.Variables} {words : List String} {action : Action} :
    ((Invocation.ofWords vars words).toOption.bind fun invocation => some invocation.action) =
        some action ↔
      ∃ r, Reading.ofWords vars words = .ok r ∧ r.action vars = .ok action := by
  unfold Invocation.ofWords
  cases Reading.ofWords vars words with
  | error stop => simp [bind, Except.bind, Except.toOption]
  | ok r =>
    cases h : r.action vars with
    | error stop => simp [bind, Except.bind, Except.toOption, h]
    | ok found => simp [bind, Except.bind, Except.toOption, pure, Except.pure, h]

lemma action_line {vars : Run.Variables} {source : Option String} {includes laterStages : List String}
    {action : Action} :
    Reading.action vars
        ⟨.download, lineGiven source includes (laterStages.map KeyFilter.stageGlob)⟩ = .ok action ↔
      ∃ id, Parameter.fallback? vars .pipelineId = some id ∧
        openingDownload vars id includes laterStages = action := by
  simp only [Reading.action, Reading.storeOptions, Reading.downloadOptions, Reading.require,
    Reading.value?, Given.last?, all_lineGiven, List.getLast?_nil, Option.none_or,
    bind_eq_ok, pure_eq_ok]
  cases Parameter.fallback? vars .pipelineId with
  | none => simp [Level.refuse]
  | some id => simp [openingDownload, Parameter.fallback?, Parameter.variableName?]

/-- The opening of a staged job is this download, under these conditions, and nothing else. -/
theorem openingAction?_staged {p : Plan} {kind : PipelineKind} {host : String} {platforms : List String}
    {job : Job} (h : StagedFor p kind host platforms job) (vars : Run.Variables) (action : Action) :
    openingAction? vars job = some action ↔
      NoEmptyPath vars ∧ CanNameSource p.settings ∧
        ∃ id, Parameter.fallback? vars .pipelineId = some id ∧
          openingDownload vars id (platformGlobs platforms) (p.catalog.fromStage kind job.stage) =
            action := by
  obtain ⟨stage, name, build, rfl⟩ := h.eq_stagedJob
  have hplain : ∀ value ∈ platformGlobs platforms, IsPlainWord value := by
    intro value hvalue
    obtain ⟨platform, _, rfl⟩ := List.mem_map.mp hvalue
    rw [String.append_assoc]
    exact isPlainWord_star _
  have hexcludes : ∀ value ∈ (p.catalog.fromStage kind stage).map KeyFilter.stageGlob,
      IsPlainWord value := by
    intro value hvalue
    obtain ⟨later, _, rfl⟩ := List.mem_map.mp hvalue
    exact isPlainWord_star ("/" ++ later ++ "/*")
  have hscript : (p.stagedJob kind stage name (platformGlobs platforms) build host).script.head? =
      some (p.settings.downloadCommand (platformGlobs platforms)
        ((p.catalog.fromStage kind stage).map KeyFilter.stageGlob)).toShell := rfl
  have hstage : (p.stagedJob kind stage name (platformGlobs platforms) build host).stage = stage := rfl
  unfold openingAction?
  rw [hscript, hstage]
  simp only [Option.bind_eq_bind, Option.bind_some, Option.pure_def]
  rw [arguments?_toShell (by rfl), Option.bind_some, ofWords_eq_ok]
  simp only [read_line hplain hexcludes]
  constructor
  · rintro ⟨_, ⟨hpaths, hsource, rfl⟩, haction⟩
    exact ⟨hpaths, hsource, action_line.mp haction⟩
  · rintro ⟨hpaths, hsource, haction⟩
    exact ⟨_, ⟨hpaths, hsource, rfl⟩, action_line.mpr haction⟩

/-! ### The run on two hosts -/

/-- An environment that says nothing but which pipeline it belongs to, and of which parent. -/
def pipelineVariables (id : String) (parent : Option String) : Run.Variables := fun name =>
  if name = RunVariable.pipelineId.name then some id
  else if name = RunVariable.parentPipelineId.name then parent
  else none

lemma opening_twoHostsJob (host : String) (role : StageRole) (goal id : String) (parent : Option String) :
    openingAction? (pipelineVariables id parent) (twoHostsJob host role goal) =
      some (.download ⟨none, none, id, "."⟩
        ⟨platformGlobs [host], (Catalog.v2.fromStage .host role.name).map KeyFilter.stageGlob, parent⟩) := by
  rw [openingAction?_staged (stagedFor_twoHostsJob host role goal)]
  refine ⟨(noEmptyPath_iff _).mpr ?_, ?_, id, rfl, rfl⟩
  · exact ⟨by simp [Parameter.fallback?, Parameter.variableName?, pipelineVariables, RunVariable.name],
      by simp [Parameter.fallback?, Parameter.variableName?, pipelineVariables, RunVariable.name]⟩
  · intro path hpath
    cases hpath

end CrossBuild.Proofs
