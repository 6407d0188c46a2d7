import CrossBuild.Proofs.FanOut
import CrossBuild.Proofs.JobNames

/-!
# What a repository downstream is asked for

A job that starts a repository downstream writes a host and a target into one variable, and the
repository reads it as the directive of its own run. `topLevel_requests` follows the two names through
both: the text is read as a directive that links just these two, and a tree that has the one as a host
and the other as a target selects this host with this one target, whatever else it has or is set to.
A name has to be one that a directive can hold; a host that is only a default may be called otherwise.
-/

namespace CrossBuild.Proofs
open Plan Text

/-! ### Two names in one text -/

/-- A name that the text of a directive can hold. -/
structure IsDirectiveName (name : String) : Prop where
  nonempty : name ≠ ""
  unseparated : ∀ c ∈ name.toList, isBlank c = false ∧ c ≠ ',' ∧ c ≠ ':'

instance (name : String) : Decidable (IsDirectiveName name) :=
  decidable_of_iff (name ≠ "" ∧ name.toList.all (fun c => !isBlank c && c != ',' && c != ':') = true) <| by
    simp only [List.all_eq_true, Bool.and_eq_true, Bool.not_eq_true', bne_iff_ne, and_assoc]
    exact ⟨fun h => ⟨h.1, h.2⟩, fun h => ⟨h.nonempty, h.unseparated⟩⟩

lemma mem_words {text word : String} (h : word ∈ words text) {c : Char} (hc : c ∈ word.toList) :
    isBlank c = false := by
  obtain ⟨run, hrun, rfl⟩ := List.mem_map.mp h
  rw [String.toList_ofList] at hc
  exact (mem_piece (List.mem_filter.mp hrun).1 hc).2

lemma isDirectiveName_of_parse {rule : ColonlessRule} {text : String} {d : Directive}
    (h : Directive.parse rule text = .ok d) {name : String} (hname : d.contains name = true) :
    IsDirectiveName name := by
  obtain ⟨group, hgroup, side, hside, hmem⟩ := (contains_parse h name).mp hname
  refine ⟨(isPart_of_parse h hname).nonempty, fun c hc => ?_⟩
  obtain ⟨hcside, hcomma⟩ := mem_of_mem_splitAt hmem hc
  obtain ⟨hcgroup, hcolon⟩ := mem_of_mem_splitAt hside hcside
  exact ⟨mem_words hgroup hcgroup, hcomma, hcolon⟩

/-- A directive that names two platforms and links each to the other. -/
structure IsPair (d : Directive) (host name : String) : Prop where
  contains : ∀ k, d.contains k = true ↔ k = host ∨ k = name
  hostLinks : d.links? host = some (NameSet.ofList [name])
  nameLinks : d.links? name = some (NameSet.ofList [host])

section Request

variable {host name : String} (hhost : IsDirectiveName host) (hname : IsDirectiveName name)

include hhost hname

lemma words_request : words (host ++ ":" ++ name) = [host ++ ":" ++ name] := by
  have hcolon : isBlank ':' = false := by decide
  have hfree : ∀ c ∈ (host ++ ":" ++ name).toList, isBlank c = false := by
    intro c hc
    simp only [String.toList_append, List.mem_append] at hc
    rcases hc with (hc | hc) | hc
    · exact (hhost.unseparated c hc).1
    · obtain rfl : c = ':' := by simpa using hc
      exact hcolon
    · exact (hname.unseparated c hc).1
  rw [words, runs, pieces_of_free hfree]
  simp [String.append_assoc]

lemma ofText_request :
    Directive.Group.ofText (host ++ ":" ++ name) = .ok (.linked [host] [name]) := by
  have hsides : splitAt ':' (host ++ ":" ++ name) = [host, name] := by
    have hcolon : ∀ part ∈ [host, name], ':' ∉ part.toList := by
      simp only [List.forall_mem_cons, List.not_mem_nil, false_imp_iff, implies_true, and_true]
      exact ⟨fun h => (hhost.unseparated _ h).2.2 rfl, fun h => (hname.unseparated _ h).2.2 rfl⟩
    have hjoined : Text.join (String.singleton ':') [host, name] = host ++ ":" ++ name := by
      simp [Text.join, String.append_assoc]
    rw [← hjoined]
    exact splitAt_join (List.cons_ne_nil _ _) hcolon
  have hleft : splitAt ',' host = [host] := splitAt_of_free fun h => (hhost.unseparated _ h).2.1 rfl
  have hright : splitAt ',' name = [name] := splitAt_of_free fun h => (hname.unseparated _ h).2.1 rfl
  rw [ofText_eq, hsides]
  simp [hleft, hright, Ne.symm hhost.nonempty, Ne.symm hname.nonempty]

/-- Both rules read the text alike, as it has a colon. -/
lemma parse_request (rule : ColonlessRule) :
    Directive.parse rule (host ++ ":" ++ name) = .ok ((⟨∅⟩ : Directive).addLink host name) := by
  rw [parse_eq_ok, words_request hhost hname]
  exact ⟨[.linked [host] [name]], .cons (ofText_request hhost hname) .nil, rfl⟩

end Request

lemma isPair_addLink {host name : String} (hne : host ≠ name) :
    IsPair ((⟨∅⟩ : Directive).addLink host name) host name := by
  have hnone : ∀ k, (∅ : SortedMap String NameSet).get? k = none := fun _ => rfl
  refine ⟨fun k => ?_, ?_, ?_⟩
  · have hempty : (⟨∅⟩ : Directive).contains k = false := rfl
    simp [contains_addLink, hempty]
  · simp only [Directive.links?, Directive.addLink, Directive.addEdge, get?_update, if_neg hne, hnone, if_true]
    rfl
  · simp only [Directive.links?, Directive.addLink, Directive.addEdge, get?_update, if_neg hne.symm, hnone,
      if_true]
    rfl

/-! ### What the two names select -/

lemma eq_singleton {α : Type} {as : List α} (hnodup : as.Nodup) {a : α} (h : ∀ b, b ∈ as ↔ b = a) :
    as = [a] := by
  refine List.perm_singleton.mp ((List.perm_ext_iff_of_nodup hnodup (List.nodup_singleton a)).mpr ?_)
  simpa using h

/-- The names of a tree are distinct, and it has a host and another platform. -/
structure HasPair (tree : Inventory) (host platform : Platform) : Prop where
  unique : (tree.platforms.map (·.name)).Nodup
  host : host ∈ tree.platforms ∧ host.role = .host
  platform : platform ∈ tree.platforms ∧ platform.role = .cross

/-- One host with one target, each linked to the other. -/
def pairSelection (host platform : Platform) : Selection where
  hosts := [{ host with linked := .ofList [platform.name] }]
  targets := .ofList [(host.name, [.here { platform with linked := .ofList [host.name] }])]

lemma nodup_named {p : Plan} (hunique : (p.inventory.platforms.map (·.name)).Nodup) : p.named.Nodup := by
  have hnames : (p.named.map (·.name)).Sublist (p.inventory.platforms.map (·.name)) := by
    rw [Plan.named, List.map_map]
    exact List.filter_sublist.map _
  exact (hunique.sublist hnames).of_map

section Pair

variable {p : Plan} {host platform : Platform} (htree : HasPair p.inventory host platform)
  (hpair : IsPair p.directive host.name platform.name)

include htree hpair

lemma withLinks_pair : host.withLinks p.directive p.inventory.platformNames =
      { host with linked := .ofList [platform.name] } ∧
    platform.withLinks p.directive p.inventory.platformNames =
      { platform with linked := .ofList [host.name] } := by
  have hknown : ∀ name, p.inventory.platformNames.contains name = true →
      NameSet.inter (.ofList [name]) p.inventory.platformNames = .ofList [name] := by
    intro name hname
    refine eq_of_contains_eq fun other => ?_
    rw [contains_inter, contains_names]
    simp only [List.mem_singleton]
    exact and_iff_left_of_imp fun hother => hother ▸ hname
  have hhost := hknown host.name ((contains_platformNames _ _).mpr ⟨host, htree.host.1, rfl⟩)
  have hplatform := hknown platform.name ((contains_platformNames _ _).mpr ⟨platform, htree.platform.1, rfl⟩)
  simp only [Platform.withLinks, hpair.hostLinks, hpair.nameLinks, Option.map_some, Option.getD_some, hhost, hplatform,
    and_self]

/-- The tree has one platform of each name. -/
lemma mem_named_pair : ∀ found, found ∈ p.named ↔
    found = { host with linked := .ofList [platform.name] } ∨
      found = { platform with linked := .ofList [host.name] } := by
  intro found
  rw [← (withLinks_pair htree hpair).1, ← (withLinks_pair htree hpair).2]
  simp only [Plan.named, List.mem_map, List.mem_filter, hpair.contains]
  constructor
  · rintro ⟨original, ⟨hmem, hname | hname⟩, rfl⟩
    · exact .inl (by rw [List.inj_on_of_nodup_map htree.unique hmem htree.host.1 hname])
    · exact .inr (by rw [List.inj_on_of_nodup_map htree.unique hmem htree.platform.1 hname])
  · rintro (rfl | rfl)
    · exact ⟨host, ⟨htree.host.1, .inl rfl⟩, rfl⟩
    · exact ⟨platform, ⟨htree.platform.1, .inr rfl⟩, rfl⟩

lemma hosts_pair : p.hosts = [{ host with linked := .ofList [platform.name] }] := by
  have hone : p.named.filter (·.isHost) = [{ host with linked := .ofList [platform.name] }] := by
    refine eq_singleton ((nodup_named htree.unique).filter _) fun found => ?_
    rw [List.mem_filter, mem_named_pair htree hpair, isHost_iff]
    constructor
    · rintro ⟨rfl | rfl, hrole⟩
      · rfl
      · cases htree.platform.2.symm.trans hrole
    · rintro rfl
      exact ⟨.inl rfl, htree.host.2⟩
  rw [Plan.hosts, hone]

lemma localTargets_pair : p.localTargets =
    [(.here { platform with linked := .ofList [host.name] }, .ofList [host.name])] := by
  have hone : p.named.filter (fun platform => !platform.isHost) =
      [{ platform with linked := .ofList [host.name] }] := by
    refine eq_singleton ((nodup_named htree.unique).filter _) fun found => ?_
    rw [List.mem_filter, mem_named_pair htree hpair, Bool.not_eq_true', not_isHost_iff]
    constructor
    · rintro ⟨rfl | rfl, hrole⟩
      · cases htree.host.2.symm.trans hrole
      · rfl
    · rintro rfl
      exact ⟨.inr rfl, htree.platform.2⟩
  rw [Plan.localTargets, hone]
  rfl

lemma remoteTargets_pair : p.remoteTargets = [] := by
  refine List.eq_nil_iff_forall_not_mem.mpr fun item hitem => ?_
  obtain ⟨hnamed, hunknown, _⟩ := mem_remoteTargets.mp (show (item.1, item.2) ∈ p.remoteTargets from hitem)
  rcases (hpair.contains _).mp hnamed with hname | hname
  · exact hunknown ⟨host, htree.host.1, hname.symm⟩
  · exact hunknown ⟨platform, htree.platform.1, hname.symm⟩

/-- The run has this host with this target and nothing else. -/
theorem select_pair : p.select = .ok (pairSelection host platform) := by
  have hlinked : (NameSet.ofList [host.name]).contains host.name = true := by
    rw [contains_names]
    simp
  have hfor : hostsFor [{ host with linked := NameSet.ofList [platform.name] }] (.ofList [host.name]) =
      [host.name] := by
    simp [hostsFor, hlinked]
  have hattach : attach (.ofList [(host.name, [])]) [host.name]
      (.here { platform with linked := .ofList [host.name] }) =
        .ofList [(host.name, [.here { platform with linked := .ofList [host.name] }])] := by
    refine eq_of_get?_eq fun name => ?_
    have hnone : (SortedMap.empty : SortedMap String (List Target)).get? name = none := rfl
    by_cases hname : name = host.name
    · simp [attach, SortedMap.ofList, get?_update, get?_insert, hname]
    · simp [attach, SortedMap.ofList, get?_update, get?_insert, hname]
  rw [select, hosts_pair htree hpair, localTargets_pair htree hpair, remoteTargets_pair htree hpair]
  simp only [List.map_cons, List.map_nil, List.append_nil, List.foldl_cons, List.foldl_nil, hfor, hattach]
  rfl

end Pair

/-! ### The jobs that ask -/

/-- What is built downstream for a host is named by the directive and not known to the tree. -/
lemma remote_targetsOf {p : Plan} {selection : Selection} (hselect : p.select = .ok selection)
    {host name project branch : String}
    (h : .remote name project branch ∈ selection.targetsOf host) :
    p.directive.contains name = true ∧ ¬IsKnown p.inventory name := by
  rw [(select_eq_ok hselect).2.2, List.mem_flatMap] at h
  obtain ⟨⟨target, linked⟩, hitem, htarget⟩ := h
  obtain rfl := List.eq_of_mem_replicate htarget
  rcases List.mem_append.mp hitem with hlocal | hremote
  · obtain ⟨platform, hhere, _⟩ := mem_localTargets.mp hlocal
    cases hhere
  · obtain ⟨hnamed, hunknown, _⟩ := mem_remoteTargets.mp hremote
    exact ⟨hnamed, hunknown⟩

lemma target_of_start_mem {selection : Selection} {host : String} {target : Target}
    (h : .start host target ∈ purposes selection) :
    ∃ found ∈ selection.hosts, found.name = host ∧ target ∈ selection.targetsOf host := by
  obtain ⟨found, hfound, hmem⟩ := List.mem_flatMap.mp h
  rcases List.mem_append.mp hmem with hstep | hmem
  · simp at hstep
  · obtain ⟨other, hother, hstart⟩ := List.mem_flatMap.mp hmem
    have hsame : host = found.name ∧ target = other := by
      cases other with
      | here platform => simpa [targetPurposes] using hstart
      | remote name project branch => simpa [targetPurposes] using hstart
    obtain ⟨rfl, rfl⟩ := hsame
    exact ⟨found, hfound, rfl, hother⟩

/-- Every job of the first pipeline that starts a repository downstream asks it for one host and one
target of the selection. If the hosts have names that a directive can hold, as those that it names have,
then under either rule the text it is given is read as the directive of this pair; and every plan with
this directive whose tree has the two selects just this host for just this target. -/
theorem topLevel_requests {rule : ColonlessRule} {text : String} {p : Plan} {pipeline : Pipeline}
    (hparse : Directive.parse rule text = .ok p.directive) (h : p.topLevel = .ok pipeline) :
    ∃ selection, p.select = .ok selection ∧
      (∀ host ∈ selection.hosts, p.directive.contains host.name = true → IsDirectiveName host.name) ∧
      ((∀ host ∈ selection.hosts, IsDirectiveName host.name) →
        ∀ job ∈ pipeline.jobs, ∀ project branch strategy,
          job.trigger = some (.downstream project branch strategy) →
          ∃ host ∈ selection.hosts, ∃ name,
            .remote name project branch ∈ selection.targetsOf host.name ∧
            Fulfills p (.start host.name (.remote name project branch)) job ∧
            ∃ request, job.vars.get? RunVariable.platforms.name = some request ∧
              ∀ rule', ∃ d, Directive.parse rule' request = .ok d ∧ IsPair d host.name name ∧
                ∀ p' : Plan, p'.directive = d → ∀ host' platform, HasPair p'.inventory host' platform →
                  host'.name = host.name → platform.name = name →
                  p'.select = .ok (pairSelection host' platform)) := by
  obtain ⟨selection, jobs, hselect, hfulfills, _, _, hjobs⟩ := topLevel_jobs h
  refine ⟨selection, hselect, fun host _ hnamed => isDirectiveName_of_parse hparse hnamed, ?_⟩
  intro hnames job hjob project branch strategy htrigger
  rw [hjobs, (inStageOrder_perm _ _).mem_iff] at hjob
  obtain ⟨purpose, hpurpose, hdoes⟩ := exists_of_forall₂ hfulfills.flip hjob
  have hdoes : Fulfills p purpose job := hdoes
  obtain ⟨_, _, _, _, _, hchild⟩ | ⟨_, name, project', branch', rfl, hdown⟩ :=
    Fulfills.trigger hdoes htrigger
  · cases hchild
  · cases hdown
    obtain ⟨host, hhost, rfl, htarget⟩ := target_of_start_mem hpurpose
    obtain ⟨hnamed, hunknown⟩ := remote_targetsOf hselect htarget
    have hname := isDirectiveName_of_parse hparse hnamed
    -- the host is a platform of the tree and the target is none, so they are two names
    have hne : host.name ≠ name := by
      rintro rfl
      rw [(select_eq_ok hselect).1] at hhost
      obtain ⟨links, hmem⟩ := (isRelinked_of_mem_hosts hhost).1.mem
      exact hunknown ⟨_, hmem, rfl⟩
    have hvars : job.vars.get? RunVariable.platforms.name = some (host.name ++ ":" ++ name) := by
      rw [get?_eq_some, hdoes.work.2]
      exact List.mem_singleton_self _
    refine ⟨host, hhost, name, htarget, hdoes, _, hvars, fun rule' => ?_⟩
    refine ⟨_, parse_request (hnames host hhost) hname rule', isPair_addLink hne, ?_⟩
    rintro p' hdirective host' platform htree hhost' rfl
    refine select_pair htree ?_
    rw [hdirective, hhost']
    exact isPair_addLink hne

lemma remote_radioSelection {host : Platform} (hhost : host ∈ radioSelection.hosts)
    {name project branch : String} (h : .remote name project branch ∈ radioSelection.targetsOf host.name) :
    host.name = "ubuntu" ∧ name = "plutosdr" := by
  have hcentos : radioSelection.targetsOf "centos7" = [.here ⟨"xilinx", "core", .rcc .cross, ∅⟩,
      .here ⟨"zed", "platform", .hdl .cross false, .ofList ["centos7"]⟩] := rfl
  have hubuntu : radioSelection.targetsOf "ubuntu" = [.here ⟨"xilinx", "core", .rcc .cross, ∅⟩,
      .remote "plutosdr" "osp/plutosdr" "radio-main"] := rfl
  obtain rfl | rfl : host = ⟨"centos7", "core", .rcc .host, .ofList ["zed"]⟩ ∨
      host = ⟨"ubuntu", "core", .rcc .host, ∅⟩ := by simpa [radioSelection] using hhost
  · simp [hcentos] at h
  · rw [hubuntu] at h
    exact ⟨rfl, (by simpa using h : name = "plutosdr" ∧ _).1⟩

/-- A tree that has the host and the target of the job, and another host. -/
def plutoTree : Inventory :=
  ⟨[], [⟨"plutosdr", "osp", .hdl .cross false, ∅⟩, ⟨"centos7", "core", .rcc .host, ∅⟩,
    ⟨"ubuntu", "core", .rcc .host, ∅⟩]⟩

lemma hasPair_plutoTree : HasPair plutoTree ⟨"ubuntu", "core", .rcc .host, ∅⟩
    ⟨"plutosdr", "osp", .hdl .cross false, ∅⟩ :=
  ⟨by decide, by decide, by decide⟩

/-- The first pipeline starts what is to be built downstream. -/
lemma exists_downstream {p : Plan} {pipeline : Pipeline} (h : p.topLevel = .ok pipeline)
    {selection : Selection} (hselect : p.select = .ok selection) (host : Platform)
    (hhost : host ∈ selection.hosts) (name project branch : String)
    (htarget : .remote name project branch ∈ selection.targetsOf host.name) :
    ∃ job ∈ pipeline.jobs, job.trigger = some (.downstream project branch p.strategy) ∧
      job.vars.entries = [(RunVariable.platforms.name, host.name ++ ":" ++ name)] := by
  obtain ⟨started, jobs, hstarted, hfulfills, _, _, hjobs⟩ := topLevel_jobs h
  obtain rfl := Except.ok.inj (hselect.symm.trans hstarted)
  obtain ⟨job, hjob, hdoes⟩ := exists_of_forall₂ hfulfills (start_mem_purposes hhost htarget)
  exact ⟨job, by rwa [hjobs, (inStageOrder_perm _ _).mem_iff], hdoes.work⟩

/-- The job for `plutosdr` asks for it together with `ubuntu`, and the tree with these two and another
host selects just the two. -/
theorem topLevel_requests_radio :
    ∃ pipeline, radioPlan.topLevel = .ok pipeline ∧ ∃ job ∈ pipeline.jobs,
      job.trigger = some (.downstream "osp/plutosdr" "radio-main" radioPlan.strategy) ∧
      ∃ request d, job.vars.get? "platforms" = some request ∧ Directive.parse .merge request = .ok d ∧
        Plan.select { radioPlan with directive := d, inventory := plutoTree } =
          .ok (pairSelection ⟨"ubuntu", "core", .rcc .host, ∅⟩ ⟨"plutosdr", "osp", .hdl .cross false, ∅⟩) := by
  obtain ⟨pipeline, h⟩ : ∃ pipeline, radioPlan.topLevel = .ok pipeline :=
    succeeds_of_isSome (by decide +kernel)
  obtain ⟨selection, hselect, _, hrequests⟩ := topLevel_requests parse_radioText h
  obtain rfl : radioSelection = selection := Except.ok.inj (select_radioPlan.symm.trans hselect)
  obtain ⟨job, hjob, htrigger, _⟩ := exists_downstream h hselect ⟨"ubuntu", "core", .rcc .host, ∅⟩ (by decide)
    "plutosdr" "osp/plutosdr" "radio-main" (by decide)
  obtain ⟨host, hhost, name, htarget, _, request, hrequest, hread⟩ :=
    hrequests (by decide) job hjob _ _ _ htrigger
  obtain ⟨hubuntu, rfl⟩ := remote_radioSelection hhost htarget
  obtain ⟨d, hparse, _, hselects⟩ := hread .merge
  exact ⟨pipeline, h, job, hjob, htrigger, request, d, hrequest, hparse,
    hselects _ rfl _ _ hasPair_plutoTree hubuntu.symm rfl⟩

/-! ### A host without a name -/

/-- No name of the directive is a host, and the default host has an empty name. -/
def namelessPlan : Plan :=
  { radioPlan with
    settings := { radioPlan.settings with defaultHosts := [""] }
    inventory := ⟨[], [⟨"", "core", .rcc .host, ∅⟩]⟩
    directive := ⟨.ofList [("plutosdr", ∅)]⟩ }

def namelessSelection : Selection where
  hosts := [⟨"", "core", .rcc .host, ∅⟩]
  targets := .ofList [("", [.remote "plutosdr" "osp/plutosdr" "radio-main"])]

/-- An empty name has no separator in it, and yet what is asked for a host that is called so is not read
as a directive: the group has an empty item. -/
theorem topLevel_requests_nameless :
    Directive.parse .reset "plutosdr" = .ok namelessPlan.directive ∧
      ∃ pipeline selection, namelessPlan.topLevel = .ok pipeline ∧ namelessPlan.select = .ok selection ∧
        (∀ host ∈ selection.hosts, ∀ c ∈ host.name.toList, isBlank c = false ∧ c ≠ ',' ∧ c ≠ ':') ∧
        ∃ job ∈ pipeline.jobs,
          job.trigger = some (.downstream "osp/plutosdr" "radio-main" namelessPlan.strategy) ∧
          ∃ request, job.vars.get? "platforms" = some request ∧
            ∀ rule, Directive.parse rule request = .error (.emptyItem request) := by
  obtain ⟨pipeline, h⟩ : ∃ pipeline, namelessPlan.topLevel = .ok pipeline :=
    succeeds_of_isSome (by decide +kernel)
  have hselect : namelessPlan.select = .ok namelessSelection := by decide +kernel
  obtain ⟨job, hjob, htrigger, hvars⟩ := exists_downstream h hselect ⟨"", "core", .rcc .host, ∅⟩ (by decide)
    "plutosdr" "osp/plutosdr" "radio-main" (by decide)
  have hrequest : job.vars.get? "platforms" = some ":plutosdr" := by
    rw [get?_eq_some, hvars]
    exact List.mem_singleton_self _
  refine ⟨by decide +kernel, pipeline, namelessSelection, h, hselect, by simp [namelessSelection], job, hjob, htrigger,
    ":plutosdr", hrequest, fun rule => ?_⟩
  cases rule with
  | reset => decide +kernel
  | merge => decide +kernel

end CrossBuild.Proofs
