import CrossBuild.Plan.Selection
import CrossBuild.Proofs.DirectiveMeaning

/-!
# What a run selects

The hosts and targets of a run are found by filtering the tree and by attaching one target after another
to lists of hosts. Here it is said directly which hosts a run has, which targets a directive offers and
to which hosts each of them goes; `select_meaning` shows that the selection is just that, with the
targets of every host in the order of the tree and then of their names.
-/

namespace CrossBuild.Proofs
open Plan

/-! ### What is wanted -/

def IsKnown (tree : Inventory) (name : String) : Prop :=
  ∃ platform ∈ tree.platforms, platform.name = name

instance (tree : Inventory) (name : String) : Decidable (IsKnown tree name) :=
  inferInstanceAs (Decidable (∃ platform ∈ tree.platforms, platform.name = name))

def IsHostName (tree : Inventory) (name : String) : Prop :=
  ∃ platform ∈ tree.platforms, platform.name = name ∧ platform.role = .host

instance (tree : Inventory) (name : String) : Decidable (IsHostName tree name) :=
  inferInstanceAs (Decidable (∃ platform ∈ tree.platforms, platform.name = name ∧ platform.role = .host))

/-- The hosts of the tree that the directive names, in the order of the tree. -/
def directHosts (p : Plan) : List String :=
  (p.inventory.platforms.filter fun platform =>
    platform.role = .host ∧ p.directive.contains platform.name = true).map (·.name)

/-- The hosts to build: those that the directive names, else the default ones that the tree has. -/
def wantedHosts (p : Plan) : List String :=
  if directHosts p = [] then p.defaultHostNames.filter (fun name => IsHostName p.inventory name)
  else directHosts p

/-- A platform of the tree that has for links what the directive links it to within the tree. -/
structure IsRelinked (p : Plan) (platform : Platform) : Prop where
  mem : ∃ links, { platform with linked := links } ∈ p.inventory.platforms
  linked : ∀ name, platform.linked.contains name = true ↔
    LinksTo p.directive platform.name name ∧ IsKnown p.inventory name

/-- What there is to build: platforms of the tree that are no hosts, and for other names what the first
repository downstream that has the platform builds. -/
inductive IsOffered (p : Plan) : Target → Prop where
  | here {platform : Platform} (hlinks : IsRelinked p platform) (hrole : platform.role = .cross) :
      IsOffered p (.here platform)
  | remote {name : String} {repository : Repository} {before after : List Repository}
      (hunknown : ¬IsKnown p.inventory name)
      (hlist : p.settings.downstream = before ++ repository :: after)
      (hbuilds : name ∈ repository.platforms)
      (hfirst : ∀ earlier ∈ before, name ∉ earlier.platforms) :
      IsOffered p
        (.remote name repository.project (repository.branchFor p.run.group p.run.branch))

/-- A target goes to the hosts that it is linked to, or to all if it is linked to none of them. -/
def GoesTo (p : Plan) (name host : String) : Prop :=
  LinksTo p.directive name host ∨ ∀ other ∈ wantedHosts p, ¬LinksTo p.directive name other

instance (p : Plan) (name host : String) : Decidable (GoesTo p name host) :=
  inferInstanceAs (Decidable
    (LinksTo p.directive name host ∨ ∀ other ∈ wantedHosts p, ¬LinksTo p.directive name other))

/-! ### Platforms and their links -/

lemma map_filterMap_of_eq {α β : Type} {f : α → Option β} {g : β → α}
    (h : ∀ a b, f a = some b → g b = a) (as : List α) :
    (as.filterMap f).map g = as.filter (fun a => (f a).isSome) := by
  induction as with
  | nil => rfl
  | cons a as ih =>
    cases hf : f a with
    | none => simp [hf, ih]
    | some b => simp [hf, ih, h a b hf]

lemma isHost_iff (platform : Platform) : platform.isHost = true ↔ platform.role = .host := by
  simp [Platform.isHost]

lemma not_isHost_iff (platform : Platform) : platform.isHost = false ↔ platform.role = .cross := by
  unfold Platform.isHost
  cases platform.role <;> simp

lemma contains_platformNames (tree : Inventory) (name : String) :
    tree.platformNames.contains name = true ↔ IsKnown tree name := by
  rw [Inventory.platformNames, contains_names]
  simp [IsKnown]

lemma contains_withLinks (p : Plan) (platform : Platform) (name : String) :
    (platform.withLinks p.directive p.inventory.platformNames).linked.contains name = true ↔
      LinksTo p.directive platform.name name ∧ IsKnown p.inventory name := by
  unfold Platform.withLinks LinksTo
  cases p.directive.links? platform.name with
  | none =>
    have hnothing : (∅ : NameSet).contains name = false := rfl
    simp [hnothing]
  | some links => simp [contains_inter, contains_platformNames]

lemma isRelinked_withLinks {p : Plan} {platform : Platform} (h : platform ∈ p.inventory.platforms) :
    IsRelinked p (platform.withLinks p.directive p.inventory.platformNames) :=
  ⟨⟨platform.linked, h⟩, contains_withLinks p platform⟩

/-- A platform with the right links is what the program makes of the platform of the tree. -/
lemma IsRelinked.eq_withLinks {p : Plan} {platform : Platform} (h : IsRelinked p platform) :
    ∃ original ∈ p.inventory.platforms,
      original.withLinks p.directive p.inventory.platformNames = platform := by
  obtain ⟨links, hmem⟩ := h.mem
  refine ⟨_, hmem, ?_⟩
  have hlinked : ({ platform with linked := links }.withLinks p.directive
      p.inventory.platformNames).linked = platform.linked := by
    refine eq_of_contains_eq fun name => ?_
    rw [contains_withLinks, h.linked]
  unfold Platform.withLinks at hlinked ⊢
  cases platform
  simpa using hlinked

lemma platform?_eq_some {tree : Inventory} (hunique : (tree.platforms.map (·.name)).Nodup)
    {name : String} {platform : Platform} :
    tree.platform? name = some platform ↔ platform ∈ tree.platforms ∧ platform.name = name :=
  find?_name_eq_some hunique

/-! ### Hosts -/

lemma names_named_hosts (p : Plan) : (p.named.filter (·.isHost)).map (·.name) = directHosts p := by
  have hhost : ∀ platform : Platform,
      (platform.withLinks p.directive p.inventory.platformNames).isHost = platform.isHost := fun _ => rfl
  have hname : ∀ platform : Platform,
      (platform.withLinks p.directive p.inventory.platformNames).name = platform.name := fun _ => rfl
  simp only [named, directHosts, List.filter_map, List.map_map, Function.comp_def, hhost, hname,
    List.filter_filter]
  congr 1
  refine List.filter_congr fun platform _ => ?_
  rw [Bool.eq_iff_iff]
  simp [isHost_iff]

lemma names_defaultHosts {p : Plan} (hunique : (p.inventory.platforms.map (·.name)).Nodup) :
    p.defaultHosts.map (·.name) =
      p.defaultHostNames.filter (fun name => IsHostName p.inventory name) := by
  unfold defaultHosts
  dsimp only
  rw [map_filterMap_of_eq]
  · refine List.filter_congr fun name _ => ?_
    rw [Bool.eq_iff_iff, Option.isSome_map, Option.isSome_iff_exists, decide_eq_true_iff]
    simp only [Option.filter_eq_some_iff, platform?_eq_some hunique, isHost_iff, IsHostName, and_assoc]
  · intro name platform h
    obtain ⟨original, horiginal, rfl⟩ := Option.map_eq_some_iff.mp h
    have hfound := (Option.filter_eq_some_iff.mp horiginal).1
    exact ((platform?_eq_some hunique).mp hfound).2

/-- The hosts of a plan are those wanted, in that order. -/
lemma names_hosts {p : Plan} (hunique : (p.inventory.platforms.map (·.name)).Nodup) :
    p.hosts.map (·.name) = wantedHosts p := by
  have hdirect := names_named_hosts p
  unfold Plan.hosts wantedHosts
  split
  · rename_i hnone
    rw [hnone, List.map_nil] at hdirect
    rw [if_pos hdirect.symm, names_defaultHosts hunique]
  · rename_i hsome
    have hne : directHosts p ≠ [] := by
      rw [← hdirect]
      simpa using hsome
    rw [if_neg hne, hdirect]

lemma isKnown_of_wanted {p : Plan} {name : String} (h : name ∈ wantedHosts p) :
    IsKnown p.inventory name := by
  unfold wantedHosts at h
  split at h
  · obtain ⟨platform, hmem, hname, _⟩ := of_decide_eq_true (List.mem_filter.mp h).2
    exact ⟨platform, hmem, hname⟩
  · obtain ⟨platform, hmem, hname⟩ := List.mem_map.mp h
    exact ⟨platform, (List.mem_filter.mp hmem).1, hname⟩

lemma mem_named {p : Plan} {platform : Platform} :
    platform ∈ p.named ↔ p.directive.contains platform.name = true ∧ IsRelinked p platform := by
  simp only [named, List.mem_map, List.mem_filter]
  constructor
  · rintro ⟨original, ⟨hmem, hnamed⟩, rfl⟩
    exact ⟨hnamed, isRelinked_withLinks hmem⟩
  · rintro ⟨hnamed, hlinks⟩
    obtain ⟨original, hmem, rfl⟩ := hlinks.eq_withLinks
    exact ⟨original, ⟨hmem, hnamed⟩, rfl⟩

lemma isRelinked_of_mem_hosts {p : Plan} {host : Platform} (h : host ∈ p.hosts) :
    IsRelinked p host ∧ host.role = .host := by
  unfold Plan.hosts at h
  split at h
  · simp only [defaultHosts, List.mem_filterMap] at h
    obtain ⟨name, _, h⟩ := h
    obtain ⟨original, horiginal, rfl⟩ := Option.map_eq_some_iff.mp h
    obtain ⟨hfound, hhost⟩ := Option.filter_eq_some_iff.mp horiginal
    exact ⟨isRelinked_withLinks (List.mem_of_find?_eq_some hfound), (isHost_iff original).mp hhost⟩
  · have hmem := List.mem_filter.mp h
    exact ⟨(mem_named.mp hmem.1).2, (isHost_iff host).mp hmem.2⟩

/-! ### Targets on offer -/

lemma mem_localTargets {p : Plan} {target : Target} {linked : NameSet} :
    (target, linked) ∈ p.localTargets ↔ ∃ platform, target = .here platform ∧ linked = platform.linked ∧
      p.directive.contains platform.name = true ∧ IsRelinked p platform ∧ platform.role = .cross := by
  simp only [localTargets, List.mem_map, List.mem_filter, mem_named, Bool.not_eq_true',
    not_isHost_iff, Prod.mk.injEq]
  constructor
  · rintro ⟨platform, ⟨⟨hnamed, hlinks⟩, hrole⟩, rfl, rfl⟩
    exact ⟨platform, rfl, rfl, hnamed, hlinks, hrole⟩
  · rintro ⟨platform, rfl, rfl, hnamed, hlinks, hrole⟩
    exact ⟨platform, ⟨⟨hnamed, hlinks⟩, hrole⟩, rfl, rfl⟩

lemma remoteTarget?_eq_some {p : Plan} {name : String} {target : Target}
    (hunknown : ¬IsKnown p.inventory name) :
    p.remoteTarget? name = some target ↔ target.name = name ∧ IsOffered p target := by
  simp only [remoteTarget?, Option.map_eq_some_iff, Settings.repositoryFor?,
    List.find?_eq_some_iff_append, Repository.provides, List.contains_iff_mem]
  constructor
  · rintro ⟨repository, ⟨hbuilds, before, after, hlist, hfirst⟩, rfl⟩
    exact ⟨rfl, .remote hunknown hlist hbuilds (by simpa using hfirst)⟩
  · rintro ⟨rfl, hoffered⟩
    cases hoffered with
    | here hlinks _ =>
      obtain ⟨links, hmem⟩ := hlinks.mem
      exact (hunknown ⟨_, hmem, rfl⟩).elim
    | remote _ hlist hbuilds hfirst =>
      exact ⟨_, ⟨hbuilds, _, _, hlist, by simpa [Target.name] using hfirst⟩, rfl⟩

lemma mem_remoteTargets {p : Plan} {target : Target} {linked : NameSet} :
    (target, linked) ∈ p.remoteTargets ↔ p.directive.contains target.name = true ∧
      ¬IsKnown p.inventory target.name ∧ IsOffered p target ∧
      linked = (p.directive.links? target.name).getD ∅ := by
  have hkeys : ∀ name, name ∈ p.directive.platforms ↔ p.directive.contains name = true :=
    mem_keys p.directive.links
  simp only [remoteTargets, List.mem_filterMap, List.mem_filter, hkeys, Bool.not_eq_true',
    ← Bool.not_eq_true, contains_platformNames, Option.map_eq_some_iff, Prod.mk.injEq]
  constructor
  · rintro ⟨name, ⟨hnamed, hunknown⟩, found, hfound, rfl, rfl⟩
    obtain ⟨rfl, hoffered⟩ := (remoteTarget?_eq_some hunknown).mp hfound
    exact ⟨hnamed, hunknown, hoffered, rfl⟩
  · rintro ⟨hnamed, hunknown, hoffered, rfl⟩
    exact ⟨target.name, ⟨hnamed, hunknown⟩, target,
      (remoteTarget?_eq_some hunknown).mpr ⟨rfl, hoffered⟩, rfl, rfl⟩

/-- All that the directive names and that is on offer is attached. -/
lemma mem_targets {p : Plan} {target : Target} :
    (∃ linked, (target, linked) ∈ p.localTargets ++ p.remoteTargets) ↔
      p.directive.contains target.name = true ∧ IsOffered p target := by
  simp only [List.mem_append, mem_localTargets, mem_remoteTargets]
  constructor
  · rintro ⟨_, ⟨platform, rfl, _, hnamed, hlinks, hrole⟩ | ⟨hnamed, _, hoffered, _⟩⟩
    · exact ⟨hnamed, .here hlinks hrole⟩
    · exact ⟨hnamed, hoffered⟩
  · rintro ⟨hnamed, hoffered⟩
    cases hoffered with
    | here hlinks hrole => exact ⟨_, .inl ⟨_, rfl, rfl, hnamed, hlinks, hrole⟩⟩
    | remote hunknown hlist hbuilds hfirst =>
      exact ⟨_, .inr ⟨hnamed, hunknown, .remote hunknown hlist hbuilds hfirst, rfl⟩⟩

lemma contains_linked {p : Plan} {target : Target} {linked : NameSet}
    (h : (target, linked) ∈ p.localTargets ++ p.remoteTargets) {name : String}
    (hknown : IsKnown p.inventory name) :
    linked.contains name = true ↔ LinksTo p.directive target.name name := by
  rcases List.mem_append.mp h with h | h
  · obtain ⟨platform, rfl, rfl, _, hlinks, _⟩ := mem_localTargets.mp h
    rw [hlinks.linked]
    exact and_iff_left hknown
  · obtain ⟨_, _, _, rfl⟩ := mem_remoteTargets.mp h
    unfold LinksTo
    cases p.directive.links? target.name with
    | none =>
      have hnothing : (∅ : NameSet).contains name = false := rfl
      simp [hnothing]
    | some links => simp

/-! ### Attaching targets to hosts -/

lemma getD_get?_attach (targets : SortedMap String (List Target)) (hosts : List String)
    (target : Target) (host : String) :
    ((attach targets hosts target).get? host).getD [] =
      (targets.get? host).getD [] ++ List.replicate (hosts.count host) target := by
  unfold attach
  induction hosts generalizing targets with
  | nil => simp
  | cons first hosts ih =>
    rw [List.foldl_cons, ih, get?_update]
    by_cases h : host = first
    · subst h
      simp [List.replicate_succ]
    · simp [h, List.count_cons_of_ne (Ne.symm h)]

lemma contains_attach (targets : SortedMap String (List Target)) (hosts : List String)
    (target : Target) (host : String) :
    (attach targets hosts target).contains host = true ↔ targets.contains host = true ∨ host ∈ hosts := by
  have hstep : ∀ (targets : SortedMap String (List Target)) (first : String),
      (targets.update first (fun old => old.getD [] ++ [target])).contains host = true ↔
        targets.contains host = true ∨ host = first := fun targets first =>
    (contains_update targets host first _).trans or_comm
  have hfold := foldl_or (P := fun targets => targets.contains host = true) hstep hosts targets
  simpa [attach] using hfold

lemma hostsFor_subset {hosts : List Platform} {linked : NameSet} {host : String}
    (h : host ∈ hostsFor hosts linked) : host ∈ hosts.map (·.name) := by
  unfold hostsFor at h
  split at h
  · exact h
  · exact List.map_subset _ (List.filter_subset_self _) h

/-- A host that is listed twice gets a target twice. -/
lemma count_hostsFor {hosts : List Platform} {names : List String} (hnames : hosts.map (·.name) = names)
    (linked : NameSet) (host : String) :
    (hostsFor hosts linked).count host =
      if linked.contains host = true ∨ ∀ other ∈ names, ¬linked.contains other = true
      then names.count host else 0 := by
  have hfilter : (hosts.filter (fun host => linked.contains host.name)).map (·.name) =
      names.filter linked.contains := by
    rw [← hnames, List.filter_map]
    rfl
  unfold hostsFor
  rw [hfilter, hnames]
  split
  · rename_i hnone
    rw [if_pos (.inr (List.filter_eq_nil_iff.mp hnone))]
  · rename_i hsome
    have hnot : ¬∀ other ∈ names, ¬linked.contains other = true := fun hall =>
      hsome (List.filter_eq_nil_iff.mpr hall)
    by_cases hhost : linked.contains host = true
    · rw [if_pos (.inl hhost), List.count_filter hhost]
    · rw [if_neg (not_or_intro hhost hnot), List.count_eq_zero]
      exact fun hmem => hhost (List.mem_filter.mp hmem).2

section Attached

variable (hosts : List Platform) (items : List (Target × NameSet))
  (targets : SortedMap String (List Target)) (host : String)

lemma getD_get?_attachAll :
    ((items.foldl (fun targets (target, linked) => attach targets (hostsFor hosts linked) target)
        targets).get? host).getD [] =
      (targets.get? host).getD [] ++
        items.flatMap fun item => List.replicate ((hostsFor hosts item.2).count host) item.1 := by
  induction items generalizing targets with
  | nil => simp
  | cons item items ih => rw [List.foldl_cons, ih, getD_get?_attach, List.flatMap_cons, List.append_assoc]

lemma contains_attachAll (h : ∀ host ∈ hosts, targets.contains host.name = true) :
    (items.foldl (fun targets (target, linked) => attach targets (hostsFor hosts linked) target)
        targets).contains host = true ↔ targets.contains host = true := by
  have hfold := foldl_or (P := fun targets => targets.contains host = true)
    (fun targets (item : Target × NameSet) => contains_attach targets (hostsFor hosts item.2) item.1 host)
    items targets
  refine hfold.trans (or_iff_left_of_imp ?_)
  rintro ⟨item, _, hmem⟩
  obtain ⟨found, hfound, rfl⟩ := List.mem_map.mp (hostsFor_subset hmem)
  exact h found hfound

end Attached

/-! ### The selection -/

/-- The hosts with no targets yet, where the selection starts. -/
lemma get?_withoutTargets (hosts : List Platform) (name : String) :
    ((SortedMap.ofList (hosts.map fun host => (host.name, ([] : List Target)))).get? name).getD [] = [] := by
  cases hget : (SortedMap.ofList (hosts.map fun host => (host.name, ([] : List Target)))).get? name with
  | none => rfl
  | some found =>
    have hmem := mem_of_get?_ofList hget
    simp only [List.mem_map, Prod.mk.injEq] at hmem
    obtain ⟨_, _, _, rfl⟩ := hmem
    rfl

lemma contains_withoutTargets (hosts : List Platform) (name : String) :
    (SortedMap.ofList (hosts.map fun host => (host.name, ([] : List Target)))).contains name = true ↔
      name ∈ hosts.map (·.name) := by
  rw [contains_ofList, List.map_map]
  rfl

lemma select_eq_ok {p : Plan} {selection : Selection} (h : p.select = .ok selection) :
    selection.hosts = p.hosts ∧
      (∀ host, host ∈ selection.targets.keys ↔ host ∈ p.hosts.map (·.name)) ∧
      ∀ host, selection.targetsOf host = (p.localTargets ++ p.remoteTargets).flatMap fun item =>
        List.replicate ((hostsFor p.hosts item.2).count host) item.1 := by
  unfold select at h
  split at h
  · cases h
  · cases h
    refine ⟨rfl, fun host => ?_, fun host => ?_⟩
    · rw [mem_keys, contains_attachAll, contains_withoutTargets]
      intro found hfound
      exact (contains_withoutTargets _ _).mpr (List.mem_map_of_mem hfound)
    · rw [Selection.targetsOf, getD_get?_attachAll, get?_withoutTargets, List.nil_append]

lemma flatMap_filter_eq {α β : Type} (test : α → Bool) (f : α → List β) (as : List α) :
    (as.filter test).flatMap f = as.flatMap fun a => if test a then f a else [] := by
  induction as with
  | nil => rfl
  | cons a as ih =>
    by_cases h : test a = true
    · simp [h, ih]
    · simp [h, ih]

section Targets

variable {p : Plan} (hunique : (p.inventory.platforms.map (·.name)).Nodup) {selection : Selection}
  (h : p.select = .ok selection)

include hunique h

/-- Each target that goes to a host is there once for each time that the host is listed. -/
lemma targetsOf_eq (host : String) :
    selection.targetsOf host =
      ((p.localTargets ++ p.remoteTargets).filter fun item => GoesTo p item.1.name host).flatMap
        fun item => List.replicate ((wantedHosts p).count host) item.1 := by
  rw [(select_eq_ok h).2.2, flatMap_filter_eq]
  by_cases hwanted : host ∈ wantedHosts p
  -- links within the tree decide, as the hosts that are wanted are known to it
  · refine List.flatMap_congr fun item hitem => ?_
    have hlinks : ∀ other ∈ wantedHosts p,
        (item.2.contains other = true ↔ LinksTo p.directive item.1.name other) := fun other hother =>
      contains_linked hitem (isKnown_of_wanted hother)
    have hgoes : (item.2.contains host = true ∨ ∀ other ∈ wantedHosts p, ¬item.2.contains other = true) ↔
        GoesTo p item.1.name host := by
      refine or_congr (hlinks host hwanted) (forall₂_congr fun other hother => ?_)
      rw [hlinks other hother]
    rw [count_hostsFor (names_hosts hunique)]
    simp only [hgoes, decide_eq_true_iff]
    by_cases hto : GoesTo p item.1.name host
    · simp [hto]
    · simp [hto]
  · have hcount : (wantedHosts p).count host = 0 := List.count_eq_zero.mpr hwanted
    refine List.flatMap_congr fun item _ => ?_
    simp [count_hostsFor (names_hosts hunique), hcount]

lemma mem_targetsOf {host : String} (hwanted : host ∈ wantedHosts p) (target : Target) :
    target ∈ selection.targetsOf host ↔
      p.directive.contains target.name = true ∧ IsOffered p target ∧ GoesTo p target.name host := by
  have hcount : (wantedHosts p).count host ≠ 0 := Nat.ne_of_gt (List.count_pos_iff.mpr hwanted)
  rw [targetsOf_eq hunique h, ← and_assoc, ← mem_targets]
  simp only [List.mem_flatMap, List.mem_filter, decide_eq_true_iff, List.mem_replicate]
  constructor
  · rintro ⟨⟨found, linked⟩, ⟨hitem, hgoes⟩, _, rfl⟩
    exact ⟨⟨linked, hitem⟩, hgoes⟩
  · rintro ⟨⟨linked, hitem⟩, hgoes⟩
    exact ⟨(target, linked), ⟨hitem, hgoes⟩, hcount, rfl⟩

/-- The platforms of the tree come first and in its order, all else after them by name. -/
lemma targetsOf_order (host : String) :
    ∃ (platforms : List Platform) (others : List Target),
      selection.targetsOf host =
        (platforms.map Target.here ++ others).flatMap (List.replicate ((wantedHosts p).count host)) ∧
      (platforms.map (·.name)).Sublist (p.inventory.platforms.map (·.name)) ∧
      (others.map (·.name)).Pairwise (fun a b => compare a b = .lt) ∧
      ∀ target ∈ others, ¬IsKnown p.inventory target.name := by
  refine ⟨(p.named.filter (fun platform => !platform.isHost)).filter
      (fun platform => GoesTo p platform.name host),
    (p.remoteTargets.filter fun item => GoesTo p item.1.name host).map (·.1), ?_, ?_, ?_, ?_⟩
  · rw [targetsOf_eq hunique h, List.filter_append, List.flatMap_append, List.flatMap_append, localTargets,
      List.filter_map, List.flatMap_map, List.flatMap_map, List.flatMap_map]
    rfl
  · have hnamed : (p.named.map (·.name)).Sublist (p.inventory.platforms.map (·.name)) := by
      rw [named, List.map_map]
      exact List.filter_sublist.map _
    exact ((List.filter_sublist.trans List.filter_sublist).map _).trans hnamed
  · have hnames : (p.remoteTargets.map (·.1.name)).Sublist p.directive.platforms := by
      rw [remoteTargets, map_filterMap_of_eq]
      · exact List.filter_sublist.trans List.filter_sublist
      · intro name item hitem
        obtain ⟨target, htarget, rfl⟩ := Option.map_eq_some_iff.mp hitem
        obtain ⟨repository, _, rfl⟩ := Option.map_eq_some_iff.mp htarget
        rfl
    rw [List.map_map]
    exact (increasing_keys p.directive.links).sublist ((List.filter_sublist.map _).trans hnames)
  · intro target htarget
    obtain ⟨item, hitem, rfl⟩ := List.mem_map.mp htarget
    exact (mem_remoteTargets.mp (List.mem_filter.mp hitem).1).2.1

/-- The targets of a host differ in their names, but each is there as often as the host is listed. -/
lemma targetsOf_eq_replicated (host : String) :
    ∃ targets : List Target, (targets.map (·.name)).Nodup ∧
      selection.targetsOf host = targets.flatMap (List.replicate ((wantedHosts p).count host)) := by
  obtain ⟨platforms, others, heq, hlocal, hremote, hunknown⟩ := targetsOf_order hunique h host
  refine ⟨_, ?_, heq⟩
  rw [List.map_append, List.map_map]
  refine List.nodup_append.mpr ⟨hlocal.nodup hunique, hremote.imp ?_, ?_⟩
  · rintro a _ hlt rfl
    simp at hlt
  · rintro name hname other hother rfl
    obtain ⟨target, htarget, rfl⟩ := List.mem_map.mp hother
    obtain ⟨platform, hmem, hsame⟩ := List.mem_map.mp (hlocal.subset hname)
    exact hunknown target htarget ⟨platform, hmem, hsame⟩

/-- Where no host is listed twice, no host has two targets of one name. -/
lemma nodup_targetsOf (hdistinct : (wantedHosts p).Nodup) (host : String) :
    ((selection.targetsOf host).map (·.name)).Nodup := by
  obtain ⟨targets, hnames, heq⟩ := targetsOf_eq_replicated hunique h host
  by_cases hwanted : host ∈ wantedHosts p
  · have honce : List.replicate ((wantedHosts p).count host) = fun target : Target => [target] := by
      rw [List.count_eq_one_of_mem hdistinct hwanted]
      rfl
    rwa [heq, honce, List.flatMap_singleton']
  · rw [List.count_eq_zero.mpr hwanted] at heq
    rw [heq, List.flatMap_eq_nil_iff.mpr fun _ _ => List.replicate_zero, List.map_nil]
    exact List.nodup_nil

end Targets

lemma select_eq_error {p : Plan} {error : PlanError} :
    p.select = .error error ↔ p.hosts = [] ∧ error = .noHosts := by
  unfold select
  split
  · rename_i hnone
    simp [hnone, eq_comm]
  · rename_i hsome
    have hne : p.hosts ≠ [] := hsome
    simp [hne]

/-! ### A run with targets here and downstream -/

/-- Links one platform to a host, names another that is linked to none, and links a host to a platform
that the tree does not have. -/
def radioText : String := "centos7:zed xilinx ubuntu:plutosdr"

def radioDirective : Directive := ((Directive.parse .reset radioText).toOption).getD ⟨∅⟩

lemma parse_radioText : Directive.parse .reset radioText = .ok radioDirective := by decide +kernel

def radioPlan : Plan where
  settings := { Settings.standard with
    downstream := [⟨"osp/plutosdr", none, ["plutosdr"], ["radio-main"]⟩] }
  catalog := .v2
  inventory := ⟨[], [⟨"centos7", "core", .rcc .host, ∅⟩, ⟨"ubuntu", "core", .rcc .host, ∅⟩,
    ⟨"xilinx", "core", .rcc .cross, ∅⟩, ⟨"zed", "platform", .hdl .cross false, ∅⟩]⟩
  run := { (default : Run) with group := "radio", branch := "main" }
  directive := radioDirective

def radioSelection : Selection where
  hosts := [⟨"centos7", "core", .rcc .host, .ofList ["zed"]⟩, ⟨"ubuntu", "core", .rcc .host, ∅⟩]
  targets := .ofList [
    ("centos7", [.here ⟨"xilinx", "core", .rcc .cross, ∅⟩,
      .here ⟨"zed", "platform", .hdl .cross false, .ofList ["centos7"]⟩]),
    ("ubuntu", [.here ⟨"xilinx", "core", .rcc .cross, ∅⟩,
      .remote "plutosdr" "osp/plutosdr" "radio-main"])]

lemma select_radioPlan : radioPlan.select = .ok radioSelection := by decide +kernel

/-- What a run selects. It finds no hosts just when none is wanted. Otherwise it has the wanted hosts in
their order, and a host gets the targets that the directive names, that are on offer and that go to this
host: first those of the tree in its order, then the others by name, each as often as the host is
listed. -/
theorem select_meaning (p : Plan) (hunique : (p.inventory.platforms.map (·.name)).Nodup) :
    (p.select = .error .noHosts ↔ wantedHosts p = []) ∧
    (wantedHosts p ≠ [] → ∃ selection, p.select = .ok selection ∧
      selection.hosts.map (·.name) = wantedHosts p ∧
      (∀ host ∈ selection.hosts, IsRelinked p host ∧ host.role = .host) ∧
      (∀ name, name ∈ selection.targets.keys ↔ name ∈ wantedHosts p) ∧
      ∀ host ∈ wantedHosts p,
        (∀ target, target ∈ selection.targetsOf host ↔
          p.directive.contains target.name = true ∧ IsOffered p target ∧ GoesTo p target.name host) ∧
        ∃ (platforms : List Platform) (others : List Target),
          selection.targetsOf host =
            (platforms.map Target.here ++ others).flatMap (List.replicate ((wantedHosts p).count host)) ∧
          (platforms.map (·.name)).Sublist (p.inventory.platforms.map (·.name)) ∧
          (others.map (·.name)).Pairwise (fun a b => compare a b = .lt) ∧
          ∀ target ∈ others, ¬IsKnown p.inventory target.name) := by
  have hnames := names_hosts hunique
  have hempty : p.hosts = [] ↔ wantedHosts p = [] := by rw [← hnames, List.map_eq_nil_iff]
  refine ⟨by rw [select_eq_error, hempty]; exact and_iff_left rfl, fun hne => ?_⟩
  cases hselect : p.select with
  | error error => exact (hne (hempty.mp (select_eq_error.mp hselect).1)).elim
  | ok selection =>
    obtain ⟨hhosts, hkeys, _⟩ := select_eq_ok hselect
    refine ⟨selection, rfl, by rw [hhosts, hnames], ?_, by rwa [hnames] at hkeys, fun host hhost => ?_⟩
    · rw [hhosts]
      exact fun host => isRelinked_of_mem_hosts
    · exact ⟨mem_targetsOf hunique hselect hhost, targetsOf_order hunique hselect host⟩

/-- The platform downstream goes to the host that it is linked to, and the linked platform of the tree
stays away from that host. -/
theorem select_meaning_radio :
    (radioPlan.inventory.platforms.map (·.name)).Nodup ∧
    ∃ selection, radioPlan.select = .ok selection ∧
      selection.hosts.map (·.name) = ["centos7", "ubuntu"] ∧
      .remote "plutosdr" "osp/plutosdr" "radio-main" ∈ selection.targetsOf "ubuntu" ∧
      ∀ target ∈ selection.targetsOf "ubuntu", target.name ≠ "zed" := by
  have hunique : (radioPlan.inventory.platforms.map (·.name)).Nodup := by decide
  have hwanted : wantedHosts radioPlan = ["centos7", "ubuntu"] := by decide +kernel
  obtain ⟨selection, hselect, hhosts, _, _, htargets⟩ :=
    (select_meaning radioPlan hunique).2 (by simp [hwanted])
  obtain ⟨hmem, _⟩ := htargets "ubuntu" (by simp [hwanted])
  have hunknown : ¬IsKnown radioPlan.inventory "plutosdr" := by decide
  have hlist : radioPlan.settings.downstream = [] ++ [⟨"osp/plutosdr", none, ["plutosdr"], ["radio-main"]⟩] :=
    rfl
  have hoffered : IsOffered radioPlan (.remote "plutosdr" "osp/plutosdr" "radio-main") :=
    .remote hunknown hlist (by decide) (by simp)
  refine ⟨hunique, selection, hselect, hhosts.trans hwanted, ?_, fun target htarget hzed => ?_⟩
  · exact (hmem _).mpr ⟨by decide +kernel, hoffered, by decide +kernel⟩
  · have hgoes := ((hmem target).mp htarget).2.2
    rw [hzed] at hgoes
    exact absurd hgoes (by decide +kernel)

end CrossBuild.Proofs
