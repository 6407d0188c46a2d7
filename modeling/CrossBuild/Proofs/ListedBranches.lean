import CrossBuild.Command.Scripted
import CrossBuild.Proofs.TextWords
import CrossBuild.Repository
import Mathlib.Data.List.Forall2

/-!
# Branches that are listed

Listing the branches of the repositories downstream asks once for each repository that says where, in order,
and changes nothing but the branches of those that answer. These are then what the second fields of the
answer's lines name.
-/

namespace CrossBuild.Proofs
open Text

/-! ### What a line names -/

lemma after?_eq_some {start s rest : String} : after? start s = some rest ↔ s = start ++ rest := by
  rw [after?, Option.map_eq_some_iff]
  constructor
  · rintro ⟨chars, hchars, rfl⟩
    apply String.toList_injective
    rw [dropStart_eq_some.mp hchars, String.toList_append, String.toList_ofList]
  · rintro rfl
    exact ⟨rest.toList, dropStart_eq_some.mpr (String.toList_append ..), String.ofList_toList⟩

/-- The second word of the line is the ref of a head with this name. -/
def NamesHead (line name : String) : Prop := HasSecondWord line.toList ("refs/heads/" ++ name).toList

lemma headOfLine?_eq_some {line name : String} : Repository.headOfLine? line = some name ↔ NamesHead line name := by
  rw [Repository.headOfLine?, Option.bind_eq_some_iff, NamesHead, ← words_eq_second]
  constructor
  · rintro ⟨word, hword, hname⟩
    rw [hword, after?_eq_some.mp hname]
  · intro hword
    exact ⟨_, hword, after?_eq_some.mpr rfl⟩

/-- The names of heads in some lines, in their order. -/
inductive AreHeads : List String → List String → Prop
  | nil : AreHeads [] []
  | named {line name : String} {lines names : List String} : NamesHead line name → AreHeads lines names →
      AreHeads (line :: lines) (name :: names)
  | other {line : String} {lines names : List String} : (∀ name, ¬NamesHead line name) → AreHeads lines names →
      AreHeads (line :: lines) names

lemma areHeads_filterMap (lines : List String) : AreHeads lines (lines.filterMap Repository.headOfLine?) := by
  induction lines with
  | nil => exact .nil
  | cons line lines ih =>
    cases hline : Repository.headOfLine? line with
    | none =>
      rw [List.filterMap_cons_none hline]
      apply AreHeads.other _ ih
      intro name hname
      rw [headOfLine?_eq_some.mpr hname] at hline
      cases hline
    | some name =>
      rw [List.filterMap_cons_some hline]
      exact .named (headOfLine?_eq_some.mp hline) ih

/-! ### Lines of a listing -/

section Lines

variable {listing : String} {rows : List (String × String)} {ending : String}

lemma headOfLine?_empty : Repository.headOfLine? "" = none := rfl

/-- A carriage return before the end of a line is no part of any word. -/
lemma headOfLine?_dropReturn (line : List Char) :
    Repository.headOfLine? (String.ofList (dropReturn line)) = Repository.headOfLine? (String.ofList line) := by
  have hruns : runs isBlank (dropReturn line) = runs isBlank line := by
    rw [dropReturn]
    split
    · rename_i hlast
      have hsplit := List.dropLast_append_getLast? '\r' (beq_iff_eq.mp hlast)
      conv_rhs => rw [← hsplit]
      exact (runs_before_separators (List.forall_mem_singleton.mpr rfl) _).symm
    · rfl
  rw [Repository.headOfLine?, Repository.headOfLine?, words, words, String.toList_ofList, String.toList_ofList, hruns]

/-- How the lines of a listing are told from each other otherwise does not matter. -/
lemma heads_eq (listing : String) :
    Repository.heads listing = (splitAt '\n' listing).filterMap Repository.headOfLine? := by
  have hne := pieces_ne_nil (· == '\n') listing.toList
  rw [Repository.heads, lines, linesOf, splitAt]
  generalize pieces (· == '\n') listing.toList = ps at hne
  obtain ⟨front, last, rfl⟩ := (List.eq_nil_or_concat' ps).resolve_left hne
  have hfront : ((front.map dropReturn).map String.ofList).filterMap Repository.headOfLine? =
      (front.map String.ofList).filterMap Repository.headOfLine? := by
    simp only [List.filterMap_map]
    congr 1
    funext line
    exact headOfLine?_dropReturn line
  simp only [List.dropLast_concat, List.getLast?_concat, List.map_append, List.filterMap_append]
  cases last with
  | nil =>
    rw [hfront]
    simp [headOfLine?_empty]
  | cons c rest => simp only [List.map_append, List.filterMap_append, hfront]

/-- A text that is one word. -/
def IsWord (s : String) : Prop := s ≠ "" ∧ ∀ c ∈ s.toList, isBlank c = false

/-- The line of a head in a listing: the hash of its commit, a tab and its ref. -/
def headRow (row : String × String) : String := row.1 ++ "\t" ++ ("refs/heads/" ++ row.2)

lemma namesHead_headRow {row : String × String} (hhash : IsWord row.1) (hname : ∀ c ∈ row.2.toList, isBlank c = false) :
    NamesHead (headRow row) row.2 := by
  refine ⟨row.1.toList, '\t' :: ("refs/heads/" ++ row.2).toList, [], ?_, ?_⟩
  · refine ⟨⟨[], by simp [headRow], by simp⟩, ?_, hhash.2, ?_⟩
    · intro hempty
      exact hhash.1 (String.toList_eq_nil_iff.mp hempty)
    · rintro c ⟨⟩
      decide
  · have hstart : ∀ c ∈ "refs/heads/".toList, isBlank c = false := by simp [isBlank]
    refine ⟨⟨['\t'], by simp, List.forall_mem_singleton.mpr rfl⟩, by simp, ?_, by simp⟩
    intro c hc
    rw [String.toList_append, List.mem_append] at hc
    exact hc.elim (hstart c) (hname c)

lemma break_not_mem_headRow {row : String × String} (hhash : IsWord row.1)
    (hname : ∀ c ∈ row.2.toList, isBlank c = false) : '\n' ∉ (headRow row).toList := by
  have hfree : ∀ {s : String}, (∀ c ∈ s.toList, isBlank c = false) → '\n' ∉ s.toList := by
    intro s hs hbreak
    have hblank := hs '\n' hbreak
    cases hblank
  simp [headRow, hfree hhash.2, hfree hname]

/-- A listing of heads, a line for each, gives back their names. -/
lemma heads_rows (hrows : ∀ row ∈ rows, IsWord row.1 ∧ ∀ c ∈ row.2.toList, isBlank c = false)
    (hending : ending = "" ∨ ending = "\n") :
    Repository.heads (join "\n" (rows.map headRow) ++ ending) = rows.map Prod.snd := by
  have hnames : (rows.map headRow).filterMap Repository.headOfLine? = rows.map Prod.snd := by
    rw [List.filterMap_map, ← List.filterMap_eq_map]
    apply List.filterMap_congr
    intro row hrow
    obtain ⟨hhash, hname⟩ := hrows row hrow
    exact headOfLine?_eq_some.mpr (namesHead_headRow hhash hname)
  have hjoined : (splitAt '\n' (join "\n" (rows.map headRow))).filterMap Repository.headOfLine? =
      rows.map Prod.snd := by
    by_cases hne : rows = []
    · rw [hne]
      rfl
    · have hsplit : splitAt '\n' (join "\n" (rows.map headRow)) = rows.map headRow := by
        apply splitAt_join (by simpa using hne)
        intro line hline
        obtain ⟨row, hrow, rfl⟩ := List.mem_map.mp hline
        exact break_not_mem_headRow (hrows row hrow).1 (hrows row hrow).2
      rw [hsplit, hnames]
  rw [heads_eq]
  rcases hending with rfl | rfl
  · rw [String.append_empty, hjoined]
  · have hsplit := splitAt_append '\n' (join "\n" (rows.map headRow)) ""
    rw [String.append_empty] at hsplit
    change (splitAt '\n' (join "\n" (rows.map headRow) ++ String.singleton '\n')).filterMap _ = _
    rw [hsplit, List.filterMap_append, hjoined]
    exact List.append_nil _

end Lines

/-! ### Listing anew -/

/-- The words of the command that lists the branches at a place. -/
def listWords (url : String) : List String := ["git", "ls-remote", "--heads", url]

/-- What listing its branches makes of a repository. -/
structure IsRefreshed (rules : List Command.Rule) (r r' : Repository) : Prop where
  project : r'.project = r.project
  url : r'.url = r.url
  platforms : r'.platforms = r.platforms
  kept : (∀ url, r.url = some url → (Command.answer rules (listWords url)).exitCode ≠ 0) → r'.branches = r.branches
  listed : ∀ url, r.url = some url → (Command.answer rules (listWords url)).exitCode = 0 →
    AreHeads (splitAt '\n' (Command.answer rules (listWords url)).stdout) r'.branches

section Refresh

variable {rules : List Command.Rule}

lemma refresh_none {r : Repository} (hurl : r.url = none) (calls : List Command) :
    Repository.refresh (Command.scripted rules) r calls = (r, calls) := by
  unfold Repository.refresh
  rw [hurl]
  rfl

lemma refresh_some {r : Repository} {url : String} (hurl : r.url = some url) (calls : List Command) :
    Repository.refresh (Command.scripted rules) r calls =
      (if (Command.answer rules (listWords url)).exitCode = 0 then
        { r with branches := Repository.heads (Command.answer rules (listWords url)).stdout } else r,
        calls ++ [.ofArgv (listWords url)]) := by
  obtain ⟨project, place, platforms, branches⟩ := r
  obtain rfl : place = some url := hurl
  have hrun : (Command.scripted rules).runChecked (Repository.listCommand url) calls =
      ((Repository.listCommand url).check (Command.answer rules (listWords url)),
        calls ++ [.ofArgv (listWords url)]) := rfl
  unfold Repository.refresh
  dsimp only [bind, StateT.bind]
  rw [hrun, Command.check]
  by_cases hcode : (Command.answer rules (listWords url)).exitCode = 0
  · have haccepts : (Repository.listCommand url).accepts (Command.answer rules (listWords url)).exitCode = true := by
      rw [hcode]
      rfl
    rw [if_pos hcode, if_pos haccepts]
    rfl
  · have hrefuses : ¬(Repository.listCommand url).accepts (Command.answer rules (listWords url)).exitCode = true := by
      simpa [Command.accepts, Repository.listCommand, Command.ofArgv] using hcode
    rw [if_neg hcode, if_neg hrefuses]
    rfl

/-- One repository is asked for once, if it says where, and has changed at most its branches. -/
lemma run_refresh (rules : List Command.Rule) (r : Repository) (calls : List Command) :
    IsRefreshed rules r (Repository.refresh (Command.scripted rules) r calls).1 ∧
      (Repository.refresh (Command.scripted rules) r calls).2 =
        calls ++ r.url.toList.map fun url => .ofArgv (listWords url) := by
  cases hurl : r.url with
  | none =>
    rw [refresh_none hurl]
    refine ⟨⟨rfl, rfl, rfl, fun _ => rfl, ?_⟩, (List.append_nil calls).symm⟩
    intro url hother
    rw [hurl] at hother
    cases hother
  | some url =>
    rw [refresh_some hurl]
    refine ⟨?_, rfl⟩
    by_cases hcode : (Command.answer rules (listWords url)).exitCode = 0
    · rw [if_pos hcode]
      refine ⟨rfl, rfl, rfl, fun hfails => absurd hcode (hfails url hurl), ?_⟩
      intro other hother _
      obtain rfl := Option.some.inj (hurl.symm.trans hother)
      dsimp only
      rw [heads_eq]
      exact areHeads_filterMap _
    · rw [if_neg hcode]
      refine ⟨rfl, rfl, rfl, fun _ => rfl, ?_⟩
      intro other hother hzero
      obtain rfl := Option.some.inj (hurl.symm.trans hother)
      exact absurd hzero hcode

/-- The fallback is not named for a group and a branch, as it has no hyphen. -/
lemma branchFor_eq_wanted {r : Repository} {group branch : String} :
    r.branchFor group branch = group ++ "-" ++ branch ↔ group ++ "-" ++ branch ∈ r.branches := by
  have hne : Repository.fallbackBranch ≠ group ++ "-" ++ branch := by
    intro h
    have hhyphen : '-' ∈ Repository.fallbackBranch.toList := by
      rw [h]
      simp
    exact absurd hhyphen (by decide)
  rw [Repository.branchFor]
  split
  · rename_i hmem
    exact iff_of_true rfl (by simpa using hmem)
  · rename_i hmem
    exact iff_of_false hne (by simpa using hmem)

lemma run_refreshAll {repositories after : List Repository} {calls calls' : List Command}
    (h : Repository.refreshAll (Command.scripted rules) repositories calls = (after, calls')) :
    (calls' = calls ++ (repositories.filterMap (·.url)).map fun url => .ofArgv (listWords url)) ∧
      List.Forall₂ (IsRefreshed rules) repositories after := by
  induction repositories generalizing after calls with
  | nil =>
    obtain ⟨rfl, rfl⟩ := Prod.mk.inj h
    exact ⟨(List.append_nil calls).symm, .nil⟩
  | cons r rest ih =>
    obtain ⟨hrefreshed, hcalls⟩ := run_refresh rules r calls
    generalize hfirst : Repository.refresh (Command.scripted rules) r calls = first at hrefreshed hcalls
    have hrun : Repository.refreshAll (Command.scripted rules) (r :: rest) calls =
        (first.1 :: (Repository.refreshAll (Command.scripted rules) rest first.2).1,
          (Repository.refreshAll (Command.scripted rules) rest first.2).2) := by
      rw [← hfirst]
      rfl
    rw [hrun] at h
    obtain ⟨rfl, hrest⟩ := Prod.mk.inj h
    obtain ⟨hcallsRest, hrefreshedRest⟩ := ih (Prod.ext rfl hrest)
    refine ⟨?_, .cons hrefreshed hrefreshedRest⟩
    rw [hcallsRest, hcalls, List.append_assoc]
    cases hurl : r.url with
    | none =>
      rw [List.filterMap_cons_none hurl]
      rfl
    | some url =>
      rw [List.filterMap_cons_some hurl]
      rfl

/-- Listing the branches of repositories asks once for each that says where, in order, and changes only the
branches of those that answer. A branch is then started if it is one of them. -/
theorem listed_branches {repositories after : List Repository} {calls calls' : List Command}
    (h : Repository.refreshAll (Command.scripted rules) repositories calls = (after, calls')) :
    (calls' = calls ++ (repositories.filterMap (·.url)).map fun url => .ofArgv (listWords url)) ∧
      List.Forall₂ (IsRefreshed rules) repositories after ∧
      (∀ r ∈ after, ∀ group branch,
        (r.branchFor group branch = group ++ "-" ++ branch ↔ group ++ "-" ++ branch ∈ r.branches) ∧
          (group ++ "-" ++ branch ∉ r.branches → r.branchFor group branch = "develop")) ∧
      ∀ (rows : List (String × String)) (ending : String),
        (∀ row ∈ rows, IsWord row.1 ∧ ∀ c ∈ row.2.toList, isBlank c = false) → ending = "" ∨ ending = "\n" →
          Repository.heads (join "\n" (rows.map headRow) ++ ending) = rows.map Prod.snd := by
  obtain ⟨hcalls, hrefreshed⟩ := run_refreshAll h
  refine ⟨hcalls, hrefreshed, ?_, fun rows ending => heads_rows⟩
  intro r _ group branch
  refine ⟨branchFor_eq_wanted, fun hmem => ?_⟩
  rw [Repository.branchFor, if_neg (by simpa using hmem)]
  rfl

/-- A nested name is kept whole, a tag is left out, and a place that cannot be listed changes nothing. -/
theorem listed_branches_nested :
    ∃ (rules : List Command.Rule) (repositories after : List Repository) (calls' : List Command),
      Repository.refreshAll (Command.scripted rules) repositories [] = (after, calls') ∧
        calls' = [.ofArgv (listWords "a.git"), .ofArgv (listWords "gone.git")] ∧
        after.map Repository.branches = [["dev", "group-main/next"], ["kept"], ["develop"]] ∧
        List.Forall₂ (IsRefreshed rules) repositories after ∧
        Repository.heads (join "\n" ([("1a", "dev"), ("2b", "group-main/next")].map headRow) ++ "\n") =
          ["dev", "group-main/next"] := by
  let listing := "1a\trefs/heads/dev\n3c\trefs/tags/v1\n2b\trefs/heads/group-main/next\n"
  let rules : List Command.Rule :=
    [⟨["git"], ⟨0, listing, ""⟩⟩, ⟨listWords "gone.git", ⟨128, "9f\trefs/heads/lost\n", "not found"⟩⟩]
  let repositories : List Repository :=
    [⟨"a", some "a.git", ["zed"], []⟩, ⟨"gone", some "gone.git", [], ["kept"]⟩, ⟨"offline", none, [], ["develop"]⟩]
  let after : List Repository :=
    [⟨"a", some "a.git", ["zed"], ["dev", "group-main/next"]⟩, ⟨"gone", some "gone.git", [], ["kept"]⟩,
      ⟨"offline", none, [], ["develop"]⟩]
  have hrun : Repository.refreshAll (Command.scripted rules) repositories [] =
      (after, [.ofArgv (listWords "a.git"), .ofArgv (listWords "gone.git")]) :=
    Prod.ext (by decide +kernel) (by decide +kernel)
  obtain ⟨hcalls, hrefreshed, _, hrows⟩ := listed_branches hrun
  refine ⟨rules, repositories, after, _, hrun, hcalls, rfl, hrefreshed, ?_⟩
  have hwords : ∀ row ∈ [("1a", "dev"), ("2b", "group-main/next")],
      IsWord row.1 ∧ ∀ c ∈ row.2.toList, isBlank c = false := by
    simp [IsWord, isBlank]
  exact hrows _ "\n" hwords (.inr rfl)

end Refresh

end CrossBuild.Proofs
