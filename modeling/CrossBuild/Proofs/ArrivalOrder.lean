import CrossBuild.Handoff.Upload
import CrossBuild.Proofs.AlikeStores

/-!
# The order in which uploads arrive

Jobs of a stage pack their files each by itself, and what they have packed reaches the store in some order
and at some times. A store keeps what arrived last under each key. So where the keys differ the order makes
no difference, and where a job is tried again nothing is left of what it uploaded before: the store answers
the same later, and downloads come to the same end with the same files.
-/

namespace CrossBuild.Proofs
open Handoff

variable {σ : Type}

/-! ### Bundles on their way to a store -/

/-- A bundle that a job has packed for an upload, from the files that it had then. -/
structure PackedBundle where
  request : UploadRequest
  files : FileTree
  paths : List String
  data : ByteArray
  selected : selected files request.workspace request.selection = .ok paths
  packed : Archive.pack files request.workspace paths = .ok data

namespace PackedBundle

def key (b : PackedBundle) : String := b.request.key.text

def kept (b : PackedBundle) : ByteArray × Option BundleTag := (b.data, b.request.tag)

/-- The bundle reaches a store. -/
def arrive (s : Store σ) (b : PackedBundle) : Task σ HandoffError UploadReport := do
  let expiresAt ← Task.widen .store (s.put b.key b.data b.request.tag)
  return ⟨b.key, b.paths.length, b.data.size, Archive.Digest.sha256 b.data, expiresAt⟩

/-- The job selects and packs the same from these files. -/
structure IsPackedFrom (b : PackedBundle) (t : FileTree) : Prop where
  selected : Handoff.selected t b.request.workspace b.request.selection = .ok b.paths
  packed : Archive.pack t b.request.workspace b.paths = .ok b.data

lemma isPackedFrom_files (b : PackedBundle) : b.IsPackedFrom b.files := ⟨b.selected, b.packed⟩

/-- To upload is to pack a bundle and have it arrive. -/
lemma upload_eq_arrive {b : PackedBundle} {m : Machine σ} (h : b.IsPackedFrom m.files) (s : Store σ) :
    upload s b.request m = b.arrive s m := by
  have hrun : upload s b.request m = (Task.ofExcept id (Handoff.selected m.files b.request.workspace
      b.request.selection) >>= fun paths => Task.ofExcept .archive (Archive.pack m.files b.request.workspace paths) >>=
      fun data => Task.widen .store (s.put b.key data b.request.tag) >>= fun expiresAt =>
      pure ⟨b.key, paths.length, data.size, Archive.Digest.sha256 data, expiresAt⟩ : Task σ HandoffError UploadReport) m :=
    rfl
  rw [hrun, h.selected]
  change (Task.ofExcept .archive (Archive.pack m.files b.request.workspace b.paths) >>= _ :
    Task σ HandoffError UploadReport) m = _
  rw [h.packed]
  rfl

lemma arrive_gives (b : PackedBundle) {s : Store σ} {m m' : Machine σ} {expiresAt : Option Instant}
    (h : Gives (s.put b.key b.data b.request.tag) m expiresAt m') : ∃ report, Gives (b.arrive s) m report m' :=
  ⟨_, gives_bind.mpr ⟨expiresAt, m', gives_widen.mpr h, gives_pure.mpr ⟨rfl, rfl⟩⟩⟩

/-- There is an entry in the bundle for each path that the job selected, and nothing else. -/
lemma entries (b : PackedBundle) : ∃ entries, b.data = Archive.encode entries ∧
    List.Forall₂ (fun path e => Archive.entryOf b.files b.request.workspace path = .ok e) b.paths entries := by
  have hpacked := b.packed
  simp only [Archive.pack, Archive.entriesOf, bind_eq_ok, pure_eq_ok] at hpacked
  obtain ⟨entries, hentries, hdata⟩ := hpacked
  exact ⟨entries, hdata.symm, mapM_eq_ok.mp hentries⟩

end PackedBundle

/-- Bundles in the order in which they arrive, each with its time. -/
abbrev Arrivals := List (Instant × PackedBundle)

def arriveAll (s : Store σ) : Arrivals → Task σ HandoffError (List UploadReport)
  | [] => return []
  | (now, b) :: rest => do
    modify fun machine => { machine with now }
    let report ← b.arrive s
    return report :: (← arriveAll s rest)

/-! ### What is kept -/

/-- The last of some bundles under a key. -/
def lastUnder (key : String) (bundles : List PackedBundle) : Option PackedBundle :=
  bundles.reverse.find? (·.key == key)

def contentAfter (arrivals : Arrivals) (content : KeptBundles) : KeptBundles :=
  arrivals.foldl (fun content a => content.insert a.2.key a.2.kept) content

lemma get?_contentAfter (arrivals : Arrivals) (content : KeptBundles) (key : String) :
    (contentAfter arrivals content).get? key =
      ((lastUnder key (arrivals.map (·.2))).map (·.kept)).or (content.get? key) := by
  induction arrivals generalizing content with
  | nil => rfl
  | cons a rest ih =>
    rw [contentAfter, List.foldl_cons]
    change (contentAfter rest _).get? key = _
    rw [ih, get?_insert, lastUnder, lastUnder, List.map_cons, List.reverse_cons, List.find?_append]
    cases (rest.map (·.2)).reverse.find? (·.key == key) with
    | some b => rfl
    | none =>
      by_cases hkey : key = a.2.key
      · simp [hkey]
      · simp [hkey, Ne.symm hkey]

/-- The same uploads arrive: in another order if their keys differ, or without a first attempt if the job that
made it was tried again. -/
inductive SameUploads : List PackedBundle → List PackedBundle → Prop where
  | reordered {bundles bundles' : List PackedBundle} (hkeys : (bundles.map (·.key)).Nodup)
      (horder : bundles.Perm bundles') : SameUploads bundles bundles'
  | retried (before between after : List PackedBundle) {first last : PackedBundle} (hkey : first.key = last.key) :
      SameUploads (before ++ first :: between ++ last :: after) (before ++ between ++ last :: after)

lemma SameUploads.lastUnder {bundles bundles' : List PackedBundle} (h : SameUploads bundles bundles') (key : String) :
    lastUnder key bundles = lastUnder key bundles' := by
  cases h with
  | reordered hkeys horder =>
    have hnodup : (bundles.reverse.map (·.key)).Nodup := by
      rwa [List.map_reverse, List.nodup_reverse]
    have hnodup' : (bundles'.reverse.map (·.key)).Nodup := by
      rw [List.map_reverse, List.nodup_reverse]
      exact (horder.map _).nodup_iff.mp hkeys
    refine Option.ext fun b => ?_
    rw [Proofs.lastUnder, Proofs.lastUnder, find?_name_eq_some hnodup, find?_name_eq_some hnodup', List.mem_reverse,
      List.mem_reverse, horder.mem_iff]
  | @retried before between after first last hkey =>
    rw [Proofs.lastUnder, Proofs.lastUnder]
    by_cases hlast : last.key = key
    · simp [List.find?_append, hlast]
    · simp [List.find?_append, hkey, hlast]

/-! ### Stores that keep what arrives -/

/-- The store answers the same on both machines, and each download that comes later does the same on both. -/
structure SameStored (s : Store σ) (v : FileView) (m m' : Machine σ) : Prop where
  answers : AnswersAlike s m m'
  downloads : ∀ (request : DownloadRequest) (now : Instant), SameEnd (fun m m' => Alike v m.files m'.files)
    (download s request { m with now }) (download s request { m' with now })

/-- Both runs succeed, and what is stored after them is the same. Each bundle is packed from the files of its job, and
it arrives as an upload brings it from any machine where the job packs the same. Under each key an archive is stored
of the files that its last upload packed. -/
def SameOutcome (s : Store σ) (v : FileView) (m : Machine σ) (arrivals arrivals' : Arrivals) : Prop :=
  (∀ a ∈ arrivals ++ arrivals', a.2.IsPackedFrom a.2.files ∧ ∀ job : Machine σ, a.2.IsPackedFrom job.files →
    upload s a.2.request job = a.2.arrive s job) ∧
  ∃ reports reports' after after', Gives (arriveAll s arrivals) m reports after ∧
    Gives (arriveAll s arrivals') m reports' after' ∧ SameStored s v after after' ∧
    ∀ b, lastUnder b.key (arrivals.map (·.2)) = some b → ∃ entries,
      Gives (s.fetch b.key) after (Archive.encode entries) after ∧
      List.Forall₂ (fun path e => Archive.entryOf b.files b.request.workspace path = .ok e) b.paths entries

section Outcomes

variable {s : Store σ} {v : FileView} {holds : KeptBundles → Machine σ → Prop} {m : Machine σ} {content : KeptBundles}
  {arrivals arrivals' : Arrivals}

lemma arriveAll_gives (hput : ∀ a ∈ arrivals, ∀ {content m}, holds content m → ∃ expiresAt after,
      Gives (s.put a.2.key a.2.data a.2.request.tag) { m with now := a.1 } expiresAt after ∧
        holds (content.insert a.2.key a.2.kept) after)
    (hm : holds content m) :
    ∃ reports after, Gives (arriveAll s arrivals) m reports after ∧ holds (contentAfter arrivals content) after := by
  induction arrivals generalizing content m with
  | nil => exact ⟨[], m, gives_pure.mpr ⟨rfl, rfl⟩, hm⟩
  | cons a rest ih =>
    rw [List.forall_mem_cons] at hput
    obtain ⟨expiresAt, between, hfirst, hbetween⟩ := hput.1 hm
    obtain ⟨reports, after, hrest, hafter⟩ := ih hput.2 hbetween
    obtain ⟨report, harrive⟩ := a.2.arrive_gives hfirst
    refine ⟨report :: reports, after, gives_bind.mpr ⟨(), _, gives_modify.mpr rfl, ?_⟩, hafter⟩
    refine gives_bind.mpr ⟨report, between, harrive, gives_bind.mpr ⟨reports, after, hrest, ?_⟩⟩
    exact gives_pure.mpr ⟨rfl, rfl⟩

/-- What is kept after some uploads is seen from what arrived last under each key. -/
lemma sameOutcome (holds : KeptBundles → Machine σ → Prop)
    (hput : ∀ a ∈ arrivals ++ arrivals', ∀ {content m}, holds content m → ∃ expiresAt after,
      Gives (s.put a.2.key a.2.data a.2.request.tag) { m with now := a.1 } expiresAt after ∧
        holds (content.insert a.2.key a.2.kept) after)
    (hstored : ∀ {content m m'}, holds content m → holds content m' → SameStored s v m m')
    (hfetch : ∀ {content m key kept}, holds content m → content.get? key = some kept → Gives (s.fetch key) m kept.1 m)
    (hm : holds content m) (hsame : SameUploads (arrivals.map (·.2)) (arrivals'.map (·.2))) :
    SameOutcome s v m arrivals arrivals' := by
  rw [List.forall_mem_append] at hput
  obtain ⟨reports, after, hgives, hafter⟩ := arriveAll_gives hput.1 hm
  obtain ⟨reports', after', hgives', hafter'⟩ := arriveAll_gives hput.2 hm
  have hcontent : contentAfter arrivals content = contentAfter arrivals' content :=
    eq_of_get?_eq fun key => by rw [get?_contentAfter, get?_contentAfter, hsame.lastUnder key]
  rw [← hcontent] at hafter'
  have huploads : ∀ a ∈ arrivals ++ arrivals', a.2.IsPackedFrom a.2.files ∧ ∀ job : Machine σ,
      a.2.IsPackedFrom job.files → upload s a.2.request job = a.2.arrive s job :=
    fun a _ => ⟨a.2.isPackedFrom_files, fun _ hjob => PackedBundle.upload_eq_arrive hjob s⟩
  refine ⟨huploads, reports, reports', after, after', hgives, hgives', hstored hafter hafter', fun b hb => ?_⟩
  obtain ⟨entries, hdata, hentries⟩ := b.entries
  have hkept : (contentAfter arrivals content).get? b.key = some b.kept := by
    rw [get?_contentAfter, hb]
    rfl
  exact ⟨entries, hdata ▸ hfetch hafter hkept, hentries⟩

end Outcomes

/-! ### The two stores -/

/-- What a store in a directory keeps tells what is done with it later. -/
lemma directory_sameStored {d : Directory} {start : FileTree} {o p : Place} (hempty : IsEmptyStore d start o p)
    (hway : LeadsStraight start d.objectsDir o) {content : KeptBundles} {m m' : Machine σ}
    (hm : HoldsBundles d start o p content m.files) (hm' : HoldsBundles d start o p content m'.files) :
    SameStored d.store (storeView o p) m m' := by
  have halike := hm.alike hempty hm'
  have hkept := hm.keepsDirectories hempty
  refine ⟨directory_answersAlike (hkept.isClean hway) halike, fun request now => ?_⟩
  have hsame : SameMachine (storeView o p) (fun _ _ => True) { m with now } { m' with now } := ⟨halike, rfl, trivial⟩
  have hend := download_alike (bears_keepsDirectories start o now request.workspace)
    (fun h hI => directory_answersAlike (hI.isClean hway) h.files) hsame rfl hkept
  exact ⟨hend.1, hend.2.files⟩

lemma memory_sameStored {r : Retention} {m m' : Machine Memory} (hfiles : m.files = m'.files)
    (h : ∀ key, (m.service.get? key).map (·.data) = (m'.service.get? key).map (·.data)) :
    SameStored (Memory.store r) .whole m m' := by
  refine ⟨memory_answersAlike h, fun request now => ?_⟩
  have hsame : SameMachine .whole (fun s s' : Memory => ∀ key, (s.get? key).map (·.data) = (s'.get? key).map (·.data))
      { m with now } { m' with now } := ⟨hfiles ▸ alike_refl m.files, rfl, h⟩
  have hend := download_alike (s := Memory.store r) (bears_true now request.workspace)
    (fun h _ => memory_answersAlike h.service) hsame rfl trivial
  exact ⟨hend.1, hend.2.files⟩

/-- In whichever order the uploads of jobs arrive at a store, and if a job is tried again, the store keeps the
same under each key, and downloads come to the same end. -/
theorem uploads_commute {r : Retention} {arrivals arrivals' : Arrivals}
    (hsame : SameUploads (arrivals.map (·.2)) (arrivals'.map (·.2)))
    (hexpiry : ∀ a ∈ arrivals ++ arrivals', r.expiry a.2.request.tag a.1 ≠ .beyond) :
    (∀ m : Machine Memory, SameOutcome (Memory.store r) .whole m arrivals arrivals') ∧
      ∀ {root : String} {start : FileTree} {o p : Place} {content : KeptBundles} {m : Machine σ},
        IsEmptyStore ⟨root, r⟩ start o p → LeadsStraight start (Directory.objectsDir ⟨root, r⟩) o →
        HoldsBundles ⟨root, r⟩ start o p content m.files →
        (∀ a ∈ arrivals ++ arrivals', IsMoment a.1 ∧ FitsDirectory ⟨root, r⟩ a.2.key) →
        SameOutcome (Directory.store ⟨root, r⟩) (storeView o p) m arrivals arrivals' := by
  constructor
  · intro m
    -- what no upload replaces is in the store as it was before
    let holds (content : KeptBundles) (after : Machine Memory) : Prop := after.files = m.files ∧ ∀ key,
      (after.service.get? key).map (·.data) = ((content.get? key).map (·.1)).or ((m.service.get? key).map (·.data))
    have hstart : holds ∅ m := ⟨rfl, fun _ => rfl⟩
    refine sameOutcome holds ?_ ?_ ?_ hstart hsame
    · intro a ha content before hbefore
      obtain ⟨expiresAt, hexpires⟩ := exists_expiresAs (hexpiry a ha)
      refine ⟨expiresAt, _, memory_put hexpires, hbefore.1, fun key => ?_⟩
      dsimp only
      rw [get?_insert, get?_insert]
      by_cases hkey : key = a.2.key
      · rw [if_pos hkey, if_pos hkey]
        rfl
      · rw [if_neg hkey, if_neg hkey]
        exact hbefore.2 key
    · intro content after after' hafter hafter'
      exact memory_sameStored (hafter.1.trans hafter'.1.symm) fun key => (hafter.2 key).trans (hafter'.2 key).symm
    · intro content after key kept hafter hkept
      have hdata := hafter.2 key
      rw [hkept, Option.map_some, Option.some_or, Option.map_eq_some_iff] at hdata
      obtain ⟨blob, hblob, hdata⟩ := hdata
      exact hdata ▸ memory_fetch_some hblob
  · intro root start o p content m hempty hway hm hfits
    refine sameOutcome (fun content m => HoldsBundles ⟨root, r⟩ start o p content m.files) ?_
      (directory_sameStored hempty hway) ?_ hm hsame
    · intro a ha content m hm
      obtain ⟨expiresAt, hexpires⟩ := exists_expiresAs (hexpiry a ha)
      obtain ⟨hnow, hkey⟩ := hfits a ha
      obtain ⟨t', hput, hheld⟩ := HoldsBundles.put (m := { m with now := a.1 }) hempty hm hnow hkey hexpires
      exact ⟨expiresAt, _, hput, hheld⟩
    · intro content m key kept hm hkept
      have hfetch := hm.fetch hempty (hm.fits ((contains_eq_true content key).mpr ⟨kept, hkept⟩))
      rw [hkept] at hfetch
      exact hfetch

/-- The files of a job that has made one file. -/
def madeTree (name : String) : FileTree where
  nodes := .ofList [(["w"], .directory 0o755), (["w", name], .file ⟨name.toUTF8, ⟨100, 0⟩, 0o644⟩)]
  current := ["w"]

/-- The bundle of a job that makes one file when it is first tried, and another one when it is tried again. -/
def attempt (name : String) (h : name = "first" ∨ name = "second") : PackedBundle where
  request := ⟨".", buildKey "new", .all, some .successfulJob⟩
  files := madeTree name
  paths := [name]
  data := (Archive.pack (madeTree name) "." [name]).toOption.getD .empty
  selected := by rcases h with rfl | rfl <;> decide +kernel
  packed := by
    have hpack : (Archive.pack (madeTree name) "." [name]).isOk = true := by
      rcases h with rfl | rfl <;> decide +kernel
    cases hdata : Archive.pack (madeTree name) "." [name] with
    | ok data => rfl
    | error e =>
      rw [hdata] at hpack
      cases hpack

lemma leadsStraight_storeTree : LeadsStraight storeTree "/objects" ["objects"] := by
  have hway : FileTree.checkDirectory storeTree [] FileTree.searchBit = .ok () := by rfl
  have hthere : storeTree.get? ([] ++ ["objects"]) = some (.directory 0o755) := by rfl
  exact Passes.into hway (by decide) hthere (.done (by rfl))

/-- Of a job that is tried again, the store keeps what was packed the second time. -/
theorem uploads_commute_retried :
    ∃ (first last : PackedBundle) (m : Machine Memory) (m' : Machine Unit),
      first.paths = ["first"] ∧ last.paths = ["second"] ∧
      SameUploads (([(⟨0, 0⟩, first), (⟨1, 0⟩, last)] : Arrivals).map (·.2)) (([(⟨2, 0⟩, last)] : Arrivals).map (·.2)) ∧
      (∀ a ∈ ([(⟨0, 0⟩, first), (⟨1, 0⟩, last)] ++ [(⟨2, 0⟩, last)] : Arrivals),
        Retention.expiry .standard a.2.request.tag a.1 ≠ .beyond) ∧
      SameOutcome (Memory.store .standard) .whole m [(⟨0, 0⟩, first), (⟨1, 0⟩, last)] [(⟨2, 0⟩, last)] ∧
      SameOutcome (Directory.store ⟨"/", .standard⟩) (storeView ["objects"] ["meta"]) m'
        [(⟨0, 0⟩, first), (⟨1, 0⟩, last)] [(⟨2, 0⟩, last)] := by
  let arrivals : Arrivals := [(⟨0, 0⟩, attempt "first" (.inl rfl)), (⟨1, 0⟩, attempt "second" (.inr rfl))]
  let arrivals' : Arrivals := [(⟨2, 0⟩, attempt "second" (.inr rfl))]
  have hsame : SameUploads (arrivals.map (·.2)) (arrivals'.map (·.2)) := .retried [] [] [] rfl
  have hexpiry : ∀ a ∈ arrivals ++ arrivals', Retention.expiry .standard a.2.request.tag a.1 ≠ .beyond := by
    decide +kernel
  have hmoment : ∀ a ∈ arrivals ++ arrivals', IsMoment a.1 := by
    intro a ha
    refine ⟨?_, ?_, .inl ?_⟩ <;> revert a <;> decide +kernel
  have hkey : ∀ a ∈ arrivals ++ arrivals', a.2.key = (buildKey "new").text := by
    decide +kernel
  obtain ⟨hmemory, hdirectory⟩ := uploads_commute (σ := Unit) hsame hexpiry
  exact ⟨_, _, ⟨storeTree, ⟨0, 0⟩, ∅⟩, ⟨storeTree, ⟨0, 0⟩, ()⟩, rfl, rfl, hsame, hexpiry, hmemory _,
    hdirectory isEmptyStore_storeTree leadsStraight_storeTree (holdsBundles_empty isEmptyStore_storeTree)
      fun a ha => ⟨hmoment a ha, hkey a ha ▸ fits_buildKey (.inr rfl)⟩⟩

end CrossBuild.Proofs
