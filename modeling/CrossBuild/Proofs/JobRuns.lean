import CrossBuild.Proofs.SharedStores
import CrossBuild.Proofs.UploadedFiles
import Mathlib.Logic.Relation

/-!
# Runs of staged jobs

Any number of jobs share one clock and one store, which may be on a volume. Each starts in a workspace, takes bundles
from the store, touches a marker, builds, and uploads all that is later than the marker, while others do the same. Times
carry the proof: what is stored, and so what a download brings, is no later than the clock, which never goes
back, so it is no later than the marker of a job that goes on from there. What is later than a marker was
written by the build that came after it.
-/

namespace CrossBuild.Proofs
open Handoff

variable {σ : Type}

/-! ### Time -/

/-- One moment is another one or comes before it. -/
def NotAfter (a b : Instant) : Prop := a.isAfter b = false

lemma notAfter_iff {a b : Instant} :
    NotAfter a b ↔ a.seconds < b.seconds ∨ a.seconds = b.seconds ∧ a.nanos ≤ b.nanos := by
  simp only [NotAfter, Instant.isAfter, Bool.or_eq_false_iff, decide_eq_false_iff_not, Bool.and_eq_false_iff,
    beq_eq_false_iff_ne]
  omega

lemma notAfter_refl (a : Instant) : NotAfter a a := notAfter_iff.mpr (.inr ⟨rfl, Nat.le_refl _⟩)

lemma NotAfter.trans {a b c : Instant} (h : NotAfter a b) (h' : NotAfter b c) : NotAfter a c := by
  rw [notAfter_iff] at *
  omega

lemma NotAfter.seconds_le {a b : Instant} (h : NotAfter a b) : a.seconds ≤ b.seconds := by
  rw [notAfter_iff] at h
  omega

/-! ### Jobs -/

/-- What a build step has done. -/
structure BuildStep where
  /-- When the marker was touched, right before it. -/
  touched : Instant
  /-- Where it has written and when, the latest first. -/
  written : List (Place × Instant)

/-- When the build step last wrote at a place. -/
def BuildStep.lastWrite? (b : BuildStep) (q : Place) : Option Instant := (b.written.find? (·.1 = q)).map (·.2)

/-- A staged job on a machine of its own, whose workspace is at a place. -/
structure StagedJob where
  workspace : String
  place : Place
  files : FileTree
  /-- What its build step has done, from when the marker is touched. -/
  build : Option BuildStep

def StagedJob.markerPath (job : StagedJob) : String := Path.join job.workspace startMarker

/-- All jobs with the store and the clock that they share. -/
structure World (σ : Type) where
  now : Instant
  service : σ
  jobs : ℕ → Option StagedJob

namespace World

def machine (world : World σ) (job : StagedJob) : Machine σ := ⟨job.files, world.now, world.service⟩

def setJob (world : World σ) (i : ℕ) (job : StagedJob) : World σ :=
  { world with jobs := Function.update world.jobs i (some job) }

/-- The world after a job has worked on its machine. -/
def afterTask (world : World σ) (i : ℕ) (job : StagedJob) (m : Machine σ) : World σ :=
  { world.setJob i { job with files := m.files } with service := m.service }

end World

/-- A job starts from a workspace in which no file is later than the clock. -/
structure IsReady (now : Instant) (job : StagedJob) : Prop where
  waiting : job.build = none
  sound : IsSound job.files
  fresh : FilesBelow job.place (fun f => NotAfter f.modified now) job.files

/-- The file that a touch leaves. -/
def touchedFile (now : Instant) : Option File → File
  | some f => { f with modified := now }
  | none => ⟨.empty, now, FileTree.fileMode⟩

/-- A job that builds uploads what is later than its marker, and its workspace is still where it was. -/
structure Uploads (store : Store σ) (world : World σ) (job : StagedJob) (request : UploadRequest) (m' : Machine σ) :
    Prop where
  workspace : request.workspace = job.workspace
  selection : request.selection = .modifiedSince startMarker
  place : job.files.place job.workspace = .ok job.place
  run : ∃ report, Gives (Handoff.upload store request) (world.machine job) report m'

/-- What can happen next: the clock goes on, or one of the jobs does. -/
inductive Happens (store : Store σ) : World σ → World σ → Prop where
  | tick {world : World σ} {later : Instant} (hlater : NotAfter world.now later) (hbound : later.seconds < 2 ^ 63) :
      Happens store world { world with now := later }
  | start {world : World σ} {i : ℕ} {job : StagedJob} (hnew : world.jobs i = none) (hready : IsReady world.now job) :
      Happens store world (world.setJob i job)
  | download {world : World σ} {i : ℕ} {job : StagedJob} {request : DownloadRequest} {report : DownloadReport}
      {m' : Machine σ} (hjob : world.jobs i = some job) (hwaiting : job.build = none)
      (hworkspace : request.workspace = job.workspace)
      (hrun : Gives (Handoff.download store request) (world.machine job) report m') :
      Happens store world (world.afterTask i job m')
  /-- The marker is touched, and from now on the job builds. -/
  | touch {world : World σ} {i : ℕ} {job : StagedJob} {files : FileTree} (hjob : world.jobs i = some job)
      (hwaiting : job.build = none)
      (htouch : job.files.update job.markerPath (touchedFile world.now) world.now = .ok files) :
      Happens store world (world.setJob i { job with files, build := some ⟨world.now, []⟩ })
  | makeDirectories {world : World σ} {i : ℕ} {job : StagedJob} {b : BuildStep} (path : String)
      (hjob : world.jobs i = some job) (hbuild : job.build = some b) :
      Happens store world (world.setJob i { job with files := (job.files.makeDirectories path world.now).1 })
  /-- The build step writes a file, whose mode has nine bits and whose size is counted in 64 bits. -/
  | write {world : World σ} {i : ℕ} {job : StagedJob} {b : BuildStep} {path : String} {s : FileTree.Spot} {f : File}
      {files : FileTree} (hjob : world.jobs i = some job) (hbuild : job.build = some b)
      (hsized : f.data.size + Archive.blockSize ≤ 2 ^ 64) (hmode : f.mode < 512) (hnow : f.modified = world.now)
      (hspot : job.files.spot true path = .ok s) (hwrite : job.files.update path (fun _ => f) world.now = .ok files) :
      Happens store world (world.setJob i
        { job with files, build := some { b with written := (placeOf s, world.now) :: b.written } })
  | upload {world : World σ} {i : ℕ} {job : StagedJob} {b : BuildStep} {request : UploadRequest} {m' : Machine σ}
      (hjob : world.jobs i = some job) (hbuild : job.build = some b)
      (hupload : Uploads store world job request m') : Happens store world (world.afterTask i job m')

/-! ### What always holds -/

/-- All files in stored bundles are dated, no earlier than a second into 1970 and no later than a moment. -/
def DatedUntil (now : Instant) (bundles : Memory) : Prop :=
  ∀ key blob, bundles.get? key = some blob → ∀ e ∈ (Archive.decode blob.data).entries, ∀ seconds,
    e.modified = some seconds → 1 ≤ seconds ∧ seconds ≤ now.seconds

/-- What holds of a job that builds. -/
structure IsBuilding (now : Instant) (job : StagedJob) (b : BuildStep) : Prop where
  dated : 1 ≤ b.touched.seconds
  touched : NotAfter b.touched now
  written : ∀ w ∈ b.written, NotAfter b.touched w.2 ∧ NotAfter w.2 now
  /-- Files that the build has not written are no later than the touch of the marker. -/
  files : ∀ names f, fileAt job.files (job.place ++ names) = some f →
    match b.lastWrite? (job.place ++ names) with
    | some time => f.modified = time ∧ f.data.size + Archive.blockSize ≤ 2 ^ 64 ∧ f.mode < 512
    | none => NotAfter f.modified b.touched
  /-- The marker is still there, unless the build itself has written at its place. -/
  marker : ∃ q f,
    Leads job.files (startOf job.files job.markerPath) ((activePieces job.markerPath).map FileTree.stepOf) q ∧
    fileAt job.files q = some f ∧ f.modified = (b.lastWrite? q).getD b.touched

structure JobHolds (now : Instant) (job : StagedJob) : Prop where
  sound : IsSound job.files
  fresh : job.build = none → FilesBelow job.place (fun f => NotAfter f.modified now) job.files
  building : ∀ b, job.build = some b → IsBuilding now job b

/-- What holds of all jobs and of the store at any time. -/
structure WorldHolds (content : σ → Memory) (world : World σ) : Prop where
  clock : 1 ≤ world.now.seconds ∧ world.now.seconds < 2 ^ 63
  stored : DatedUntil world.now (content world.service)
  jobs : ∀ i job, world.jobs i = some job → JobHolds world.now job

section Later

variable {now later : Instant} (hlater : NotAfter now later)

include hlater

lemma DatedUntil.mono {bundles : Memory} (h : DatedUntil now bundles) : DatedUntil later bundles := by
  intro key blob hblob e he seconds hseconds
  have hbounds := h key blob hblob e he seconds hseconds
  exact ⟨hbounds.1, Int.le_trans hbounds.2 hlater.seconds_le⟩

lemma JobHolds.mono {job : StagedJob} (h : JobHolds now job) : JobHolds later job where
  sound := h.sound
  fresh := fun hwaiting names f hf => (h.fresh hwaiting names f hf).trans hlater
  building := by
    intro b hb
    have hbuilding := h.building b hb
    exact { hbuilding with
      touched := hbuilding.touched.trans hlater
      written := fun w hw => ⟨(hbuilding.written w hw).1, (hbuilding.written w hw).2.trans hlater⟩ }

end Later

lemma WorldHolds.setJob {content : σ → Memory} {world : World σ} (h : WorldHolds content world) {i : ℕ}
    {job : StagedJob} (hjob : JobHolds world.now job) : WorldHolds content (world.setJob i job) where
  clock := h.clock
  stored := h.stored
  jobs := by
    intro j other hother
    by_cases hj : j = i
    · subst hj
      obtain rfl : job = other := by simpa [World.setJob] using hother
      exact hjob
    · exact h.jobs j other (by simpa [World.setJob, hj] using hother)

/-! ### Changes of files -/

section Changes

variable {t t' : FileTree} {path : String} {now : Instant}

/-- The change puts a file at the place to which the path leads then. -/
structure FiledAt (t : FileTree) (path : String) (q : Place) (f : File) (t' : FileTree) : Prop where
  edit : Edit t q t'
  files : fileAt t' = Function.update (fileAt t) q (some f)
  place : t'.place path = .ok q
  notLink : ∀ target, t.get? q ≠ some (.link target)

lemma update_filedAt {f : Option File → File} (h : t.update path f now = .ok t') : ∃ s,
    t.spot true path = .ok s ∧ FiledAt t path (placeOf s) (f (fileAt t (placeOf s))) t' := by
  obtain ⟨s, hspot, hedit, ⟨changes, rfl⟩, hfree⟩ := update_edit h
  have hfiled : onceFiled (placeOf s) s = .taken (placeOf s) := by
    cases s with
    | taken place => rfl
    | free parent name => exact if_pos rfl
  have hroot : placeOf s ≠ [] := by
    intro hnil
    rw [hnil] at hfree
    rcases hfree with hnone | ⟨old, hold⟩
    · cases hnone
    · cases hold
  refine ⟨s, hspot, hedit, ?_, ?_, ?_⟩
  · exact (evolves_setFile t hroot _).files
  · rw [(alike_dated (v := .whole) _ changes).place, place_iff_spot, spot_filed hfree _ hspot, hfiled]
  · rcases hfree with hnone | ⟨old, hold⟩
    · simp [hnone]
    · simp [hold]

/-- Steps that lead to a file lead to it on, if the edit is not at a link and leaves a file there. -/
lemma Edit.leads {q p place : Place} {steps : List Step} (h : Edit t q t')
    (hlink : ∀ target, t.get? q ≠ some (.link target)) (hleads : Leads t place steps p) {f : File}
    (hf : fileAt t' p = some f) : Leads t' place steps p := by
  refine hleads.mono (fun _ => h.directoryAt) (fun other target htarget => ?_) ⟨_, get?_of_fileAt hf, by simp⟩
  rw [h.get?_of_ne, htarget]
  rintro rfl
  exact hlink target htarget

lemma leads_makeDirectories {p place : Place} {steps : List Step} (hleads : Leads t place steps p) {f : File}
    (hf : fileAt t p = some f) (path : String) (now : Instant) :
    Leads (t.makeDirectories path now).1 place steps p := by
  have hkept : Leads (t.makeDirectories path now).1 place steps p ∧
      fileAt (t.makeDirectories path now).1 = fileAt t := by
    refine makeDirectories_keeps (I := fun made => Leads made place steps p ∧ fileAt made = fileAt t) ?_ ⟨hleads, rfl⟩
    rintro above _ made made' ⟨hmade, hfiles⟩ hensure
    have hfiles' : fileAt made' = fileAt t := (ensureDirectory_evolves hensure).files.trans hfiles
    rcases ensureDirectory_cases hensure with ⟨rfl, _⟩ | ⟨parent, name, hspot, hedit⟩
    · exact ⟨hmade, hfiles⟩
    · have hnone := walkLinks_free hspot
      exact ⟨hedit.leads (by simp [hnone]) hmade (hfiles' ▸ hf), hfiles'⟩
  exact hkept.1

end Changes

/-! ### Steps of jobs -/

section Steps

variable {now : Instant} {job : StagedJob}

lemma jobHolds_of_isReady (h : IsReady now job) : JobHolds now job where
  sound := h.sound
  fresh := fun _ => h.fresh
  building := by
    intro b hb
    rw [h.waiting] at hb
    cases hb

lemma lastWrite?_cons (b : BuildStep) (p q : Place) (time : Instant) :
    ({ b with written := (p, time) :: b.written } : BuildStep).lastWrite? q =
      if p = q then some time else b.lastWrite? q := by
  unfold BuildStep.lastWrite?
  by_cases hp : p = q
  · simp [hp]
  · simp [hp]

lemma unpackedFile_notAfter {bundles : Memory} (h : DatedUntil now bundles) {key : String} {blob : Blob}
    (hblob : bundles.get? key = some blob) {e : Archive.Entry} (he : e ∈ (Archive.decode blob.data).entries) :
    NotAfter (Archive.unpackedFile e now).modified now := by
  unfold Archive.unpackedFile
  cases hmodified : e.modified with
  | none => exact notAfter_refl now
  | some seconds =>
    obtain ⟨hpos, hle⟩ := h key blob hblob e he seconds hmodified
    -- a time of zero would be unpacked as a second later
    have hne : (seconds == 0) = false := by
      rw [beq_eq_false_iff_ne]
      omega
    rw [notAfter_iff]
    simp only [Option.map_some, Option.getD_some, Archive.unpackedTime, hne, Bool.false_eq_true, if_false]
    omega

/-- The marker is new, and nothing is later than it. -/
lemma JobHolds.touch (h : JobHolds now job) (hdated : 1 ≤ now.seconds) (hwaiting : job.build = none)
    {files : FileTree} (htouch : job.files.update job.markerPath (touchedFile now) now = .ok files) :
    JobHolds now { job with files, build := some ⟨now, []⟩ } := by
  obtain ⟨s, _, hfiled⟩ := update_filedAt htouch
  have htouched : ∀ old, (touchedFile now old).modified = now := by
    rintro (_ | old)
    · rfl
    · rfl
  refine ⟨h.sound.update htouch, fun hnone => (Option.some_ne_none _ hnone).elim, ?_⟩
  rintro b hb
  cases hb
  constructor
  case dated => exact hdated
  case touched => exact notAfter_refl now
  case written => exact fun w hw => (List.not_mem_nil hw).elim
  case files =>
    intro names f hf
    change NotAfter f.modified now
    dsimp only at hf
    rw [hfiled.files] at hf
    by_cases hplace : job.place ++ names = placeOf s
    · rw [hplace, Function.update_self] at hf
      rw [← Option.some.inj hf, htouched]
      exact notAfter_refl now
    · rw [Function.update_of_ne hplace] at hf
      exact h.fresh hwaiting names f hf
  case marker =>
    refine ⟨placeOf s, touchedFile now (fileAt job.files (placeOf s)), leads_of_place hfiled.place, ?_, htouched _⟩
    dsimp only
    rw [hfiled.files, Function.update_self]

lemma JobHolds.makeDirectories (h : JobHolds now job) {b : BuildStep} (hbuild : job.build = some b)
    (path : String) : JobHolds now { job with files := (job.files.makeDirectories path now).1 } := by
  have hmade : Evolves job.files (job.files.makeDirectories path now).1 (fileAt job.files) :=
    makeDirectories_evolves rfl
  refine ⟨h.sound.makeDirectories path now, fun hnone => ?_, ?_⟩
  · dsimp only at hnone
    rw [hbuild] at hnone
    cases hnone
  · rintro b' hb'
    have hbuilding := h.building b' hb'
    obtain ⟨q, f, hleads, hf, hmodified⟩ := hbuilding.marker
    refine { hbuilding with files := ?_, marker := ?_ }
    · intro names f hf
      dsimp only at hf
      rw [hmade.files] at hf
      exact hbuilding.files names f hf
    · refine ⟨q, f, ?_, ?_, hmodified⟩
      · have hstart : startOf (job.files.makeDirectories path now).1 job.markerPath =
            startOf job.files job.markerPath := by
          rw [startOf, startOf, hmade.current]
        dsimp only [StagedJob.markerPath] at hstart hleads ⊢
        rw [hstart]
        exact leads_makeDirectories hleads hf path now
      · dsimp only
        rw [hmade.files]
        exact hf

/-- What the build writes it has written last, and at other places all is as it was. -/
lemma JobHolds.write (h : JobHolds now job) {b : BuildStep} (hbuild : job.build = some b) {path : String}
    {s : FileTree.Spot} {f : File} {files : FileTree} (hsized : f.data.size + Archive.blockSize ≤ 2 ^ 64)
    (hmode : f.mode < 512) (hnow : f.modified = now) (hspot : job.files.spot true path = .ok s)
    (hwrite : job.files.update path (fun _ => f) now = .ok files) : JobHolds now
      { job with files, build := some { b with written := (placeOf s, now) :: b.written } } := by
  have hbuilding := h.building b hbuild
  obtain ⟨s', hspot', hfiled⟩ := update_filedAt hwrite
  obtain rfl : s' = s := Except.ok.inj (hspot'.symm.trans hspot)
  refine ⟨h.sound.update hwrite, fun hnone => (Option.some_ne_none _ hnone).elim, ?_⟩
  rintro b' hb'
  cases hb'
  constructor
  case dated => exact hbuilding.dated
  case touched => exact hbuilding.touched
  case written =>
    exact List.forall_mem_cons.mpr ⟨⟨hbuilding.touched, notAfter_refl now⟩, hbuilding.written⟩
  case files =>
    intro names found hfound
    rw [lastWrite?_cons]
    dsimp only at hfound ⊢
    rw [hfiled.files] at hfound
    by_cases hplace : placeOf s' = job.place ++ names
    · rw [← hplace, Function.update_self] at hfound
      obtain rfl : f = found := Option.some.inj hfound
      rw [if_pos hplace]
      exact ⟨hnow, hsized, hmode⟩
    · rw [Function.update_of_ne (Ne.symm hplace)] at hfound
      rw [if_neg hplace]
      exact hbuilding.files names found hfound
  case marker =>
    obtain ⟨q, mark, hleads, hmark, hmodified⟩ := hbuilding.marker
    have hstart : startOf files job.markerPath = startOf job.files job.markerPath := by
      rw [startOf, startOf, hfiled.edit.current]
    -- the build may write the marker itself, and then the marker is dated by that
    have hafter : ∃ mark', fileAt files q = some mark' ∧
        mark'.modified = (if placeOf s' = q then some now else b.lastWrite? q).getD b.touched := by
      rw [hfiled.files]
      by_cases hq : placeOf s' = q
      · exact ⟨f, by rw [hq, Function.update_self], by rw [if_pos hq]; exact hnow⟩
      · exact ⟨mark, by rw [Function.update_of_ne (Ne.symm hq), hmark], by rw [if_neg hq]; exact hmodified⟩
    obtain ⟨mark', hmark', hmodified'⟩ := hafter
    refine ⟨q, mark', ?_, hmark', ?_⟩
    · dsimp only [StagedJob.markerPath] at hstart hleads ⊢
      rw [hstart]
      exact hfiled.edit.leads hfiled.notLink hleads hmark'
    · rw [lastWrite?_cons]
      exact hmodified'

lemma JobHolds.download {store : Store σ} {content : σ → Memory} (hs : KeepsBundles store content)
    {world : World σ} (h : JobHolds world.now job) (hstored : DatedUntil world.now (content world.service))
    (hwaiting : job.build = none) {request : DownloadRequest} {report : DownloadReport} {m' : Machine σ}
    (hrun : Gives (Handoff.download store request) (world.machine job) report m') :
    JobHolds world.now { job with files := m'.files } := by
  have hserves := hs.serves request.workspace (content world.service)
  obtain ⟨hsound, hfresh⟩ := download_filesBelow hserves rfl (fun _ _ => notAfter_refl world.now)
    (fun key blob hblob e he => unpackedFile_notAfter hstored hblob he) h.sound (h.fresh hwaiting) hrun
  refine ⟨hsound, fun _ => hfresh, fun b hb => ?_⟩
  dsimp only at hb
  rw [hwaiting] at hb
  cases hb

end Steps

/-! ### Uploads -/

/-- The time of a marker is that of the file to which its path leads. -/
lemma markerTime_of_leads {t : FileTree} {time : Instant} {path : String} {q : Place} {f : File}
    (hleads : Leads t (startOf t path) ((activePieces path).map FileTree.stepOf) q) (hf : fileAt t q = some f)
    (h : markerTime t path = .ok time) : t.place path = .ok q ∧ f.modified = time := by
  obtain ⟨q', node, hplace, hnode, rfl⟩ := markerTime_eq_ok.mp h
  obtain rfl : q' = q := (leads_of_place hplace).unique hleads
  rw [get?_of_fileAt hf] at hnode
  cases hnode
  exact ⟨hplace, rfl⟩

/-- The file was last written by the build, later than the marker, and it has no name that is passed over. -/
structure IsOwn (job : StagedJob) (b : BuildStep) (mark : Instant) (names : Place) (f : File) : Prop where
  nonempty : names ≠ []
  kept : ∀ name, names.head? = some name → name ∉ ignoredNames
  there : fileAt job.files (job.place ++ names) = some f
  written : ∃ time, b.lastWrite? (job.place ++ names) = some time ∧ time.isAfter mark = true

lemma mem_of_lastWrite? {b : BuildStep} {q : Place} {time : Instant} (h : b.lastWrite? q = some time) :
    (q, time) ∈ b.written := by
  obtain ⟨w, hfind, rfl⟩ := Option.map_eq_some_iff.mp h
  have hq : w.1 = q := by simpa using List.find?_some hfind
  rw [← hq]
  exact List.mem_of_find?_eq_some hfind

section Own

variable {now : Instant} {job : StagedJob} {b : BuildStep} (h : IsBuilding now job b)

include h

lemma IsBuilding.touched_notAfter (q : Place) : NotAfter b.touched ((b.lastWrite? q).getD b.touched) := by
  cases hlast : b.lastWrite? q with
  | none => exact notAfter_refl b.touched
  | some time => exact (h.written _ (mem_of_lastWrite? hlast)).1

/-- Later than the marker are the build's own files alone. -/
lemma IsBuilding.mem_filesSince_iff {mark : Instant} (hmark : NotAfter b.touched mark) {names : Place} {f : File} :
    (names, f) ∈ filesSince job.files job.place mark ↔ IsOwn job b mark names f := by
  rw [mem_filesSince]
  constructor
  · rintro ⟨hne, hkept, hf, hlater⟩
    refine ⟨hne, hkept, hf, ?_⟩
    have hfile := h.files names f hf
    split at hfile
    · rename_i time hlast
      exact ⟨time, hlast, hfile.1 ▸ hlater⟩
    · -- not written by the build, so no later than the touch
      have hnot : f.modified.isAfter mark = false := hfile.trans hmark
      rw [hnot] at hlater
      cases hlater
  · rintro ⟨hne, hkept, hf, time, hlast, hlater⟩
    have hfile := h.files names f hf
    rw [hlast] at hfile
    exact ⟨hne, hkept, hf, hfile.1.symm ▸ hlater⟩

lemma IsOwn.bounds {mark : Instant} {names : Place} {f : File} (hown : IsOwn job b mark names f) :
    1 ≤ f.modified.seconds ∧ f.modified.seconds ≤ now.seconds ∧ f.data.size + Archive.blockSize ≤ 2 ^ 64 ∧
      f.mode < 512 := by
  obtain ⟨time, hlast, _⟩ := hown.written
  have hfile := h.files names f hown.there
  rw [hlast] at hfile
  obtain ⟨hmodified, hsized, hmode⟩ := hfile
  obtain ⟨hafter, hbefore⟩ := h.written _ (mem_of_lastWrite? hlast)
  rw [hmodified]
  exact ⟨Int.le_trans h.dated hafter.seconds_le, hbefore.seconds_le, hsized, hmode⟩

end Own

lemma Uploads.stored {store : Store σ} {content : σ → Memory} (hs : KeepsBundles store content) {world : World σ}
    (hclock : world.now.seconds < 2 ^ 63) {job : StagedJob} (hjob : JobHolds world.now job) {b : BuildStep}
    (hbuild : job.build = some b) {request : UploadRequest} {m' : Machine σ}
    (h : Uploads store world job request m') : m'.files = job.files ∧ ∃ q blob,
      job.files.place job.markerPath = .ok q ∧
      content m'.service = (content world.service).insert request.key.text blob ∧
      Archive.decode blob.data = ⟨(filesSince job.files job.place ((b.lastWrite? q).getD b.touched)).map
        fun own => fileEntry own.1 own.2, .complete⟩ := by
  have hbuilding := hjob.building b hbuild
  obtain ⟨report, hrun⟩ := h.run
  obtain ⟨time, data, expiry, hmarker, hput, hdecode⟩ := upload_modifiedSince h.selection hjob.sound
    (h.workspace ▸ h.place) hrun
  obtain ⟨⟨blob, rfl, hcontent⟩, hfiles, _⟩ := hs.put hput
  obtain ⟨q, f, hleads, hf, hmodified⟩ := hbuilding.marker
  rw [h.workspace] at hmarker
  obtain ⟨hplace, rfl⟩ := markerTime_of_leads hleads hf hmarker
  rw [hmodified] at hdecode
  refine ⟨hfiles, q, blob, hplace, hcontent, hdecode ?_⟩
  rintro ⟨names, own⟩ hown
  have hmark := hbuilding.touched_notAfter q
  obtain ⟨hdated, hbefore, hsized, hmode⟩ := ((hbuilding.mem_filesSince_iff hmark).mp hown).bounds hbuilding
  change IsPackable own
  exact ⟨hsized, hmode, by omega, by omega⟩

/-! ### Runs -/

section Runs

variable {store : Store σ} {content : σ → Memory} (hs : KeepsBundles store content)

omit hs in
lemma WorldHolds.afterTask {world : World σ} (h : WorldHolds content world) {i : ℕ} {job : StagedJob} {m : Machine σ}
    (hjob : JobHolds world.now { job with files := m.files }) (hstored : DatedUntil world.now (content m.service)) :
    WorldHolds content (world.afterTask i job m) :=
  ⟨h.clock, hstored, (h.setJob hjob).jobs⟩

include hs

lemma datedUntil_upload {world : World σ} (h : WorldHolds content world) {job : StagedJob}
    (hjob : JobHolds world.now job) {b : BuildStep} (hbuild : job.build = some b) {request : UploadRequest}
    {m' : Machine σ} (hupload : Uploads store world job request m') :
    DatedUntil world.now (content m'.service) := by
  have hbuilding := hjob.building b hbuild
  obtain ⟨_, q, blob, _, hcontent, hdecode⟩ := hupload.stored hs h.clock.2 hjob hbuild
  intro key found hfound e he seconds hseconds
  rw [hcontent, get?_insert] at hfound
  split at hfound
  · cases hfound
    rw [hdecode] at he
    obtain ⟨⟨names, f⟩, hown, rfl⟩ := List.mem_map.mp he
    have hmark := hbuilding.touched_notAfter q
    obtain ⟨hdated, hbefore, _⟩ := ((hbuilding.mem_filesSince_iff hmark).mp hown).bounds hbuilding
    cases hseconds
    exact ⟨hdated, hbefore⟩
  · exact h.stored key found hfound e he seconds hseconds

lemma WorldHolds.step {world next : World σ} (h : WorldHolds content world) (hnext : Happens store world next) :
    WorldHolds content next := by
  cases hnext with
  | tick hlater hbound =>
    exact ⟨⟨Int.le_trans h.clock.1 hlater.seconds_le, hbound⟩, h.stored.mono hlater,
      fun i job hjob => (h.jobs i job hjob).mono hlater⟩
  | start _ hready => exact h.setJob (jobHolds_of_isReady hready)
  | download hjob hwaiting _ hrun =>
    have hstored := hs.download hrun
    exact h.afterTask ((h.jobs _ _ hjob).download hs h.stored hwaiting hrun) (hstored ▸ h.stored)
  | touch hjob hwaiting htouch => exact h.setJob ((h.jobs _ _ hjob).touch h.clock.1 hwaiting htouch)
  | makeDirectories path hjob hbuild => exact h.setJob ((h.jobs _ _ hjob).makeDirectories hbuild path)
  | write hjob hbuild hsized hmode hnow hspot hwrite =>
    exact h.setJob ((h.jobs _ _ hjob).write hbuild hsized hmode hnow hspot hwrite)
  | upload hjob hbuild hupload =>
    have hholds := h.jobs _ _ hjob
    refine h.afterTask ?_ (datedUntil_upload hs h hholds hbuild hupload)
    rw [(hupload.stored hs h.clock.2 hholds hbuild).1]
    exact hholds

lemma WorldHolds.run {first world : World σ} (h : WorldHolds content first)
    (hrun : Relation.ReflTransGen (Happens store) first world) : WorldHolds content world := by
  induction hrun with
  | refl => exact h
  | tail _ hnext ih => exact ih.step hs hnext

end Runs

/-- No job has started, the clock shows a second into 1970 at least, and what is stored is no later. -/
structure IsFirst (content : σ → Memory) (world : World σ) : Prop where
  clock : 1 ≤ world.now.seconds ∧ world.now.seconds < 2 ^ 63
  stored : DatedUntil world.now (content world.service)
  jobs : ∀ i, world.jobs i = none

/-- Jobs can start with a volume on which a store was just set up. -/
lemma IsEmptyStore.isFirst {d : Directory} {t : FileTree} {o p : Place} (h : IsEmptyStore d t o p)
    (hnamed : HasFileNames t) {now : Instant} (hclock : 1 ≤ now.seconds ∧ now.seconds < 2 ^ 63) :
    IsFirst (fun v : Volume d o p => bundlesBelow o v.1) ⟨now, ⟨t, h.holdsStore hnamed⟩, fun _ => none⟩ where
  clock := hclock
  stored := by
    intro key blob hblob
    obtain ⟨husable, f, hf, _⟩ := (get?_bundlesBelow (h.holdsStore hnamed).sound).mp hblob
    have hnone := (h.empty (namesOf key) (isKeyPath_object d husable).ne_nil).1
    rw [get?_of_fileAt hf] at hnone
    cases hnone
  jobs := fun _ => rfl

/-- However jobs take turns, a bundle that one of them uploads holds the files that its own build wrote last,
later than its marker, and nothing else. The store is any that keeps what is put into it, such as one in memory
(`memory_keepsBundles`) or one in a directory of a volume (`volume_keepsBundles`). -/
theorem upload_own_files {store : Store σ} {content : σ → Memory} (hs : KeepsBundles store content)
    {first world : World σ} (hfirst : IsFirst content first)
    (hrun : Relation.ReflTransGen (Happens store) first world) {i : ℕ} {job : StagedJob} {b : BuildStep}
    (hjob : world.jobs i = some job) (hbuild : job.build = some b) {request : UploadRequest} {m' : Machine σ}
    (hupload : Uploads store world job request m') :
    ∃ (q : Place) (blob : Blob) (own : List (Place × File)),
      job.files.place job.markerPath = .ok q ∧ (content m'.service).get? request.key.text = some blob ∧
      Archive.decode blob.data = ⟨own.map fun p => fileEntry p.1 p.2, .complete⟩ ∧
      (own.map (·.1)).Nodup ∧
      ∀ names f, (names, f) ∈ own ↔ IsOwn job b ((b.lastWrite? q).getD b.touched) names f := by
  have hnone : ∀ i job, first.jobs i = some job → JobHolds first.now job := by
    intro i job hjob
    rw [hfirst.jobs i] at hjob
    cases hjob
  have hholds := WorldHolds.run hs ⟨hfirst.clock, hfirst.stored, hnone⟩ hrun
  have hjobHolds := hholds.jobs i job hjob
  have hbuilding := hjobHolds.building b hbuild
  obtain ⟨_, q, blob, hplace, hcontent, hdecode⟩ := hupload.stored hs hholds.clock.2 hjobHolds hbuild
  refine ⟨q, blob, _, hplace, ?_, hdecode, nodup_filesSince _ _ _, fun names f => ?_⟩
  · rw [hcontent, get?_insert, if_pos rfl]
  · exact hbuilding.mem_filesSince_iff (hbuilding.touched_notAfter q)

/-! ### A job after two others -/

/-- The bundles of two jobs are stored, and no other job has started. -/
def storedWorld : World Memory := ⟨sampleTime, sampleStore false, fun _ => none⟩

lemma isFirst_storedWorld : IsFirst id storedWorld where
  clock := by decide
  stored := by
    intro key blob hblob e he seconds hseconds
    have hmem := (get?_eq_some _ _ _).mp hblob
    have hentry : e = sampleEntry "out" "build" ∨ e = sampleEntry "out" "prereqs" := by
      rcases List.mem_cons.mp hmem with heq | hmem
      · cases heq
        rw [decode_build] at he
        exact .inl (List.mem_singleton.mp he)
      · cases List.mem_singleton.mp hmem
        rw [decode_prereqs] at he
        exact .inr (List.mem_singleton.mp he)
    have hone : e.modified = some 1 := by
      rcases hentry with rfl | rfl
      · rfl
      · rfl
    rw [hone, Option.some.injEq] at hseconds
    subst hseconds
    decide
  jobs := fun _ => rfl

def sampleJob (files : FileTree) (build : Option BuildStep) : StagedJob := ⟨".", ["w"], files, build⟩

def madeFile : File := ⟨"made".toUTF8, ⟨101, 0⟩, 0o644⟩

/-- The workspace once the bundles are taken and the marker is touched. -/
def touchedTree : FileTree :=
  ((changedTree false (some (lastOut false)) [] prereqsStaging).set ["w", startMarker]
    (.file (touchedFile sampleTime none))).changed ["w"] sampleTime

/-- The workspace once the build has made a file. -/
def builtTree : FileTree := (touchedTree.set ["w", "made"] (.file madeFile)).changed ["w"] ⟨101, 0⟩

def builtJob : StagedJob := sampleJob builtTree (some ⟨sampleTime, [(["w", "made"], ⟨101, 0⟩)]⟩)

lemma isReady_sampleJob : IsReady sampleTime (sampleJob (sampleTree false none []) none) where
  waiting := rfl
  sound := ⟨rooted_sampleTree, by decide +kernel⟩
  fresh := by
    intro names f hf
    have hget := get?_of_fileAt hf
    have hplace := eq_of_get?_sampleTree (by simp [sampleJob]) (hget ▸ Option.some_ne_none _)
    rw [show (sampleJob (sampleTree false none []) none).place ++ names = ["w"] from hplace] at hget
    cases hget

lemma update_touchedTree : (changedTree false (some (lastOut false)) [] prereqsStaging).update
    (Path.join "." startMarker) (touchedFile sampleTime) sampleTime = .ok touchedTree := by rfl

lemma update_builtTree : touchedTree.spot true "made" = .ok (.free ["w"] "made") ∧
    touchedTree.update "made" (fun _ => madeFile) ⟨101, 0⟩ = .ok builtTree := ⟨by rfl, by rfl⟩

/-- A job takes the bundles, touches its marker and makes a file a second later. -/
lemma reaches_builtJob : ∃ world, Relation.ReflTransGen (Happens (Memory.store .standard)) storedWorld world ∧
    world.jobs 0 = some builtJob ∧ world.machine builtJob = ⟨builtTree, ⟨101, 0⟩, sampleStore false⟩ := by
  obtain ⟨report, hrun⟩ := download_test false
  let ready := sampleJob (sampleTree false none []) none
  let taken := sampleJob (changedTree false (some (lastOut false)) [] prereqsStaging) none
  let touched := sampleJob touchedTree (some ⟨sampleTime, []⟩)
  let first := storedWorld.setJob 0 ready
  let second := first.afterTask 0 ready (changedMachine false (some (lastOut false)) [] prereqsStaging)
  let third := second.setJob 0 touched
  let fourth : World Memory := { third with now := ⟨101, 0⟩ }
  have hready : first.jobs 0 = some ready := rfl
  have htaken : second.jobs 0 = some taken := rfl
  have htouched : fourth.jobs 0 = some touched := rfl
  have hlater : NotAfter sampleTime ⟨101, 0⟩ := rfl
  have hsized : madeFile.data.size + Archive.blockSize ≤ 2 ^ 64 := by decide
  have hstart : Happens (Memory.store .standard) storedWorld first := .start rfl isReady_sampleJob
  have hdownload : Happens (Memory.store .standard) first second := .download hready rfl rfl hrun
  have htouch : Happens (Memory.store .standard) second _ := .touch htaken rfl update_touchedTree
  have htick : Happens (Memory.store .standard) third fourth := .tick hlater (by decide)
  have hwrite : Happens (Memory.store .standard) fourth _ :=
    .write htouched rfl hsized (by decide) rfl update_builtTree.1 update_builtTree.2
  have hall := ((((Relation.ReflTransGen.single hstart).tail hdownload).tail htouch).tail htick).tail hwrite
  exact ⟨_, hall, rfl, rfl⟩

def builtRequest : UploadRequest := ⟨".", sampleKey "test", .modifiedSince startMarker, none⟩

lemma uploads_builtJob {world : World Memory}
    (hmachine : world.machine builtJob = ⟨builtTree, ⟨101, 0⟩, sampleStore false⟩) :
    ∃ m', Uploads (Memory.store .standard) world builtJob builtRequest m' := by
  have hselected : selected builtTree "." (.modifiedSince startMarker) = .ok ["made"] := by rfl
  have hentries : Archive.entriesOf builtTree "." ["made"] = .ok [fileEntry ["made"] madeFile] := by rfl
  have hpacked : Archive.pack builtTree "." ["made"] = .ok (Archive.encode [fileEntry ["made"] madeFile]) := by
    rw [Archive.pack, hentries]
    rfl
  have hput : ∀ data, ∃ expiry m', Gives ((Memory.store .standard).put builtRequest.key.text data builtRequest.tag)
      ⟨builtTree, ⟨101, 0⟩, sampleStore false⟩ expiry m' :=
    fun data => ⟨_, _, by rfl⟩
  obtain ⟨expiry, m', hput⟩ := hput (Archive.encode [fileEntry ["made"] madeFile])
  refine ⟨m', rfl, rfl, by rfl, ?_⟩
  rw [hmachine]
  exact upload_gives hselected hpacked hput

/-- A file that was taken from a bundle is not uploaded again, and one that was made is. -/
theorem upload_own_files_made : KeepsBundles (Memory.store .standard) id ∧ IsFirst id storedWorld ∧
    ∃ world m', Relation.ReflTransGen (Happens (Memory.store .standard)) storedWorld world ∧
      world.jobs 0 = some builtJob ∧ Uploads (Memory.store .standard) world builtJob builtRequest m' ∧
      ∃ (blob : Blob) (own : List (Place × File)), m'.service.get? builtRequest.key.text = some blob ∧
        Archive.decode blob.data = ⟨own.map fun p => fileEntry p.1 p.2, .complete⟩ ∧
        (["made"], madeFile) ∈ own ∧
        fileAt builtJob.files ["w", "out"] = some ⟨"prereqs".toUTF8, ⟨1, 0⟩, 0o644⟩ ∧ ∀ f, (["out"], f) ∉ own := by
  obtain ⟨world, hrun, hjob, hmachine⟩ := reaches_builtJob
  obtain ⟨m', hupload⟩ := uploads_builtJob hmachine
  obtain ⟨q, blob, own, hplace, hstored, hdecode, _, hown⟩ := upload_own_files (memory_keepsBundles .standard)
    isFirst_storedWorld hrun hjob rfl hupload
  have hmarker : builtJob.files.place builtJob.markerPath = .ok ["w", startMarker] := by rfl
  obtain rfl : ["w", startMarker] = q := Except.ok.inj (hmarker.symm.trans hplace)
  refine ⟨memory_keepsBundles .standard, isFirst_storedWorld, world, m', hrun, hjob, hupload, blob, own, hstored,
    hdecode, (hown _ _).mpr ⟨by decide, ?_, by rfl, ⟨101, 0⟩, by rfl, by decide⟩, by rfl, fun f hf => ?_⟩
  · rintro name hname
    cases hname
    decide
  · obtain ⟨time, hlast, _⟩ := ((hown _ _).mp hf).written
    cases hlast

end CrossBuild.Proofs
