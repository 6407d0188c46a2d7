import CrossBuild.Proofs.KeyGlobs
import CrossBuild.Proofs.Sequencing
import CrossBuild.Proofs.TextPieces
import CrossBuild.Store.Bucket
import CrossBuild.Store.Rehearsal

/-!
# What a client complains about

The client of a bucket tells in words why it has failed, and its words are searched for the marks of an object
that is missing. But they name the object as well, and that name is not told apart from the rest: a complaint
that says nothing of the kind is taken for it just if the name of the bucket or the key has a mark in it.
-/

namespace CrossBuild.Proofs
open Text

/-! ### Marks -/

/-- What the words of the client are searched for. -/
def marks : List (List Char) := ["404".toList, "Not Found".toList]

/-- One of the marks is in the text. -/
def HasMark (cs : List Char) : Prop := ∃ mark ∈ marks, mark <:+: cs

instance (cs : List Char) : Decidable (HasMark cs) := inferInstanceAs (Decidable (∃ mark ∈ marks, mark <:+: cs))

lemma afterFirst_isSome {part cs : List Char} : (afterFirst part cs).isSome = true ↔ part <:+: cs := by
  induction cs with
  | nil => simp [afterFirst, Option.isSome_iff_exists, dropStart_eq_some]
  | cons c cs ih =>
    rw [afterFirst, List.infix_cons_iff, ← ih]
    cases hstart : dropStart part (c :: cs) with
    | some rest => exact iff_of_true rfl (.inl ⟨rest, (dropStart_eq_some.mp hstart).symm⟩)
    | none =>
      have hnot : ¬part <+: c :: cs := by
        rintro ⟨rest, heq⟩
        rw [dropStart_eq_some.mpr heq.symm] at hstart
        cases hstart
      rw [or_iff_right hnot]

lemma saysNotFound_iff (complaint : String) : Bucket.saysNotFound complaint = true ↔ HasMark complaint.toList := by
  simp only [Bucket.saysNotFound, occursIn, Bool.or_eq_true, afterFirst_isSome, HasMark, marks, List.mem_cons,
    List.not_mem_nil, or_false, exists_eq_or_imp, exists_eq_left]

/-! ### Where a mark can be -/

section Split

variable {part xs ys : List Char} {c : Char}

lemma prefix_of_not_mem (hc : c ∉ part) (h : part <+: xs ++ c :: ys) : part <+: xs := by
  rcases List.prefix_or_prefix_of_prefix h (List.prefix_append xs (c :: ys)) with hxs | ⟨rest, rfl⟩
  · exact hxs
  · cases rest with
    | nil => rw [List.append_nil]
    | cons d rest =>
      rw [List.prefix_append_right_inj, List.cons_prefix_cons] at h
      exact absurd (by simp [h.1]) hc

/-- What is found around a character that it does not have is found on one side of it. -/
lemma infix_split (hc : c ∉ part) : part <:+: xs ++ c :: ys ↔ part <:+: xs ∨ part <:+: ys := by
  constructor
  · intro h
    induction xs with
    | nil =>
      rcases List.infix_cons_iff.mp h with hstart | hys
      · exact .inl (prefix_of_not_mem hc hstart).isInfix
      · exact .inr hys
    | cons x xs ih =>
      rcases List.infix_cons_iff.mp h with hstart | hrest
      · exact .inl (prefix_of_not_mem hc hstart).isInfix
      · exact (ih hrest).imp_left fun hxs => List.infix_cons_iff.mpr (.inr hxs)
  · rintro (hxs | hys)
    · exact hxs.trans (List.infix_append' [] xs (c :: ys))
    · exact hys.trans ⟨xs ++ [c], [], by simp⟩

lemma hasMark_split (hc : ∀ mark ∈ marks, c ∉ mark) : HasMark (xs ++ c :: ys) ↔ HasMark xs ∨ HasMark ys := by
  unfold HasMark
  rw [← exists_or]
  refine exists_congr fun mark => ?_
  rw [← and_or_left]
  exact and_congr_right fun hmark => infix_split (hc mark hmark)

end Split

/-- In a complaint that names an object a mark is before the name, in the bucket's name, or in the key and what
comes after it. -/
lemma hasMark_complaint (b : Bucket) (before key after : String) : HasMark (before ++ b.url key ++ after).toList ↔
    HasMark before.toList ∨ HasMark b.name.toList ∨ HasMark (key ++ after).toList := by
  have hsplit : (before ++ b.url key ++ after).toList = before.toList ++ 's' :: ("3:/".toList ++ '/' ::
      (b.name.toList ++ '/' :: (key ++ after).toList)) := by
    simp [Bucket.url]
  rw [hsplit, hasMark_split (by decide), hasMark_split (by decide), hasMark_split (by decide),
    or_iff_right (show ¬HasMark "3:/".toList by decide)]

lemma hasMark_stagePart (k : BundleKey) : HasMark (stagePart k) ↔ HasMark k.stage.toList := by
  unfold stagePart
  split
  · rw [show BundleKey.failedSuffix.toList = '-' :: "failed".toList from rfl, hasMark_split (by decide),
      or_iff_left (show ¬HasMark "failed".toList by decide)]
  · rw [List.append_nil]

/-- A bundle's key ends in a way that no mark goes on after it. -/
lemma hasMark_text {after : String} (hafter : ¬HasMark after.toList) (k : BundleKey) :
    HasMark (k.text ++ after).toList ↔
      HasMark k.pipelineId.toList ∨ HasMark k.stage.toList ∨ HasMark k.job.toList := by
  have hsplit : (k.text ++ after).toList = k.pipelineId.toList ++ '/' :: (stagePart k ++ '/' ::
      (k.job.toList ++ '.' :: ("t".toList ++ 'a' :: ("r.g".toList ++ 'z' :: after.toList)))) := by
    simp [toList_text, BundleKey.extension]
  have hextension : ¬HasMark ("t".toList ++ 'a' :: ("r.g".toList ++ 'z' :: after.toList)) := by
    rw [hasMark_split (by decide), hasMark_split (by decide)]
    exact not_or.mpr ⟨by decide, not_or.mpr ⟨by decide, hafter⟩⟩
  rw [hsplit, hasMark_split (by decide), hasMark_split (by decide), hasMark_split (by decide), hasMark_stagePart,
    or_iff_left hextension]

/-! ### Fetching -/

section Fetch

variable {σ : Type} {b : Bucket} {run : Executor (Machine σ)} {m m' : Machine σ} {files : FileTree} {key : String}
  {out : Command.Output}

/-- The scratch file goes when the task is over, and the task ends as it would without it. -/
lemma withScratch_fst {α : Type} {data : ByteArray} (task : Task σ StoreError α)
    (h : m.files.replace b.scratch ⟨data, m.now, 0o600⟩ m.now = .ok files) :
    (b.withScratch data task m).1 = (task { m with files }).1 := by
  unfold Bucket.withScratch
  rw [run_bind, run_changeFiles, h]
  dsimp only
  rw [run_bind, run_tryCatch, run_bind]
  rcases task { m with files } with ⟨e | a, after⟩ <;> rfl

/-- A client that fails is believed to miss the object just if its complaint has a mark in it. -/
lemma fetch_fails (hscratch : m.files.replace b.scratch ⟨.empty, m.now, 0o600⟩ m.now = .ok files)
    (hanswer : run (b.copyCommand (b.url key) b.scratch) { m with files } = (.ok out, m')) (hcode : out.exitCode ≠ 0) :
    (b.fetch run key m).1 = .error (if Bucket.saysNotFound out.stderr then .notFound key else
      .command (.unexpectedExit (b.copyCommand (b.url key) b.scratch).display out.exitCode [0] out.stderr)) := by
  have hrefuses : (b.copyCommand (b.url key) b.scratch).check out =
      .error (.unexpectedExit (b.copyCommand (b.url key) b.scratch).display out.exitCode [0] out.stderr) := by
    rw [Command.check, if_neg]
    · rfl
    · simpa [Command.accepts, Bucket.copyCommand, Bucket.client, Command.ofArgv] using hcode
  have hrun : (liftM (run (b.copyCommand (b.url key) b.scratch)) : Task σ StoreError (Except ExecError Command.Output))
      { m with files } = (.ok (.ok out), m') := by
    change ((fun r => (Except.ok r.1, r.2)) (run (b.copyCommand (b.url key) b.scratch) { m with files })) = _
    rw [hanswer]
  rw [Bucket.fetch, withScratch_fst _ hscratch, run_bind, hrun]
  dsimp only [Task.ofExcept]
  rw [pure_bind, hrefuses]
  rfl

/-- A client that fails for another reason and names the object is believed to miss it just if a mark is in the
bucket's name or in the key with what comes after it. In the key of a bundle it can only be in one of the three
names. -/
theorem fetch_complaint {before after stdout : String} {code : Int} (hbefore : ¬HasMark before.toList)
    (hafter : ¬HasMark after.toList) (hcode : code ≠ 0)
    (hscratch : m.files.replace b.scratch ⟨.empty, m.now, 0o600⟩ m.now = .ok files)
    (hanswer : run (b.copyCommand (b.url key) b.scratch) { m with files } =
      (.ok ⟨code, stdout, before ++ b.url key ++ after⟩, m')) :
    ((b.fetch run key m).1 = .error (.notFound key) ↔ HasMark b.name.toList ∨ HasMark (key ++ after).toList) ∧
      ((b.fetch run key m).1 = .error (.command (.unexpectedExit (b.copyCommand (b.url key) b.scratch).display code [0]
        (before ++ b.url key ++ after))) ↔ ¬(HasMark b.name.toList ∨ HasMark (key ++ after).toList)) ∧
      ∀ k : BundleKey, key = k.text → (HasMark (key ++ after).toList ↔
        HasMark k.pipelineId.toList ∨ HasMark k.stage.toList ∨ HasMark k.job.toList) := by
  have hmarks : Bucket.saysNotFound (before ++ b.url key ++ after) = true ↔
      HasMark b.name.toList ∨ HasMark (key ++ after).toList := by
    rw [saysNotFound_iff, hasMark_complaint, or_iff_right hbefore]
  rw [fetch_fails hscratch hanswer hcode, ← hmarks]
  refine ⟨?_, ?_, ?_⟩
  · by_cases hmark : Bucket.saysNotFound (before ++ b.url key ++ after) = true <;> simp [hmark]
  · by_cases hmark : Bucket.saysNotFound (before ++ b.url key ++ after) = true <;> simp [hmark]
  · rintro k rfl
    exact hasMark_text hafter k

end Fetch

/-! ### An object that may not be read -/

def deniedBucket : Bucket := ⟨"ci-artifacts", "aws", "/tmp/scratch"⟩

def deniedKey (pipelineId : String) : BundleKey := ⟨pipelineId, "build", "build:centos7", false⟩

def denial : String := "fatal error: An error occurred (403) when calling the HeadObject operation: Forbidden: "

/-- A client that may not read the bundle. -/
def deniedRun (pipelineId : String) : Executor (Machine Rehearsal) :=
  Rehearsal.executor [⟨["aws", "s3", "cp"], ⟨1, "", denial ++ deniedBucket.url (deniedKey pipelineId).text ++ "\n"⟩⟩] []

def deniedMachine (nodes : List (Place × FileNode)) : Machine Rehearsal :=
  ⟨⟨.ofList ((["tmp"], .directory 0o755) :: nodes), [], ∅⟩, ⟨0, 0⟩, .start⟩

def scratchNodes : List (Place × FileNode) := [(["tmp", "scratch"], .file ⟨.empty, ⟨0, 0⟩, 0o600⟩)]

lemma replace_scratch : (deniedMachine []).files.replace deniedBucket.scratch ⟨.empty, ⟨0, 0⟩, 0o600⟩ ⟨0, 0⟩ =
    .ok ((deniedMachine scratchNodes).files.changed ["tmp"] ⟨0, 0⟩) := by
  rfl

lemma deniedRun_answers (pipelineId : String) : ∃ m', deniedRun pipelineId
    (deniedBucket.copyCommand (deniedBucket.url (deniedKey pipelineId).text) deniedBucket.scratch)
      { deniedMachine [] with files := (deniedMachine scratchNodes).files.changed ["tmp"] ⟨0, 0⟩ } =
        (.ok ⟨1, "", denial ++ deniedBucket.url (deniedKey pipelineId).text ++ "\n"⟩, m') := ⟨_, rfl⟩

/-- Of two complaints that differ in the number of the pipeline alone, one is taken for that of a missing bundle. -/
theorem fetch_complaint_denied : ¬HasMark denial.toList ∧
    (deniedBucket.fetch (deniedRun "7") (deniedKey "7").text (deniedMachine [])).1 =
      .error (.command (.unexpectedExit
        "aws s3 cp --only-show-errors s3://ci-artifacts/7/build/build:centos7.tar.gz /tmp/scratch" 1 [0]
        (denial ++ "s3://ci-artifacts/7/build/build:centos7.tar.gz\n"))) ∧
    (deniedBucket.fetch (deniedRun "404") (deniedKey "404").text (deniedMachine [])).1 =
      .error (.notFound "404/build/build:centos7.tar.gz") := by
  have hdenial : ¬HasMark denial.toList := by decide +kernel
  have hend : ¬HasMark "\n".toList := by decide
  refine ⟨hdenial, ?_, ?_⟩
  · obtain ⟨_, hanswer⟩ := deniedRun_answers "7"
    obtain ⟨_, hdenied, hnames⟩ := fetch_complaint hdenial hend (by decide) replace_scratch hanswer
    refine (hdenied.mpr ?_).trans rfl
    rw [hnames (deniedKey "7") rfl]
    decide +kernel
  · obtain ⟨_, hanswer⟩ := deniedRun_answers "404"
    obtain ⟨hmissing, _, hnames⟩ := fetch_complaint hdenial hend (by decide) replace_scratch hanswer
    refine (hmissing.mpr (.inr ?_)).trans rfl
    rw [hnames (deniedKey "404") rfl]
    decide +kernel

end CrossBuild.Proofs
