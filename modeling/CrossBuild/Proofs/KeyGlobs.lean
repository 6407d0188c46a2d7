import CrossBuild.JobScript
import CrossBuild.Proofs.Glob

/-!
# Which keys the globs of a download match

Each of the three globs of a download, for platforms, for stages and for failed jobs, is taken apart
into a statement about the characters of a key. On a key whose parts have no slash and a glob whose
text is plain, the statement is about one part of the key alone.
-/

namespace CrossBuild.Proofs
open Text.Wildcard

/-! ### Filters -/

lemma accepts_eq_true (f : KeyFilter) (key : String) :
    f.accepts key = true ↔
      (f.includes = [] ∨ ∃ glob ∈ f.includes, isMatch glob key = true) ∧
        ∀ glob ∈ f.excludes, isMatch glob key = false := by
  simp [KeyFilter.accepts]

lemma includes_excludingFailed (f : KeyFilter) : f.excludingFailed.includes = f.includes := by
  unfold KeyFilter.excludingFailed
  split <;> rfl

lemma mem_excludes_excludingFailed (f : KeyFilter) (glob : String) :
    glob ∈ f.excludingFailed.excludes ↔ glob ∈ f.excludes ∨ glob = KeyFilter.failedGlob := by
  unfold KeyFilter.excludingFailed
  split
  · rename_i h
    rw [List.contains_iff_mem] at h
    constructor
    · exact .inl
    · rintro (hglob | rfl)
      · exact hglob
      · exact h
  · simp

/-! ### Keys as characters -/

/-- The second part of a key: the stage, marked if the job failed. -/
def stagePart (k : BundleKey) : List Char :=
  k.stage.toList ++ if k.failed then BundleKey.failedSuffix.toList else []

lemma toList_text (k : BundleKey) :
    k.text.toList = k.pipelineId.toList ++ '/' :: (stagePart k ++ '/' ::
      (k.job.toList ++ BundleKey.extension.toList)) := by
  unfold BundleKey.text stagePart
  cases k.failed <;> simp

/-- A piece of a path: a text without a slash. -/
def IsPiece (cs : List Char) : Prop := '/' ∉ cs

instance (cs : List Char) : Decidable (IsPiece cs) := inferInstanceAs (Decidable ('/' ∉ cs))

lemma isPiece_append {a b : List Char} : IsPiece (a ++ b) ↔ IsPiece a ∧ IsPiece b := by
  simp [IsPiece]

lemma append_slash_inj {a a' rest rest' : List Char} (ha : IsPiece a) (ha' : IsPiece a')
    (h : a ++ '/' :: rest = a' ++ '/' :: rest') : a = a' ∧ rest = rest' := by
  induction a generalizing a' with
  | nil =>
    cases a' with
    | nil => exact ⟨rfl, (List.cons.inj h).2⟩
    | cons c a' =>
      obtain ⟨rfl, _⟩ := List.cons.inj h
      exact (ha' (by simp)).elim
  | cons c a ih =>
    cases a' with
    | nil =>
      obtain ⟨rfl, _⟩ := List.cons.inj h
      exact (ha (by simp)).elim
    | cons c' a' =>
      obtain ⟨rfl, htail⟩ := List.cons.inj h
      simp only [IsPiece, List.mem_cons, not_or] at ha ha'
      obtain ⟨rfl, hrest⟩ := ih ha.2 ha'.2 htail
      exact ⟨rfl, hrest⟩

/-- Two slashes cut a text with three pieces in one way only. -/
lemma three_pieces_inj {a b c a' b' c' : List Char} (ha : IsPiece a) (hb : IsPiece b) (hc : IsPiece c)
    (h : a ++ '/' :: (b ++ '/' :: c) = a' ++ '/' :: (b' ++ '/' :: c')) : a = a' ∧ b = b' ∧ c = c' := by
  have hcount := congrArg (List.count '/') h
  have hzero : ∀ {cs : List Char}, IsPiece cs → cs.count '/' = 0 := List.count_eq_zero.mpr
  simp only [List.count_append, List.count_cons_self, hzero ha, hzero hb, hzero hc] at hcount
  have ha' : IsPiece a' := List.count_eq_zero.mp (by omega)
  have hb' : IsPiece b' := List.count_eq_zero.mp (by omega)
  obtain ⟨rfl, hrest⟩ := append_slash_inj ha ha' h
  obtain ⟨rfl, rfl⟩ := append_slash_inj hb hb' hrest
  exact ⟨rfl, rfl, rfl⟩

/-- The parts of the key are pieces of a path. -/
structure HasPieces (k : BundleKey) : Prop where
  pipelineId : IsPiece k.pipelineId.toList
  stage : IsPiece k.stage.toList
  job : IsPiece k.job.toList

lemma HasPieces.stagePart {k : BundleKey} (h : HasPieces k) : IsPiece (stagePart k) := by
  refine isPiece_append.mpr ⟨h.stage, ?_⟩
  cases k.failed <;> decide

lemma HasPieces.jobPart {k : BundleKey} (h : HasPieces k) :
    IsPiece (k.job.toList ++ BundleKey.extension.toList) :=
  isPiece_append.mpr ⟨h.job, by decide⟩

/-! ### The globs -/

lemma isMatch_stageGlob (stage key : String) :
    isMatch (KeyFilter.stageGlob stage) key = true ↔
      ∃ front middle back, key.toList = front ++ '/' :: (middle ++ '/' :: back) ∧
        Matches stage.toList middle := by
  have hglob : (KeyFilter.stageGlob stage).toList = '*' :: '/' :: (stage.toList ++ ['/', '*']) := by
    simp [KeyFilter.stageGlob]
  rw [isMatch_iff, hglob, matches_star]
  constructor
  · rintro ⟨front, _, hkey, h⟩
    obtain ⟨_, rfl, hrest⟩ := (matches_char (by decide) (by decide)).mp h
    obtain ⟨middle, _, rfl, hmiddle, hend⟩ := matches_append.mp hrest
    obtain ⟨back, rfl, _⟩ := (matches_char (by decide) (by decide)).mp hend
    exact ⟨front, middle, back, hkey, hmiddle⟩
  · rintro ⟨front, middle, back, hkey, hmiddle⟩
    have hback : Matches ['*'] back := by simpa using Matches.star back .nil
    exact ⟨front, _, hkey, .char '/' (by decide) (by decide)
      (matches_append.mpr ⟨middle, _, rfl, hmiddle, .char '/' (by decide) (by decide) hback⟩)⟩

lemma isMatch_failedGlob (key : String) :
    isMatch KeyFilter.failedGlob key = true ↔
      ∃ front back, key.toList = front ++ (BundleKey.failedSuffix.toList ++ '/' :: back) := by
  have hglob : KeyFilter.failedGlob.toList = '*' :: (BundleKey.failedSuffix.toList ++ ['/', '*']) := by
    decide
  have hliteral : IsLiteral BundleKey.failedSuffix.toList := by decide
  rw [isMatch_iff, hglob, matches_star]
  constructor
  · rintro ⟨front, _, hkey, h⟩
    obtain ⟨suffix, _, rfl, hsuffix, hend⟩ := matches_append.mp h
    obtain ⟨back, rfl, _⟩ := (matches_char (by decide) (by decide)).mp hend
    rw [matches_literal hliteral] at hsuffix
    subst hsuffix
    exact ⟨front, back, hkey⟩
  · rintro ⟨front, back, hkey⟩
    have hback : Matches ['*'] back := by simpa using Matches.star back .nil
    exact ⟨front, _, hkey, matches_append.mpr
      ⟨_, _, rfl, matches_self _, .char '/' (by decide) (by decide) hback⟩⟩

/-- The glob for the bundles of a platform. -/
def platformGlob (platform : String) : String := "*" ++ platform ++ BundleKey.extension

lemma isMatch_platformGlob (platform key : String) :
    isMatch (platformGlob platform) key = true ↔
      ∃ front tail, key.toList = front ++ (tail ++ BundleKey.extension.toList) ∧
        Matches platform.toList tail := by
  have hglob : (platformGlob platform).toList =
      '*' :: (platform.toList ++ BundleKey.extension.toList) := by
    simp [platformGlob]
  have hliteral : IsLiteral BundleKey.extension.toList := by decide
  rw [isMatch_iff, hglob, matches_star]
  constructor
  · rintro ⟨front, _, hkey, h⟩
    obtain ⟨tail, extension, rfl, htail, hextension⟩ := matches_append.mp h
    rw [matches_literal hliteral] at hextension
    subst hextension
    exact ⟨front, tail, hkey, htail⟩
  · rintro ⟨front, tail, hkey, htail⟩
    exact ⟨front, _, hkey, matches_append.mpr ⟨tail, _, rfl, htail, matches_self _⟩⟩

/-! ### The globs on keys -/

/-- The bundles of a stage match its glob, even where its name has characters that are special. -/
lemma isMatch_ownStage {k : BundleKey} (h : k.failed = false) :
    isMatch (KeyFilter.stageGlob k.stage) k.text = true := by
  have hpart : stagePart k = k.stage.toList := by simp [stagePart, h]
  rw [isMatch_stageGlob, toList_text, hpart]
  exact ⟨_, _, _, rfl, matches_self _⟩

lemma isMatch_failedGlob_of_failed {k : BundleKey} (h : k.failed = true) :
    isMatch KeyFilter.failedGlob k.text = true := by
  have hpart : stagePart k = k.stage.toList ++ BundleKey.failedSuffix.toList := by simp [stagePart, h]
  rw [isMatch_failedGlob, toList_text, hpart]
  exact ⟨k.pipelineId.toList ++ '/' :: k.stage.toList, k.job.toList ++ BundleKey.extension.toList,
    by simp⟩

lemma isMatch_stageGlob_text {stage : String} (hs : IsLiteral stage.toList) {k : BundleKey}
    (hk : HasPieces k) :
    isMatch (KeyFilter.stageGlob stage) k.text = true ↔ stagePart k = stage.toList := by
  rw [isMatch_stageGlob, toList_text]
  simp only [matches_literal hs]
  constructor
  · rintro ⟨front, _, back, hkey, rfl⟩
    exact (three_pieces_inj hk.pipelineId hk.stagePart hk.jobPart hkey).2.1
  · intro h
    exact ⟨_, _, _, rfl, h⟩

/-- The text ends in the mark of failed jobs. -/
def EndsFailed (text : String) : Prop := BundleKey.failedSuffix.toList <:+ text.toList

instance (text : String) : Decidable (EndsFailed text) :=
  inferInstanceAs (Decidable (BundleKey.failedSuffix.toList <:+ text.toList))

lemma isMatch_failedGlob_text {k : BundleKey} (hk : HasPieces k) (hid : ¬EndsFailed k.pipelineId)
    (hstage : ¬EndsFailed k.stage) :
    isMatch KeyFilter.failedGlob k.text = true ↔ k.failed = true := by
  constructor
  · intro h
    obtain ⟨front, back, hkey⟩ := (isMatch_failedGlob _).mp h
    rw [toList_text] at hkey
    by_cases hfront : '/' ∈ front
    · obtain ⟨before, after, rfl⟩ := List.append_of_mem hfront
      have hshape : (before ++ '/' :: after) ++ (BundleKey.failedSuffix.toList ++ '/' :: back) =
          before ++ '/' :: ((after ++ BundleKey.failedSuffix.toList) ++ '/' :: back) := by simp
      rw [hshape] at hkey
      have hpart := (three_pieces_inj hk.pipelineId hk.stagePart hk.jobPart hkey).2.1
      by_contra hfailed
      rw [stagePart, if_neg hfailed, List.append_nil] at hpart
      exact hstage ⟨after, hpart.symm⟩
    · have hpiece : IsPiece (front ++ BundleKey.failedSuffix.toList) :=
        isPiece_append.mpr ⟨hfront, by decide⟩
      rw [← List.append_assoc] at hkey
      exact (hid ⟨front, (append_slash_inj hk.pipelineId hpiece hkey).1.symm⟩).elim
  · exact isMatch_failedGlob_of_failed

/-- Some end of the key, with its extension left out, matches the name of a platform. -/
def MatchesEnd (platform : String) (k : BundleKey) : Prop :=
  ∃ front tail, k.pipelineId.toList ++ '/' :: (stagePart k ++ '/' :: k.job.toList) = front ++ tail ∧
    Matches platform.toList tail

lemma isMatch_platformGlob_text (platform : String) (k : BundleKey) :
    isMatch (platformGlob platform) k.text = true ↔ MatchesEnd platform k := by
  have hshape : k.text.toList = (k.pipelineId.toList ++ '/' :: (stagePart k ++ '/' :: k.job.toList)) ++
      BundleKey.extension.toList := by
    rw [toList_text]
    simp
  rw [isMatch_platformGlob, hshape]
  constructor
  · rintro ⟨front, tail, hkey, htail⟩
    rw [← List.append_assoc] at hkey
    exact ⟨front, tail, List.append_cancel_right hkey, htail⟩
  · rintro ⟨front, tail, hkey, htail⟩
    exact ⟨front, tail, by rw [hkey, List.append_assoc], htail⟩

lemma matchesEnd_of_plain {platform : String} (hs : IsLiteral platform.toList)
    (hp : IsPiece platform.toList) (k : BundleKey) :
    MatchesEnd platform k ↔ platform.toList <:+ k.job.toList := by
  unfold MatchesEnd
  simp only [matches_literal hs]
  constructor
  · rintro ⟨front, _, hkey, rfl⟩
    have hends : platform.toList <:+
        (k.pipelineId.toList ++ '/' :: stagePart k) ++ '/' :: k.job.toList :=
      ⟨front, by simpa using hkey.symm⟩
    -- the platform has no slash, so it cannot reach back to the one before the job
    rcases List.suffix_or_suffix_of_suffix hends (List.suffix_append _ ('/' :: k.job.toList)) with h | h
    · rcases List.suffix_cons_iff.mp h with heq | h
      · exact (hp (by simp [heq])).elim
      · exact h
    · exact (hp (h.subset (by simp))).elim
  · rintro ⟨front, hjob⟩
    refine ⟨k.pipelineId.toList ++ '/' :: (stagePart k ++ '/' :: front), _, ?_, rfl⟩
    simp [← hjob]

end CrossBuild.Proofs
