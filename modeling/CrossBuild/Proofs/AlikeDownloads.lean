import CrossBuild.Proofs.AlikeTrees
import CrossBuild.Proofs.Overlay

/-!
# Downloads on machines that are alike

What a download does to files is the same on machines whose trees are alike, step by step and whether it
succeeds or fails. So it can only tell such machines apart by what the store answers; and if the store answers
the same on both for as long as the files below the workspace change, the download comes to the same end.
-/

namespace CrossBuild.Proofs
open Archive Handoff

variable {σ : Type}

/-! ### Tasks on related machines -/

/-- Two runs come to the same result and to related machines. -/
def SameEnd {ε α : Type} (R : Machine σ → Machine σ → Prop) (r r' : Except ε α × Machine σ) : Prop :=
  r.1 = r'.1 ∧ R r.2 r'.2

/-- On related machines the task always does so. -/
def Uniform {ε α : Type} (R : Machine σ → Machine σ → Prop) (task : Task σ ε α) : Prop :=
  ∀ m m', R m m' → SameEnd R (task m) (task m')

section Sequences

variable {ε ε' α β : Type} {R : Machine σ → Machine σ → Prop}

lemma uniform_pure (a : α) : Uniform R (pure a : Task σ ε α) := fun _ _ h => ⟨rfl, h⟩

lemma uniform_throw (e : ε) : Uniform R (throw e : Task σ ε α) := fun _ _ h => ⟨rfl, h⟩

lemma uniform_ofExcept (wrap : ε' → ε) (r : Except ε' α) : Uniform R (Task.ofExcept wrap r : Task σ ε α) := by
  cases r with
  | ok a => exact uniform_pure a
  | error e => exact uniform_throw (wrap e)

lemma SameEnd.bind {x : Task σ ε α} {f : α → Task σ ε β} {m m' : Machine σ} (h : SameEnd R (x m) (x m'))
    (hf : ∀ {a between between'}, Gives x m a between → R between between' → SameEnd R (f a between) (f a between')) :
    SameEnd R ((x >>= f) m) ((x >>= f) m') := by
  obtain ⟨hsame, hrelated⟩ := h
  rw [run_bind, run_bind]
  rcases hrun : x m with ⟨r, between⟩
  rcases hrun' : x m' with ⟨r', between'⟩
  rw [hrun, hrun'] at hsame hrelated
  obtain rfl : r = r' := hsame
  cases r with
  | error e => exact ⟨rfl, hrelated⟩
  | ok a => exact hf hrun hrelated

lemma uniform_bind {x : Task σ ε α} {f : α → Task σ ε β} (hx : Uniform R x) (hf : ∀ a, Uniform R (f a)) :
    Uniform R (x >>= f) := fun m m' h => (hx m m' h).bind fun _ hrelated => hf _ _ _ hrelated

lemma uniform_look {f : Machine σ → Task σ ε α} (hf : ∀ m m', R m m' → SameEnd R (f m m) (f m' m')) :
    Uniform R (get >>= f) := hf

lemma uniform_widen {wrap : ε' → ε} {task : Task σ ε' α} (h : Uniform R task) : Uniform R (task.widen wrap) := by
  intro m m' hm
  obtain ⟨hsame, hrelated⟩ := h m m' hm
  unfold Task.widen
  rcases hrun : task m with ⟨r, between⟩
  rcases hrun' : task m' with ⟨r', between'⟩
  rw [hrun, hrun'] at hsame hrelated
  obtain rfl : r = r' := hsame
  cases r with
  | error e => exact ⟨rfl, hrelated⟩
  | ok a => exact ⟨rfl, hrelated⟩

end Sequences

/-! ### Machines that are alike -/

/-- The machines have alike trees and the same time, and what their services keep is related. -/
structure SameMachine (v : FileView) (S : σ → σ → Prop) (m m' : Machine σ) : Prop where
  files : Alike v m.files m'.files
  now : m.now = m'.now
  service : S m.service m'.service

section Machines

variable {ε α : Type} {v : FileView} {S : σ → σ → Prop}

lemma uniform_changeFiles (wrap : FileFault → ε) {f : FileTree → Instant → Except FileFault FileTree}
    (hf : ∀ {t t' now}, Alike v t t' → SameResult (Alike v) (f t now) (f t' now)) :
    Uniform (SameMachine v S) (Task.changeFiles wrap f) := by
  intro m m' h
  have hfiles : SameResult (Alike v) (f m.files m.now) (f m'.files m.now) := hf h.files
  rw [run_changeFiles, run_changeFiles, ← h.now]
  generalize f m.files m.now = r, f m'.files m.now = r' at hfiles ⊢
  cases hfiles with
  | ok halike => exact ⟨rfl, halike, rfl, h.service⟩
  | error fault => exact ⟨rfl, h⟩

lemma uniform_makeDirectories (wrap : FileFault → ε) (path : String) :
    Uniform (SameMachine v S) (Task.makeDirectories wrap path) := by
  intro m m' h
  obtain ⟨hfault, halike⟩ := h.files.makeDirectories path m.now
  rw [run_makeDirectories, run_makeDirectories, ← h.now, hfault]
  exact ⟨rfl, halike, rfl, h.service⟩

/-! ### Unpacking -/

lemma uniform_makeParents (target : String) : Uniform (SameMachine v S) (makeParents target) := by
  unfold makeParents
  split
  · exact uniform_makeDirectories _ _
  · exact uniform_pure _

lemma uniform_makeNamedDirectory (target : String) (e : Entry) :
    Uniform (SameMachine v S) (makeNamedDirectory target e) := by
  unfold makeNamedDirectory
  refine uniform_bind (uniform_changeFiles _ fun h => h.ensureDirectory target _) fun _ => ?_
  split
  · exact uniform_changeFiles _ fun h => h.setDirectoryMode target _
  · exact uniform_pure _

lemma uniform_unpackEntry (fileOf : Entry → Instant → File) (dest : String) (e : Entry) :
    Uniform (SameMachine v S) (unpackEntry fileOf dest e) := by
  unfold unpackEntry
  refine uniform_bind (uniform_ofExcept _ _) fun rest => ?_
  split
  · exact uniform_pure _
  · dsimp only
    split
    · exact uniform_bind (uniform_makeDirectories _ _) fun _ => uniform_pure _
    · refine uniform_bind (uniform_makeParents _) fun _ => ?_
      exact uniform_bind (uniform_changeFiles _ fun h => h.replace _ _) fun _ => uniform_pure _
    · refine uniform_bind (uniform_makeParents _) fun _ => ?_
      exact uniform_bind (uniform_makeNamedDirectory _ e) fun _ => uniform_pure _
    · exact uniform_throw _

lemma uniform_unpackEntries (dest : String) (entries : List Entry) :
    Uniform (SameMachine v S) (unpackEntries dest entries) := by
  induction entries with
  | nil => exact uniform_pure _
  | cons e rest ih =>
    exact uniform_bind (uniform_unpackEntry _ dest e) fun _ => uniform_bind ih fun _ => uniform_pure _

lemma uniform_unpack (dest : String) (archive : ByteArray) : Uniform (SameMachine v S) (unpack dest archive) := by
  unfold unpack unpackContents
  refine uniform_bind (uniform_unpackEntries dest _) fun _ => ?_
  split
  · exact uniform_pure _
  · exact uniform_throw _
  · exact uniform_bind (uniform_unpackEntry _ dest _) fun _ => uniform_throw _

/-- What was written is read alike, whatever counts of the file. -/
lemma Alike.read_written {t t' s s' : FileTree} (h : Alike v s s') {path : String} {data : ByteArray} {now : Instant}
    (hwrite : t.write path data now = .ok s) (hwrite' : t'.write path data now = .ok s') :
    s.read path = s'.read path := by
  refine h.read fun q f f' _ hf hf' _ => ?_
  obtain ⟨g, hg, hdata, _⟩ := write_file hwrite
  obtain ⟨g', hg', hdata', _⟩ := write_file hwrite'
  rw [hf] at hg
  rw [hf'] at hg'
  cases hg
  cases hg'
  rw [hdata, hdata']

/-- A file is written and read again. -/
lemma uniform_staged {wrap : FileFault → ε} (path : String) (data : ByteArray)
    {f : ByteArray → Task σ ε α} (hf : ∀ archive, Uniform (SameMachine v S) (f archive)) :
    Uniform (SameMachine v S) (Task.changeFiles wrap (·.write path data ·) >>= fun _ => get >>= fun m =>
      Task.ofExcept wrap (m.files.read path) >>= f) := by
  intro m m' h
  have hwrite := h.files.write path data m.now
  rw [run_bind, run_bind, run_changeFiles, run_changeFiles, ← h.now]
  generalize hs : m.files.write path data m.now = r, hs' : m'.files.write path data m.now = r' at hwrite
  cases hwrite with
  | error fault => exact ⟨rfl, h⟩
  | @ok s s' halike =>
    have hafter : SameMachine v S { m with files := s } { m' with files := s', now := m.now } :=
      ⟨halike, rfl, h.service⟩
    have hread := halike.read_written hs hs'
    change SameEnd _ ((Task.ofExcept wrap (s.read path) >>= f : Task σ ε α) { m with files := s })
      ((Task.ofExcept wrap (s'.read path) >>= f : Task σ ε α) { m' with files := s', now := m.now })
    rw [← hread]
    exact uniform_bind (uniform_ofExcept wrap _) hf _ _ hafter

lemma uniform_unpackBundle (workspace key : String) (data : ByteArray) :
    Uniform (SameMachine v S) (unpackBundle workspace key data) := by
  unfold unpackBundle
  refine uniform_bind (uniform_ofExcept _ _) fun rest => ?_
  refine uniform_bind (uniform_makeDirectories _ _) fun _ => ?_
  refine uniform_staged _ data fun archive => ?_
  refine uniform_bind (uniform_widen (uniform_unpack workspace archive)) fun _ => ?_
  exact uniform_bind (uniform_changeFiles _ fun h => h.remove _) fun _ => uniform_pure _

lemma uniform_unpackBundles (workspace : String) (bundles : List (String × ByteArray)) :
    Uniform (SameMachine v S) (unpackBundles workspace bundles) := by
  induction bundles with
  | nil => exact uniform_pure _
  | cons bundle rest ih =>
    exact uniform_bind (uniform_unpackBundle workspace _ _) fun _ => uniform_bind ih fun _ => uniform_pure _

lemma uniform_pruneWalked (path : String) (place : Place) (top : List Place) :
    Uniform (SameMachine v S) (pruneWalked path place top) := by
  intro m m' h
  have hlist : ∀ path, m'.files.canList path = m.files.canList path := fun path => (h.files.canList path).symm
  obtain ⟨herror, halike⟩ := h.files.prune (fun d => m.files.canList (walkedPath path place d)) m.now
    (top ++ (directoriesBelow m.files place).map (place ++ ·))
  rw [run_pruneWalked, run_pruneWalked, ← h.files.directoriesBelow, pruneFrom, pruneFrom, ← h.now, herror]
  simp only [hlist]
  exact ⟨rfl, halike, rfl, h.service⟩

lemma uniform_pruneStaging (path : String) : Uniform (SameMachine v S) (pruneStaging path) := by
  unfold pruneStaging
  refine uniform_look fun m m' h => ?_
  rw [← h.files.spot]
  rcases m.files.spot false path with fault | ⟨place⟩ | ⟨parent, name⟩
  · exact ⟨rfl, h⟩
  · have hnode := h.files.nodes place
    dsimp only
    generalize m.files.get? place = node, m'.files.get? place = node' at hnode
    cases hnode with
    | none | file => exact ⟨rfl, h⟩
    | directory mode => exact uniform_pruneWalked path place [place] m m' h
    | link target =>
      dsimp only
      rw [← h.files.place, ← h.files.isDirectory]
      rcases m.files.place path with fault | goal
      · exact ⟨rfl, h⟩
      · dsimp only
        rw [← h.files.canList]
        split
        · exact ⟨rfl, h⟩
        · split
          · exact uniform_pruneWalked path goal [] m m' h
          · exact ⟨rfl, h⟩
  · exact ⟨rfl, h⟩

end Machines

/-! ### Whole downloads -/

/-- The store answers the same on both machines and leaves them as they are. -/
structure AnswersAlike (s : Store σ) (m m' : Machine σ) : Prop where
  list : ∀ start, ∃ keys, s.list start m = (keys, m) ∧ s.list start m' = (keys, m')
  fetch : ∀ key, ∃ data, s.fetch key m = (data, m) ∧ s.fetch key m' = (data, m')

lemma AnswersAlike.fetchAll {s : Store σ} {m m' : Machine σ} (h : AnswersAlike s m m') (keys : List String) :
    ∃ bundles, s.fetchAll keys m = (bundles, m) ∧ s.fetchAll keys m' = (bundles, m') := by
  induction keys with
  | nil => exact ⟨_, rfl, rfl⟩
  | cons key keys ih =>
    obtain ⟨r, hr, hr'⟩ := h.fetch key
    rw [Store.fetchAll, run_bind, run_bind, hr, hr']
    rcases r with e | data
    · exact ⟨_, rfl, rfl⟩
    · obtain ⟨others, hothers, hothers'⟩ := ih
      dsimp only
      rw [run_bind, run_bind, hothers, hothers']
      rcases others with e | bundles
      · exact ⟨_, rfl, rfl⟩
      · exact ⟨_, rfl, rfl⟩

lemma AnswersAlike.get {s : Store σ} {m m' : Machine σ} (h : AnswersAlike s m m') (start : String) (filter : KeyFilter) :
    ∃ bundles, s.get start filter m = (bundles, m) ∧ s.get start filter m' = (bundles, m') := by
  obtain ⟨r, hr, hr'⟩ := h.list start
  simp only [Store.get, run_bind, hr, hr']
  rcases r with e | keys
  · exact ⟨_, rfl, rfl⟩
  · exact h.fetchAll _

section Downloads

variable {v : FileView} {S : σ → σ → Prop} {s : Store σ} {I : FileTree → Prop} {request : DownloadRequest} {now : Instant}
  (hI : Bears now I request.workspace fun _ => True)
  (hstore : ∀ {m m'}, SameMachine v S m m' → I m.files → AnswersAlike s m m')

include hI hstore

lemma takeSources_alike (sources : List BundleSource) {m m' : Machine σ} (h : SameMachine v S m m') (hnow : m.now = now)
    (hm : I m.files) :
    SameEnd (SameMachine v S) (takeSources s request sources m) (takeSources s request sources m') := by
  induction sources generalizing m m' with
  | nil => exact ⟨rfl, h⟩
  | cons source rest ih =>
    obtain ⟨r, hr, hr'⟩ := (hstore h hm).get source.start (sourceFilter request.includes source)
    have hget : SameEnd (SameMachine v S)
        ((s.get source.start (sourceFilter request.includes source)).widen HandoffError.store m)
        ((s.get source.start (sourceFilter request.includes source)).widen HandoffError.store m') := by
      rw [Task.widen, Task.widen, hr, hr']
      rcases r with e | bundles <;> exact ⟨rfl, h⟩
    refine hget.bind fun hbundles hafter => ?_
    have hkept := gives_widen.mp hbundles
    unfold Gives at hkept
    rw [hr] at hkept
    cases hkept
    refine (uniform_unpackBundles request.workspace _ _ _ hafter).bind fun hunpack hbetween => ?_
    -- the store is asked again only after all bundles before were unpacked
    obtain ⟨_, _, hunpacked, files, rfl⟩ := unpackBundles_run hunpack
    rw [hnow] at hunpacked
    have hlater := hI.unpacked hunpacked (fun _ _ _ _ => trivial) hm
    exact (ih hbetween hnow hlater).bind fun _ hlast => uniform_pure _ _ _ hlast

/-- On machines that are alike a download comes to the same end, and they are alike after it. -/
theorem download_alike {m m' : Machine σ} (h : SameMachine v S m m') (hnow : m.now = now) (hm : I m.files) :
    SameEnd (SameMachine v S) (download s request m) (download s request m') := by
  unfold download
  refine (uniform_makeDirectories _ _ m m' h).bind fun hmake hmade => ?_
  obtain ⟨files, hfiles, rfl⟩ := gives_makeDirectories.mp hmake
  have hstaged := hI.makeDirectories (liesBelow_staging request.workspace) (by simp) (isFront_refl _) hm
  rw [← hnow, hfiles] at hstaged
  refine (takeSources_alike hI hstore request.sources hmade hnow hstaged).bind fun _ htaken => ?_
  exact uniform_bind (uniform_pruneStaging _) (fun _ => uniform_pure _) _ _ htaken

end Downloads

end CrossBuild.Proofs
