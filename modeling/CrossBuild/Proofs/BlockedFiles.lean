import CrossBuild.Proofs.KeptBundles

/-!
# Files that there is no room for

A file cannot be put where a directory is, nor below another file. All directories that lead to what is in
its way are there then, so the attempt makes none before it fails, and the tree stays as it was. A walk sees
no more of a tree than what is on its way, so what is read below a place depends on nothing elsewhere.
-/

namespace CrossBuild.Proofs
open FileTree Directory

/-! ### What is in the way -/

/-- Nothing can be made on the way along these names, and what is at their end is a directory if anything is. -/
structure Blocks (t : FileTree) (w names : Place) : Prop where
  missing : ∀ front, front <+: names → t.get? (w ++ front) = none → ¬DirectoryAt t (w ++ front).dropLast
  taken : t.get? (w ++ names) ≠ none → DirectoryAt t (w ++ names)

section Blocked

variable {t t' : FileTree} {base path target : String} {w names front q q' : Place} {f : File} {now : Instant}

lemma Rooted.none_below_file (ht : Rooted t) (hfile : t.get? q = some (.file f)) (hbegins : q <+: q') (hne : q ≠ q') :
    t.get? q' = none := by
  obtain ⟨rest, rfl⟩ := hbegins
  cases rest with
  | nil => exact absurd (List.append_nil q).symm hne
  | cons name more =>
    by_contra hthere
    have hsplit : q ++ name :: more = (q ++ [name]) ++ more := by simp
    rw [hsplit] at hthere
    obtain ⟨mode, hmode⟩ := ht q name (ht.get?_front more hthere)
    rw [hfile] at hmode
    cases hmode

lemma Rooted.no_directory_below_file (ht : Rooted t) (hfile : t.get? q = some (.file f)) (hbegins : q <+: q') :
    ¬DirectoryAt t q' := by
  rintro ⟨mode, hmode⟩
  by_cases hq : q = q'
  · rw [← hq, hfile] at hmode
    cases hmode
  · rw [ht.none_below_file hfile hbegins hq] at hmode
    cases hmode

lemma blocks_of_file (ht : Rooted t) (hfile : t.get? (w ++ front) = some (.file f)) (hbegins : front <+: names)
    (hne : front ≠ names) : Blocks t w names where
  missing := by
    intro before hbefore hnone
    rcases List.prefix_or_prefix_of_prefix hbefore hbegins with hshort | ⟨more, rfl⟩
    · have hthere : t.get? (w ++ front) ≠ none := by simp [hfile]
      exact absurd hnone (ht.get?_of_prefix hthere ((List.prefix_append_right_inj w).mpr hshort))
    · have hmore : more ≠ [] := by
        rintro rfl
        rw [List.append_nil, hfile] at hnone
        cases hnone
      apply ht.no_directory_below_file hfile
      rw [← List.append_assoc, List.dropLast_append_of_ne_nil hmore]
      exact List.prefix_append _ _
  taken := by
    intro hthere
    have hplace : w ++ front <+: w ++ names := (List.prefix_append_right_inj w).mpr hbegins
    exact absurd (ht.none_below_file hfile hplace fun heq => hne (List.append_cancel_left heq)) hthere

lemma blocks_of_directory (ht : Rooted t) (hdir : DirectoryAt t (w ++ names)) : Blocks t w names where
  missing := by
    intro before hbefore hnone
    obtain ⟨mode, hmode⟩ := hdir
    have hthere : t.get? (w ++ names) ≠ none := by simp [hmode]
    exact absurd hnone (ht.get?_of_prefix hthere ((List.prefix_append_right_inj w).mpr hbefore))
  taken := fun _ => hdir

/-! ### Attempts that fail -/

/-- A directory that is ensured was there, or its name was free in a directory. -/
lemma ensureDirectory_eq_ok (h : t.ensureDirectory path now = .ok t') : t' = t ∨ ∃ parent name,
    t.spotOfSteps false path (stepsOf (withoutEndSlashes path)) = .ok (.free parent name) ∧ DirectoryAt t parent := by
  unfold ensureDirectory at h
  split at h
  · rename_i made hmake
    simp only [makeDirectory, bind_eq_ok] at hmake
    obtain ⟨s, hspot, hmake⟩ := hmake
    cases s with
    | taken place => cases hmake
    | free parent name =>
      simp only [FileTree.add, bind_eq_ok] at hmake
      obtain ⟨_, ⟨_, hcheck, _⟩, _⟩ := hmake
      exact .inr ⟨parent, name, hspot, directoryAt_of_check hcheck⟩
  · split at h
    · exact .inl (Except.ok.inj h).symm
    · cases h

lemma Blocks.makeDirectories (hblocks : Blocks t w names) (hclean : IsClean t base w)
    (htarget : LiesBelow base names target) (hfront : IsFront path target) : (t.makeDirectories path now).1 = t := by
  refine makeDirectories_keeps (I := fun made => made = t) ?_ rfl
  rintro above habove made made' rfl hensure
  rcases ensureDirectory_eq_ok hensure with rfl | ⟨parent, name, hspot, hdir⟩
  · rfl
  · exfalso
    have habove : IsFront above path := by
      rcases List.mem_append.mp habove with habove | habove
      · exact isFront_ancestor habove
      · rw [List.mem_singleton.mp habove]
        exact isFront_refl path
    have hsteps := stepsOf_eq (withoutEndSlashes above)
    rw [activePieces_withoutEndSlashes] at hsteps
    rcases hclean.spot_front htarget (habove.trans hfront) hsteps hspot with ⟨place, htaken⟩ | ⟨way, _, hway, hends⟩
    · cases htaken
    · cases hends with
      | free hnames hnone =>
        apply hblocks.missing way hway hnone
        rwa [hnames, ← List.append_assoc, List.dropLast_concat]

lemma Blocks.replace (hblocks : Blocks t w names) (hpath : Reaches t path w names) (f : File) (now : Instant) :
    ∃ fault, t.replace path f now = .error fault := by
  cases hreplace : t.replace path f now with
  | error fault => exact ⟨fault, rfl⟩
  | ok t' =>
    exfalso
    simp only [FileTree.replace, bind_eq_ok] at hreplace
    obtain ⟨s, hspot, hreplace⟩ := hreplace
    cases hpath.spot hspot with
    | taken node hnode =>
      simp only [bind_eq_ok] at hreplace
      obtain ⟨_, hcheck, _⟩ := hreplace
      exact not_directoryAt_of_replaceable hcheck (hblocks.taken (by simp [hnode]))
    | free hnames hnone =>
      simp only [FileTree.add, bind_eq_ok] at hreplace
      obtain ⟨_, hcheck, _⟩ := hreplace
      apply hblocks.missing names List.prefix_rfl hnone
      rw [hnames, ← List.append_assoc, List.dropLast_concat]
      exact directoryAt_of_check hcheck

/-- Where something is in the way of a file, nothing is changed in the attempt to put it. -/
lemma Blocks.writeWhole {σ : Type} {m : Machine σ} (hblocks : Blocks m.files w names) (hclean : IsClean m.files base w)
    (htarget : LiesBelow base names path) (hne : names ≠ []) (data : ByteArray) :
    ∃ fault, writeWhole path data m = (.error (.file fault), m) := by
  have hmade : (m.files.makeDirectories ((Path.parent? path).getD "") m.now).1 = m.files := by
    by_cases hempty : (Path.parent? path).getD "" = ""
    · rw [hempty]
      rfl
    · cases hparent : Path.parent? path with
      | none =>
        rw [hparent] at hempty
        exact absurd rfl hempty
      | some above =>
        rw [hparent] at hempty
        exact hblocks.makeDirectories hclean htarget (isFront_parent hparent hempty)
  rw [Directory.writeWhole, run_bind, run_makeDirectories, hmade]
  cases (m.files.makeDirectories ((Path.parent? path).getD "") m.now).2 with
  | some fault => exact ⟨fault, rfl⟩
  | none =>
    obtain ⟨fault, hfault⟩ := hblocks.replace (hclean.reaches htarget hne) ⟨data, m.now, privateMode⟩ m.now
    refine ⟨fault, ?_⟩
    dsimp only
    rw [run_changeFiles, hfault]

end Blocked

/-! ### What a walk sees -/

section Seen

variable {t t' : FileTree} {base path : String} {w names : Place}

lemma walk_congr {onLink onLink' : Place → List Step → Except FileFault Spot} (hfree : LinkFree t w)
    (hsame : ∀ names, t.get? (w ++ names) = t'.get? (w ++ names)) :
    walk t true onLink w (names.map .into) = walk t' true onLink' w (names.map .into) := by
  induction names generalizing w with
  | nil => rfl
  | cons name rest ih =>
    have hplace := hsame []
    rw [List.append_nil] at hplace
    have hcheck : t.checkDirectory w searchBit = t'.checkDirectory w searchBit := by
      rw [checkDirectory, checkDirectory, hplace]
    have hrest := ih (hfree.below [name]) fun names => by
      rw [List.append_assoc]
      exact hsame _
    rw [List.map_cons, walk.eq_def, walk.eq_def t']
    simp only [hcheck, hrest, ← hsame [name]]
    cases hnode : t.get? (w ++ [name]) with
    | none => rfl
    | some node =>
      cases node with
      | link target => exact absurd hnode (hfree [name] target)
      | directory mode => rfl
      | file f => rfl

/-- What is read at a path that goes on below a place is told by what is below the place. -/
lemma Opens.read_congr (h : Opens t base w) (h' : Opens t' base w) (htarget : LiesBelow base names path)
    (hne : names ≠ []) (hends : EndsActive path) (hfree : LinkFree t w)
    (hsame : ∀ names, t.get? (w ++ names) = t'.get? (w ++ names)) : t.read path = t'.read path := by
  have hwalk : ∀ {t : FileTree}, Opens t base w → ∃ onLink,
      t.spotOfSteps true path (stepsOf path) = walk t true onLink w (names.map .into) := by
    rintro t ⟨left, hpasses⟩
    unfold FileTree.spotOfSteps
    rw [hends.stepsOf, htarget.start, htarget.steps]
    exact ⟨_, hpasses.walkLinks (.inr rfl)⟩
  obtain ⟨onLink, hspot⟩ := hwalk h
  obtain ⟨onLink', hspot'⟩ := hwalk h'
  have hplace : t.place path = t'.place path := by
    rw [FileTree.place, FileTree.place, FileTree.spot, FileTree.spot, hspot, hspot', walk_congr hfree hsame]
  have hnode : t.node path = t'.node path := by
    rw [FileTree.node, FileTree.node, ← hplace]
    cases hq : t.place path with
    | error fault => rfl
    | ok q =>
      rw [(IsClean.reaches ⟨h.leadsTo, hfree⟩ htarget hne).place hq]
      simp only [bind, Except.bind, hsame names]
  rw [FileTree.read, FileTree.read, FileTree.file, FileTree.file, hnode]

end Seen

end CrossBuild.Proofs
