import CrossBuild.Proofs.PathParents
import CrossBuild.Proofs.TreeChanges

/-!
# Paths that can be walked

What leads somewhere need not be open: a directory on the way may not be searched, and there may be too
many links. A path is open if all of its steps can be taken, with the permissions there are and within the
limit. A walk that goes on from an open path comes to its end and goes on from there, so whatever follows
decides how it ends; and the path stays open as long as directories and links stay what they are.
-/

namespace CrossBuild.Proofs
open FileTree

/-! ### Steps that can be taken -/

/-- The steps can be taken from one place to another, through directories that can be searched. The
numbers tell how many links may be followed before and after. -/
inductive Passes (t : FileTree) : Nat → Place → List Step → Nat → Place → Prop where
  | done {limit : Nat} {place : Place} (hcheck : t.checkDirectory place searchBit = .ok ()) :
      Passes t limit place [] limit place
  | here {limit left : Nat} {place q : Place} {rest : List Step}
      (hcheck : t.checkDirectory place searchBit = .ok ()) (hrest : Passes t limit place rest left q) :
      Passes t limit place (.here :: rest) left q
  | up {limit left : Nat} {place q : Place} {rest : List Step}
      (hcheck : t.checkDirectory place searchBit = .ok ())
      (hrest : Passes t limit place.dropLast rest left q) : Passes t limit place (.up :: rest) left q
  | into {limit left : Nat} {place q : Place} {name : String} {rest : List Step} {mode : Nat}
      (hcheck : t.checkDirectory place searchBit = .ok ()) (hsize : name.utf8ByteSize ≤ longestName)
      (hdir : t.get? (place ++ [name]) = some (.directory mode))
      (hrest : Passes t limit (place ++ [name]) rest left q) : Passes t limit place (.into name :: rest) left q
  | link {limit left : Nat} {place q : Place} {name target : String} {rest : List Step}
      (hcheck : t.checkDirectory place searchBit = .ok ()) (hsize : name.utf8ByteSize ≤ longestName)
      (hnode : t.get? (place ++ [name]) = some (.link target))
      (hrest : Passes t limit (if Path.isAbsolute target then [] else place) (stepsOf target ++ rest) left q) :
      Passes t (limit + 1) place (.into name :: rest) left q

section Steps

variable {t : FileTree} {limit left : Nat} {place q : Place} {steps : List Step}

lemma Passes.check_start (h : Passes t limit place steps left q) :
    t.checkDirectory place searchBit = .ok () := by
  cases h with
  | done hcheck | here hcheck | up hcheck | into hcheck | link hcheck => exact hcheck

lemma Passes.check_end (h : Passes t limit place steps left q) : t.checkDirectory q searchBit = .ok () := by
  induction h with
  | done hcheck => exact hcheck
  | here _ _ ih | up _ _ ih | into _ _ _ _ ih | link _ _ _ _ ih => exact ih

lemma Passes.leads (h : Passes t limit place steps left q) : Leads t place steps q := by
  induction h with
  | done => exact .done _
  | here hcheck _ ih => exact .here (directoryAt_of_check hcheck) ih
  | up hcheck _ ih => exact .up (directoryAt_of_check hcheck) ih
  | into hcheck _ hdir _ ih => exact .into (directoryAt_of_check hcheck) hdir (by simp) ih
  | link hcheck _ hnode _ ih => exact .link (directoryAt_of_check hcheck) hnode ih

/-- A walk that begins with these steps goes on from where they lead. -/
lemma Passes.walkLinks (h : Passes t limit place steps left q) {followLast : Bool} {more : List Step}
    (hmore : more ≠ [] ∨ followLast = true) :
    FileTree.walkLinks t followLast (limit + 1) place (steps ++ more) =
      FileTree.walkLinks t followLast (left + 1) q more := by
  have hon : ∀ rest : List Step, ((rest ++ more).isEmpty && !followLast) = false := by
    intro rest
    rcases hmore with hmore | hlast
    · simp [hmore]
    · simp [hlast]
  induction h with
  | done => rfl
  | here hcheck _ ih =>
    rw [← ih, FileTree.walkLinks, FileTree.walkLinks, List.cons_append, walk.eq_def]
    simp only [hcheck]
  | up hcheck _ ih =>
    rw [← ih, FileTree.walkLinks, FileTree.walkLinks, List.cons_append, walk.eq_def]
    simp only [hcheck]
  | into hcheck hsize hdir _ ih =>
    rw [← ih, FileTree.walkLinks, FileTree.walkLinks, List.cons_append, walk.eq_def]
    simp only [hcheck, hdir, if_neg (Nat.not_lt.mpr hsize)]
  | link hcheck hsize hnode _ ih =>
    rw [← ih, FileTree.walkLinks, List.cons_append, walk.eq_def]
    simp only [hcheck, hnode, if_neg (Nat.not_lt.mpr hsize), hon, Bool.false_eq_true, if_false,
      List.append_assoc]

/-- A walk to a directory that can be searched, with all links followed, takes steps that can be taken. -/
lemma passes_of_walkLinks (h : FileTree.walkLinks t true limit place steps = .ok (.taken q))
    (hcheck : t.checkDirectory q searchBit = .ok ()) :
    ∃ links left, limit = links + 1 ∧ Passes t links place steps left q := by
  induction limit generalizing place steps with
  | zero => cases h
  | succ limit ihLimit =>
    suffices hpasses : ∃ left, Passes t limit place steps left q by
      obtain ⟨left, hpasses⟩ := hpasses
      exact ⟨limit, left, rfl, hpasses⟩
    induction steps generalizing place with
    | nil =>
      cases h
      exact ⟨limit, .done hcheck⟩
    | cons step rest ih =>
      obtain ⟨hplace, hstep⟩ := walksOn_of_walk h
      cases hstep with
      | here hwalk =>
        obtain ⟨left, hrest⟩ := ih hwalk
        exact ⟨left, .here hplace hrest⟩
      | up hwalk =>
        obtain ⟨left, hrest⟩ := ih hwalk
        exact ⟨left, .up hplace hrest⟩
      | last _ _ hlast => cases hlast
      | link hsize hnode _ hwalk =>
        obtain ⟨links, left, rfl, hrest⟩ := ihLimit hwalk
        exact ⟨left, .link hplace hsize hnode hrest⟩
      | into hsize hnode _ hwalk =>
        obtain ⟨left, hrest⟩ := ih hwalk
        -- only of a directory can it be checked that it may be searched
        obtain ⟨mode, hmode⟩ := directoryAt_of_check hrest.check_start
        exact ⟨left, .into hplace hsize hmode hrest⟩

lemma Passes.split {front back : List Step} (h : Passes t limit place (front ++ back) left q) :
    ∃ between spare, Passes t limit place front spare between ∧ Passes t spare between back left q := by
  generalize hsteps : front ++ back = steps at h
  induction h generalizing front with
  | done hcheck =>
    obtain ⟨rfl, rfl⟩ := List.append_eq_nil_iff.mp hsteps
    exact ⟨_, _, .done hcheck, .done hcheck⟩
  | here hcheck hrest ih =>
    cases front with
    | nil =>
      cases hsteps
      exact ⟨_, _, .done hcheck, .here hcheck hrest⟩
    | cons step front =>
      cases hsteps
      obtain ⟨between, spare, hfront, hback⟩ := ih rfl
      exact ⟨between, spare, .here hcheck hfront, hback⟩
  | up hcheck hrest ih =>
    cases front with
    | nil =>
      cases hsteps
      exact ⟨_, _, .done hcheck, .up hcheck hrest⟩
    | cons step front =>
      cases hsteps
      obtain ⟨between, spare, hfront, hback⟩ := ih rfl
      exact ⟨between, spare, .up hcheck hfront, hback⟩
  | into hcheck hsize hdir hrest ih =>
    cases front with
    | nil =>
      cases hsteps
      exact ⟨_, _, .done hcheck, .into hcheck hsize hdir hrest⟩
    | cons step front =>
      cases hsteps
      obtain ⟨between, spare, hfront, hback⟩ := ih rfl
      exact ⟨between, spare, .into hcheck hsize hdir hfront, hback⟩
  | @link _ _ _ _ _ target _ hcheck hsize hnode hrest ih =>
    cases front with
    | nil =>
      cases hsteps
      exact ⟨_, _, .done hcheck, .link hcheck hsize hnode hrest⟩
    | cons step front =>
      cases hsteps
      obtain ⟨between, spare, hfront, hback⟩ := ih (List.append_assoc (stepsOf target) front back)
      exact ⟨between, spare, .link hcheck hsize hnode hfront, hback⟩

lemma Passes.trans {between : Place} {spare : Nat} {more : List Step} (h : Passes t limit place steps spare between)
    (h' : Passes t spare between more left q) : Passes t limit place (steps ++ more) left q := by
  induction h with
  | done => exact h'
  | here hcheck _ ih => exact .here hcheck (ih h')
  | up hcheck _ ih => exact .up hcheck (ih h')
  | into hcheck hsize hdir _ ih => exact .into hcheck hsize hdir (ih h')
  | link hcheck hsize hnode _ ih =>
    have hrest := ih h'
    rw [List.append_assoc] at hrest
    exact .link hcheck hsize hnode hrest

end Steps

/-! ### Open paths -/

/-- The path leads to a directory that can be searched, and all steps of it can be taken. -/
def Opens (t : FileTree) (path : String) (w : Place) : Prop :=
  ∃ left, Passes t linkLimit (startOf t path) ((activePieces path).map stepOf) left w

section Paths

variable {t : FileTree} {path : String} {w : Place}

lemma checkPath_of_place (h : t.place path = .ok w) : checkPath path = .ok () :=
  (spot_iff_walk.mp (place_iff_spot.mp h)).1

lemma opens_of_place (h : t.place path = .ok w) (hcheck : t.checkDirectory w searchBit = .ok ()) :
    Opens t path w := by
  obtain ⟨_, hspot⟩ := spot_iff_walk.mp (place_iff_spot.mp h)
  obtain ⟨links, left, hlimit, hpasses⟩ := passes_of_walkLinks hspot hcheck
  obtain rfl : linkLimit = links := Nat.succ.inj hlimit
  rcases stepsOf_eq path with hsteps | hsteps
  · exact ⟨left, hsteps ▸ hpasses⟩
  · rw [hsteps] at hpasses
    obtain ⟨between, spare, hfront, hback⟩ := hpasses.split
    cases hback with
    | here _ hrest =>
      cases hrest
      exact ⟨_, hfront⟩

lemma Opens.check (h : Opens t path w) : t.checkDirectory w searchBit = .ok () := by
  obtain ⟨left, hpasses⟩ := h
  exact hpasses.check_end

lemma Opens.leadsTo (h : Opens t path w) : LeadsTo t path w := by
  obtain ⟨left, hpasses⟩ := h
  exact ⟨hpasses.leads, directoryAt_of_check hpasses.check_end⟩

/-- A walk along an open path ends where it leads, with or without a step that stays there. -/
lemma Opens.spotOfSteps (h : Opens t path w) {tail : List Step} (htail : tail = [] ∨ tail = [.here]) :
    t.spotOfSteps true path ((activePieces path).map stepOf ++ tail) = .ok (.taken w) := by
  obtain ⟨left, hpasses⟩ := h
  refine (hpasses.walkLinks (.inr rfl)).trans ?_
  rcases htail with rfl | rfl
  · rfl
  · rw [walkLinks, walk.eq_def]
    simp only [hpasses.check_end]
    rfl

lemma Opens.place_eq (h : Opens t path w) (hcheck : checkPath path = .ok ()) : t.place path = .ok w := by
  have hspot : t.spotOfSteps true path (stepsOf path) = .ok (.taken w) := by
    rcases stepsOf_eq path with hsteps | hsteps
    · rw [hsteps]
      simpa using h.spotOfSteps (.inl rfl)
    · rw [hsteps]
      exact h.spotOfSteps (.inr rfl)
  exact place_iff_spot.mpr (spot_iff_walk.mpr ⟨hcheck, hspot⟩)

lemma Opens.isDirectory (h : Opens t path w) (hcheck : checkPath path = .ok ()) : t.isDirectory path = true := by
  obtain ⟨mode, hmode⟩ := h.leadsTo.directory
  exact isDirectory_iff.mpr ⟨mode, node_iff_place.mpr ⟨w, h.place_eq hcheck, hmode⟩⟩

/-- At the end of an open path a directory is there already. -/
lemma Opens.ensureDirectory (h : Opens t path w) (hcheck : checkPath path = .ok ()) (now : Instant) :
    t.ensureDirectory path now = .ok t := by
  unfold FileTree.ensureDirectory
  cases hmake : t.makeDirectory path now with
  | ok made =>
    obtain ⟨parent, name, hspot, _⟩ := makeDirectory_eq_ok hmake
    have hleads := h.leadsTo.steps
    have hsteps := stepsOf_eq (withoutEndSlashes path)
    rw [activePieces_withoutEndSlashes] at hsteps
    rcases hsteps with hsteps | hsteps
    · rw [hsteps] at hspot
      exact (hleads.not_free hspot).elim
    · rw [hsteps] at hspot
      obtain ⟨limit, hwalk⟩ := hleads.walkLinks (by simp) hspot
      cases walkLinks_nil (walkLinks_here hwalk)
  | error fault => exact if_pos (h.isDirectory hcheck)

/-- What an open path goes through on the way is open as well. -/
lemma Opens.front {above : String} (h : Opens t path w) (hstart : Path.isAbsolute above = Path.isAbsolute path)
    (hfront : (activePieces above).map stepOf <+: (activePieces path).map stepOf) : ∃ q, Opens t above q := by
  obtain ⟨left, hpasses⟩ := h
  obtain ⟨back, hback⟩ := hfront
  rw [← hback] at hpasses
  obtain ⟨between, spare, hway, _⟩ := hpasses.split
  refine ⟨between, spare, ?_⟩
  rwa [startOf, hstart]

end Paths

/-! ### Trees in which more is there -/

/-- All directories and links of a tree are in the other one as they are. -/
structure Preserves (t t' : FileTree) : Prop where
  current : t'.current = t.current
  directories : ∀ {q mode}, t.get? q = some (.directory mode) → t'.get? q = some (.directory mode)
  links : ∀ {q target}, t.get? q = some (.link target) → t'.get? q = some (.link target)

section Preserved

variable {t t' : FileTree}

lemma Preserves.check (h : Preserves t t') {place : Place} {bit : Nat}
    (hcheck : t.checkDirectory place bit = .ok ()) : t'.checkDirectory place bit = .ok () := by
  obtain ⟨mode, hmode⟩ := directoryAt_of_check hcheck
  unfold checkDirectory at hcheck ⊢
  rw [hmode] at hcheck
  rw [h.directories hmode]
  exact hcheck

lemma Passes.mono {limit left : Nat} {place q : Place} {steps : List Step} (hpasses : Passes t limit place steps left q)
    (h : Preserves t t') : Passes t' limit place steps left q := by
  induction hpasses with
  | done hcheck => exact .done (h.check hcheck)
  | here hcheck _ ih => exact .here (h.check hcheck) ih
  | up hcheck _ ih => exact .up (h.check hcheck) ih
  | into hcheck hsize hdir _ ih => exact .into (h.check hcheck) hsize (h.directories hdir) ih
  | link hcheck hsize hnode _ ih => exact .link (h.check hcheck) hsize (h.links hnode) ih

lemma Opens.mono {path : String} {w : Place} (hopens : Opens t path w) (h : Preserves t t') : Opens t' path w := by
  obtain ⟨left, hpasses⟩ := hopens
  refine ⟨left, ?_⟩
  rw [startOf, h.current]
  exact hpasses.mono h

end Preserved

end CrossBuild.Proofs
