import CrossBuild.Proofs.TreeWalk
import CrossBuild.Proofs.Sequencing

/-!
# Where the path of a directory leads

A walk depends on permissions and on a limit for links, and both get in the way when a tree changes while
a path is used again and again. `Leads` is what remains of a walk without them: which directories and
links it passes. It holds on in any tree that keeps these, and every later walk that goes beyond the end
of the path passes the same place. So below a directory without links a longer path ends where its names
say, however its front part leads there.
-/

namespace CrossBuild.Proofs
open FileTree

/-- A directory stands at the place. -/
def DirectoryAt (t : FileTree) (place : Place) : Prop := ∃ mode, t.get? place = some (.directory mode)

lemma directoryAt_of_check {t : FileTree} {place : Place} {bit : Nat}
    (h : t.checkDirectory place bit = .ok ()) : DirectoryAt t place := by
  unfold checkDirectory at h
  split at h
  · rename_i mode hmode
    exact ⟨mode, hmode⟩
  · cases h

/-! ### Steps -/

/-- From one place to another by steps through directories and links. -/
inductive Leads (t : FileTree) : Place → List Step → Place → Prop where
  | done (place : Place) : Leads t place [] place
  | here {place q : Place} {rest : List Step} (hdir : DirectoryAt t place) (hrest : Leads t place rest q) :
      Leads t place (.here :: rest) q
  | up {place q : Place} {rest : List Step} (hdir : DirectoryAt t place)
      (hrest : Leads t place.dropLast rest q) : Leads t place (.up :: rest) q
  | into {place q : Place} {name : String} {rest : List Step} {node : FileNode} (hdir : DirectoryAt t place)
      (hnode : t.get? (place ++ [name]) = some node) (hlink : ∀ target, node ≠ .link target)
      (hrest : Leads t (place ++ [name]) rest q) : Leads t place (.into name :: rest) q
  | link {place q : Place} {name target : String} {rest : List Step} (hdir : DirectoryAt t place)
      (hnode : t.get? (place ++ [name]) = some (.link target))
      (hrest : Leads t (if Path.isAbsolute target then [] else place) (stepsOf target ++ rest) q) :
      Leads t place (.into name :: rest) q

section Steps

variable {t : FileTree} {place q : Place} {steps : List Step}

/-- A walk that ends has passed a place to which its first steps lead. If these are all its steps, it
must have followed the last one too. -/
lemma walkLinks_split {followLast : Bool} {limit : Nat} {more : List Step} {s : Spot}
    (hmore : more ≠ [] ∨ followLast = true ∧ ∃ q, s = .taken q)
    (h : walkLinks t followLast limit place (steps ++ more) = .ok s) :
    ∃ q limit', Leads t place steps q ∧ walkLinks t followLast limit' q more = .ok s := by
  induction limit generalizing place steps with
  | zero => cases h
  | succ limit ihLimit =>
    induction steps generalizing place with
    | nil => exact ⟨place, limit + 1, .done place, h⟩
    | cons step rest ih =>
      rw [List.cons_append] at h
      obtain ⟨hcheck, hstep⟩ := walksOn_of_walk h
      have hdir := directoryAt_of_check hcheck
      generalize hrest : rest ++ more = after at hstep
      cases hstep with
      | here hwalk =>
        obtain ⟨q, limit', hleads, hwalk⟩ := ih (hrest ▸ hwalk)
        exact ⟨q, limit', .here hdir hleads, hwalk⟩
      | up hwalk =>
        obtain ⟨q, limit', hleads, hwalk⟩ := ih (hrest ▸ hwalk)
        exact ⟨q, limit', .up hdir hleads, hwalk⟩
      | free =>
        rcases hmore with hmore | ⟨_, q, htaken⟩
        · exact (hmore (List.append_eq_nil_iff.mp hrest).2).elim
        · cases htaken
      | last _ _ hlast =>
        rcases hmore with hmore | ⟨hfollow, _⟩
        · exact (hmore (List.append_eq_nil_iff.mp hrest).2).elim
        · exact (Bool.false_ne_true (hlast.symm.trans hfollow)).elim
      | link _ hnode _ hwalk =>
        rw [← hrest, ← List.append_assoc] at hwalk
        obtain ⟨q, limit', hleads, hwalk⟩ := ihLimit hwalk
        exact ⟨q, limit', .link hdir hnode hleads, hwalk⟩
      | into _ hnode hlink hwalk =>
        obtain ⟨q, limit', hleads, hwalk⟩ := ih (hrest ▸ hwalk)
        exact ⟨q, limit', .into hdir hnode hlink hleads, hwalk⟩

lemma Leads.split {front back : List Step} (h : Leads t place (front ++ back) q) :
    ∃ between, Leads t place front between ∧ Leads t between back q := by
  generalize hsteps : front ++ back = steps at h
  induction h generalizing front with
  | done place =>
    obtain ⟨rfl, rfl⟩ := List.append_eq_nil_iff.mp hsteps
    exact ⟨place, .done _, .done _⟩
  | here hdir hrest ih =>
    cases front with
    | nil =>
      cases hsteps
      exact ⟨_, .done _, .here hdir hrest⟩
    | cons step front =>
      cases hsteps
      obtain ⟨between, hfront, hback⟩ := ih rfl
      exact ⟨between, .here hdir hfront, hback⟩
  | up hdir hrest ih =>
    cases front with
    | nil =>
      cases hsteps
      exact ⟨_, .done _, .up hdir hrest⟩
    | cons step front =>
      cases hsteps
      obtain ⟨between, hfront, hback⟩ := ih rfl
      exact ⟨between, .up hdir hfront, hback⟩
  | into hdir hnode hlink hrest ih =>
    cases front with
    | nil =>
      cases hsteps
      exact ⟨_, .done _, .into hdir hnode hlink hrest⟩
    | cons step front =>
      cases hsteps
      obtain ⟨between, hfront, hback⟩ := ih rfl
      exact ⟨between, .into hdir hnode hlink hfront, hback⟩
  | @link _ _ _ target _ hdir hnode hrest ih =>
    cases front with
    | nil =>
      cases hsteps
      exact ⟨_, .done _, .link hdir hnode hrest⟩
    | cons step front =>
      cases hsteps
      have hsteps : (stepsOf target ++ front) ++ back = stepsOf target ++ (front ++ back) := List.append_assoc _ _ _
      obtain ⟨between, hfront, hback⟩ := ih hsteps
      exact ⟨between, .link hdir hnode hfront, hback⟩

lemma Leads.unique {q' : Place} (h : Leads t place steps q) (h' : Leads t place steps q') : q = q' := by
  induction h with
  | done =>
    cases h'
    rfl
  | here _ _ ih =>
    cases h' with
    | here _ hrest => exact ih hrest
  | up _ _ ih =>
    cases h' with
    | up _ hrest => exact ih hrest
  | into _ hnode hlink _ ih =>
    cases h' with
    | into _ _ _ hrest => exact ih hrest
    | link _ hnode' _ => exact (hlink _ (Option.some.inj (hnode.symm.trans hnode'))).elim
  | link _ hnode _ ih =>
    cases h' with
    | into _ hnode' hlink' _ => exact (hlink' _ (Option.some.inj (hnode'.symm.trans hnode))).elim
    | link _ hnode' hrest =>
      cases hnode.symm.trans hnode'
      exact ih hrest

/-- Steps lead on as they did if directories and links are still there, and what they end at too. -/
lemma Leads.mono {t' : FileTree} (h : Leads t place steps q)
    (hdirs : ∀ place, DirectoryAt t place → DirectoryAt t' place)
    (hlinks : ∀ place target, t.get? place = some (.link target) → t'.get? place = some (.link target))
    (hend : ∃ node, t'.get? q = some node ∧ ∀ target, node ≠ .link target) : Leads t' place steps q := by
  induction h with
  | done place => exact .done place
  | here hdir _ ih => exact .here (hdirs _ hdir) (ih hend)
  | up hdir _ ih => exact .up (hdirs _ hdir) (ih hend)
  | @into place _ name _ _ hdir hnode hlink hrest ih =>
    have hnext := ih hend
    have hthere : ∃ node, t'.get? (place ++ [name]) = some node ∧ ∀ target, node ≠ .link target := by
      -- either there are more steps from here, so it is a directory, or it is the end
      cases hrest with
      | done => exact hend
      | here hdir' _ | up hdir' _ | into hdir' _ _ _ | link hdir' _ _ =>
        obtain ⟨mode, hmode⟩ := hdirs _ hdir'
        exact ⟨_, hmode, by simp⟩
    obtain ⟨node', hnode', hlink'⟩ := hthere
    exact .into (hdirs _ hdir) hnode' hlink' hnext
  | link hdir hnode _ ih => exact .link (hdirs _ hdir) (hlinks _ _ hnode) (ih hend)

end Steps

/-! ### Walks along steps that lead somewhere -/

section Walks

variable {t : FileTree} {followLast : Bool} {limit : Nat} {place q : Place} {rest : List Step} {s : Spot}

lemma walkLinks_nil (h : walkLinks t followLast limit place [] = .ok s) : s = .taken place := by
  cases limit with
  | zero => cases h
  | succ limit => exact (Except.ok.inj h).symm

lemma walkLinks_here (h : walkLinks t followLast limit place (.here :: rest) = .ok s) :
    walkLinks t followLast limit place rest = .ok s := by
  obtain ⟨_, rfl, _, hstep⟩ := walksOn_of_walkLinks h
  cases hstep with
  | here hwalk => exact hwalk

lemma walkLinks_up (h : walkLinks t followLast limit place (.up :: rest) = .ok s) :
    walkLinks t followLast limit place.dropLast rest = .ok s := by
  obtain ⟨_, rfl, _, hstep⟩ := walksOn_of_walkLinks h
  cases hstep with
  | up hwalk => exact hwalk

lemma walkLinks_into {name : String} {node : FileNode} (hnode : t.get? (place ++ [name]) = some node)
    (hlink : ∀ target, node ≠ .link target)
    (h : walkLinks t followLast limit place (.into name :: rest) = .ok s) :
    walkLinks t followLast limit (place ++ [name]) rest = .ok s := by
  obtain ⟨_, rfl, _, hstep⟩ := walksOn_of_walkLinks h
  cases hstep with
  | free _ hnone =>
    rw [hnode] at hnone
    cases hnone
  | last _ hnode' | link _ hnode' => exact (hlink _ (Option.some.inj (hnode.symm.trans hnode'))).elim
  | into _ _ _ hwalk => exact hwalk

/-- A link is where a walk ends, or it is followed and that counts. -/
lemma walkLinks_link {name target : String} (hnode : t.get? (place ++ [name]) = some (.link target))
    (h : walkLinks t followLast limit place (.into name :: rest) = .ok s) :
    rest = [] ∧ followLast = false ∧ s = .taken (place ++ [name]) ∨
      ∃ limit', walkLinks t followLast limit' (if Path.isAbsolute target then [] else place)
        (stepsOf target ++ rest) = .ok s := by
  obtain ⟨links, rfl, _, hstep⟩ := walksOn_of_walkLinks h
  cases hstep with
  | free _ hnone =>
    rw [hnode] at hnone
    cases hnone
  | last _ _ hlast => exact .inl ⟨rfl, hlast, rfl⟩
  | link _ hnode' _ hwalk =>
    obtain rfl := FileNode.link.inj (Option.some.inj (hnode.symm.trans hnode'))
    exact .inr ⟨links, hwalk⟩
  | into _ hnode' hlink => exact (hlink _ (Option.some.inj (hnode'.symm.trans hnode))).elim

/-- A walk that goes further passes the place that the steps lead to. -/
lemma Leads.walkLinks {steps more : List Step} (h : Leads t place steps q) (hmore : more ≠ [])
    (hwalk : walkLinks t followLast limit place (steps ++ more) = .ok s) :
    ∃ limit', FileTree.walkLinks t followLast limit' q more = .ok s := by
  obtain ⟨q', limit', hleads, hrest⟩ := walkLinks_split (.inl hmore) hwalk
  rw [hleads.unique h] at hrest
  exact ⟨limit', hrest⟩

/-- A walk that is to follow all links and ends has gone where the steps lead. -/
lemma leads_of_walkLinks {steps : List Step} (h : walkLinks t true limit place steps = .ok (.taken q)) :
    Leads t place steps q := by
  rw [← List.append_nil steps] at h
  obtain ⟨q', limit', hleads, hrest⟩ := walkLinks_split (.inr ⟨rfl, q, rfl⟩) h
  cases walkLinks_nil hrest
  exact hleads

/-- Steps that lead somewhere do not end at a name that is free. -/
lemma Leads.not_free {steps : List Step} {front : Place} {name : String} (h : Leads t place steps q) :
    FileTree.walkLinks t followLast limit place steps ≠ .ok (.free front name) := by
  intro hwalk
  induction h generalizing limit with
  | done =>
    cases limit with
    | zero => cases hwalk
    | succ limit => cases hwalk
  | here _ _ ih => exact ih (walkLinks_here hwalk)
  | up _ _ ih => exact ih (walkLinks_up hwalk)
  | into _ hnode hlink _ ih => exact ih (walkLinks_into hnode hlink hwalk)
  | link _ hnode _ ih =>
    rcases walkLinks_link hnode hwalk with ⟨_, _, htaken⟩ | ⟨limit', hwalk'⟩
    · cases htaken
    · exact ih hwalk'

end Walks

/-! ### Paths -/

/-- The place at which the walk along a path starts. -/
def startOf (t : FileTree) (path : String) : Place := if Path.isAbsolute path then [] else t.current

/-- The path leads to the directory at the place. -/
structure LeadsTo (t : FileTree) (path : String) (w : Place) : Prop where
  steps : Leads t (startOf t path) ((activePieces path).map stepOf) w
  directory : DirectoryAt t w

/-- The path leads to a directory below which there are no links. -/
structure IsClean (t : FileTree) (path : String) (w : Place) : Prop where
  leads : LeadsTo t path w
  linkFree : LinkFree t w

lemma isClean_here {t : FileTree} (hdir : DirectoryAt t t.current) (hfree : LinkFree t t.current) :
    IsClean t "." t.current :=
  ⟨⟨.done _, hdir⟩, hfree⟩

lemma leads_of_place {t : FileTree} {path : String} {q : Place} (h : t.place path = .ok q) :
    Leads t (startOf t path) ((activePieces path).map stepOf) q := by
  have hleads := leads_of_walkLinks (spot_iff_walk.mp (place_iff_spot.mp h)).2
  rcases stepsOf_eq path with hsteps | hsteps
  · rwa [hsteps] at hleads
  · rw [hsteps] at hleads
    obtain ⟨between, hfront, hback⟩ := hleads.split
    cases hback with
    | here _ hrest =>
      cases hrest
      exact hfront

/-- The path goes on from the end of another one along these names. -/
structure LiesBelow (base : String) (names : Place) (path : String) : Prop where
  start : Path.isAbsolute path = Path.isAbsolute base
  steps : (activePieces path).map stepOf = (activePieces base).map stepOf ++ names.map .into

lemma liesBelow_refl (base : String) : LiesBelow base [] base := ⟨rfl, (List.append_nil _).symm⟩

lemma LiesBelow.join {base path rest : String} {names : Place} (h : LiesBelow base names path)
    (hplain : Path.isPlain rest = true) : LiesBelow base (names ++ namesOf rest) (Path.join path rest) := by
  obtain ⟨hrelative, hnames, _⟩ := isPlain_names hplain
  constructor
  · rw [isAbsolute_join path hrelative, h.start]
  · rw [activePieces_join path hrelative, List.map_append, h.steps, hnames, List.append_assoc,
      List.map_append]

/-- One path is another one's front part, as far as it says where to go. -/
structure IsFront (above path : String) : Prop where
  start : Path.isAbsolute above = Path.isAbsolute path
  pieces : activePieces above <+: activePieces path

lemma isFront_refl (path : String) : IsFront path path := ⟨rfl, List.prefix_rfl⟩

lemma IsFront.trans {first second third : String} (h : IsFront first second) (h' : IsFront second third) :
    IsFront first third :=
  ⟨h.start.trans h'.start, h.pieces.trans h'.pieces⟩

/-- Wherever a walk along the path ends, it is where these names lead from the place. -/
structure Reaches (t : FileTree) (path : String) (w names : Place) : Prop where
  ends : ∀ {followLast : Bool} {steps : List Step} {s : Spot},
    steps = (activePieces path).map stepOf ∨ steps = (activePieces path).map stepOf ++ [.here] →
      t.spotOfSteps followLast path steps = .ok s → EndsAt t w names s

section Paths

variable {t : FileTree} {base path target : String} {w names : Place}

lemma IsClean.endsAt (h : IsClean t base w) (hstart : Path.isAbsolute path = Path.isAbsolute base)
    (hne : names ≠ []) {followLast : Bool} {tail : List Step} (htail : tail = [] ∨ tail = [.here]) {s : Spot}
    (hspot : t.spotOfSteps followLast path
      ((activePieces base).map stepOf ++ (names.map .into ++ tail)) = .ok s) : EndsAt t w names s := by
  unfold spotOfSteps at hspot
  rw [hstart] at hspot
  obtain ⟨limit, hwalk⟩ := h.leads.steps.walkLinks (by simp [hne]) hspot
  cases limit with
  | zero => cases hwalk
  | succ limit => exact walk_names h.linkFree hne htail hwalk

/-- On the way to something below a directory a walk comes to places that are there, or it ends where
the first names lead. -/
lemma IsClean.spot_front (h : IsClean t base w) (htarget : LiesBelow base names target)
    (hfront : IsFront path target) {followLast : Bool} {steps : List Step}
    (hsteps : steps = (activePieces path).map stepOf ∨ steps = (activePieces path).map stepOf ++ [.here])
    {s : Spot} (hspot : t.spotOfSteps followLast path steps = .ok s) :
    (∃ place, s = .taken place) ∨ ∃ front, front ≠ [] ∧ front <+: names ∧ EndsAt t w front s := by
  obtain ⟨tail, htail, rfl⟩ : ∃ tail, (tail = [] ∨ tail = [.here]) ∧
      steps = (activePieces path).map stepOf ++ tail := by
    rcases hsteps with rfl | rfl
    · exact ⟨[], .inl rfl, (List.append_nil _).symm⟩
    · exact ⟨[.here], .inr rfl, rfl⟩
  have hstart : Path.isAbsolute path = Path.isAbsolute base := hfront.start.trans htarget.start
  have hshort : (activePieces path).map stepOf <+: (activePieces base).map stepOf →
      ∃ place, s = .taken place := by
    rintro ⟨back, hback⟩
    have hleads := h.leads.steps
    rw [← hback] at hleads
    obtain ⟨between, hway, _⟩ := hleads.split
    unfold spotOfSteps at hspot
    rw [hstart] at hspot
    rcases htail with rfl | rfl
    · rw [List.append_nil] at hspot
      cases s with
      | taken place => exact ⟨place, rfl⟩
      | free => exact (hway.not_free hspot).elim
    · obtain ⟨limit, hwalk⟩ := hway.walkLinks (by simp) hspot
      exact ⟨between, walkLinks_nil (walkLinks_here hwalk)⟩
  have hbegins := hfront.pieces.map stepOf
  rw [htarget.steps] at hbegins
  rcases List.prefix_or_prefix_of_prefix hbegins (List.prefix_append _ _) with hless | ⟨more, hmore⟩
  · exact .inl (hshort hless)
  · rw [← hmore, List.prefix_append_right_inj, List.prefix_iff_eq_take, ← List.map_take] at hbegins
    obtain ⟨front, hbelow, rfl⟩ : ∃ front, front <+: names ∧ more = front.map .into :=
      ⟨_, List.take_prefix _ _, hbegins⟩
    by_cases hnone : front = []
    · rw [hnone, List.map_nil, List.append_nil] at hmore
      exact .inl (hshort (hmore ▸ List.prefix_rfl))
    · rw [← hmore, List.append_assoc] at hspot
      exact .inr ⟨front, hnone, hbelow, h.endsAt hstart hnone htail hspot⟩

lemma IsClean.reaches (h : IsClean t base w) (hpath : LiesBelow base names path) (hne : names ≠ []) :
    Reaches t path w names := by
  refine ⟨fun {followLast steps s} hsteps hspot => ?_⟩
  rw [hpath.steps] at hsteps
  obtain ⟨tail, htail, rfl⟩ : ∃ tail, (tail = [] ∨ tail = [.here]) ∧
      steps = (activePieces base).map stepOf ++ (names.map .into ++ tail) := by
    rcases hsteps with rfl | rfl
    · exact ⟨[], .inl rfl, by simp⟩
    · exact ⟨[.here], .inr rfl, by simp⟩
  exact h.endsAt hpath.start hne htail hspot

lemma LeadsTo.unique {w' : Place} (h : LeadsTo t base w) (h' : LeadsTo t base w') : w = w' :=
  h.steps.unique h'.steps

lemma Reaches.spot (h : Reaches t path w names) {followLast : Bool} {s : Spot}
    (hspot : t.spot followLast path = .ok s) : EndsAt t w names s :=
  h.ends (stepsOf_eq path) (spot_iff_walk.mp hspot).2

lemma Reaches.place (h : Reaches t path w names) {place : Place} (hplace : t.place path = .ok place) :
    place = w ++ names := by
  cases h.spot (place_iff_spot.mp hplace) with
  | taken => rfl

end Paths

end CrossBuild.Proofs
