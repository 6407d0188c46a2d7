import CrossBuild.Proofs.TreeChanges

/-!
# Trees that are alike

Two trees can differ in what some files hold and in the dates of directories and still be alike in all else:
the same directories and links are in them, and files with the same permissions at the same places. No walk
tells them apart, so every change of a tree succeeds in both or fails in both with the same fault, and leaves
them alike.
-/

namespace CrossBuild.Proofs
open FileTree

/-- What counts of the file at a place. Its permissions always do. -/
structure FileView where
  see : Place → File → File
  mode : ∀ q f, (see q f).mode = f.mode

/-- Everything counts. -/
def FileView.whole : FileView := ⟨fun _ f => f, fun _ _ => rfl⟩

variable {v : FileView}

/-- Nodes at a place that are the same as far as it counts. -/
inductive SameNode (v : FileView) (q : Place) : Option FileNode → Option FileNode → Prop where
  | none : SameNode v q none none
  | directory (mode : Nat) : SameNode v q (some (.directory mode)) (some (.directory mode))
  | link (target : String) : SameNode v q (some (.link target)) (some (.link target))
  | file {f f' : File} (h : v.see q f = v.see q f') : SameNode v q (some (.file f)) (some (.file f'))

lemma sameNode_refl (q : Place) (node : Option FileNode) : SameNode v q node node := by
  cases node with
  | none => exact .none
  | some node =>
    cases node with
    | directory mode => exact .directory mode
    | file f => exact .file rfl
    | link target => exact .link target

/-- Two results that both succeed with related values or both fail with the same error. -/
inductive SameResult {ε α : Type} (R : α → α → Prop) : Except ε α → Except ε α → Prop where
  | ok {a a' : α} (h : R a a') : SameResult R (.ok a) (.ok a')
  | error (e : ε) : SameResult R (.error e) (.error e)

lemma SameResult.bind {ε α β : Type} {R : α → α → Prop} {Q : β → β → Prop} {x x' : Except ε α}
    {f f' : α → Except ε β} (hx : SameResult R x x') (hf : ∀ a a', R a a' → SameResult Q (f a) (f' a')) :
    SameResult Q (x >>= f) (x' >>= f') := by
  cases hx with
  | ok h => exact hf _ _ h
  | error e => exact .error e

lemma sameResult_bind {ε α β : Type} {Q : β → β → Prop} (x : Except ε α) {f f' : α → Except ε β}
    (hf : ∀ a, x = .ok a → SameResult Q (f a) (f' a)) : SameResult Q (x >>= f) (x >>= f') := by
  cases x with
  | ok a => exact hf a rfl
  | error e => exact .error e

structure Alike (v : FileView) (t t' : FileTree) : Prop where
  current : t.current = t'.current
  nodes : ∀ q, SameNode v q (t.get? q) (t'.get? q)

lemma alike_refl (t : FileTree) : Alike v t t := ⟨rfl, fun q => sameNode_refl q _⟩

lemma alike_dated (t : FileTree) (changes : SortedMap Place Instant) : Alike v (dated t changes) t :=
  ⟨rfl, fun q => sameNode_refl q _⟩

section Alike

variable {t t' : FileTree} {now : Instant} (h : Alike v t t')

include h

lemma Alike.checkDirectory (q : Place) (bit : Nat) : t.checkDirectory q bit = t'.checkDirectory q bit := by
  have hq := h.nodes q
  unfold FileTree.checkDirectory
  generalize t.get? q = node, t'.get? q = node' at hq ⊢
  cases hq with
  | none | directory | link | file => rfl

/-! ### Walks -/

lemma Alike.walk (followLast : Bool) (onLink : Place → List Step → Except FileFault Spot) (place : Place)
    (steps : List Step) : walk t followLast onLink place steps = walk t' followLast onLink place steps := by
  induction steps generalizing place with
  | nil => rfl
  | cons step rest ih =>
    simp only [FileTree.walk, h.checkDirectory, ih]
    cases step with
    | here | up => rfl
    | into name =>
      have hnext := h.nodes (place ++ [name])
      dsimp only
      generalize t.get? (place ++ [name]) = node, t'.get? (place ++ [name]) = node' at hnext ⊢
      cases hnext with
      | none | directory | link | file => rfl

lemma Alike.walkLinks (followLast : Bool) (limit : Nat) :
    walkLinks t followLast limit = walkLinks t' followLast limit := by
  induction limit with
  | zero => rfl
  | succ limit ih =>
    funext place steps
    rw [FileTree.walkLinks, FileTree.walkLinks, ih]
    exact h.walk followLast _ place steps

lemma Alike.spotOfSteps (followLast : Bool) (path : String) (steps : List Step) :
    t.spotOfSteps followLast path steps = t'.spotOfSteps followLast path steps := by
  rw [FileTree.spotOfSteps, FileTree.spotOfSteps, h.walkLinks, h.current]

lemma Alike.spot (followLast : Bool) (path : String) : t.spot followLast path = t'.spot followLast path := by
  rw [FileTree.spot, FileTree.spot, h.spotOfSteps]

lemma Alike.place (path : String) : t.place path = t'.place path := by
  rw [FileTree.place, FileTree.place, h.spot]

/-! ### What paths lead to -/

/-- The node at a path, or the same reason why there is none. -/
lemma Alike.node (path : String) :
    SameResult (fun n n' => ∃ q, t.place path = .ok q ∧ SameNode v q (some n) (some n')) (t.node path)
      (t'.node path) := by
  rw [FileTree.node, FileTree.node, ← h.place]
  refine sameResult_bind _ fun q hq => ?_
  have hnode := h.nodes q
  generalize t.get? q = node, t'.get? q = node' at hnode ⊢
  cases hnode with
  | none => exact .error _
  | directory mode => exact .ok ⟨q, hq, .directory mode⟩
  | link target => exact .ok ⟨q, hq, .link target⟩
  | file hfile => exact .ok ⟨q, hq, .file hfile⟩

lemma Alike.isDirectory (path : String) : t.isDirectory path = t'.isDirectory path := by
  unfold FileTree.isDirectory
  have hnode := h.node path
  generalize t.node path = r, t'.node path = r' at hnode ⊢
  cases hnode with
  | error fault => rfl
  | ok hsame =>
    obtain ⟨q, _, hsame⟩ := hsame
    cases hsame with
    | directory | link | file => rfl

lemma Alike.canList (path : String) : t.canList path = t'.canList path := by
  unfold FileTree.canList
  have hnode := h.node path
  generalize t.node path = r, t'.node path = r' at hnode ⊢
  cases hnode with
  | error fault => rfl
  | ok hsame =>
    obtain ⟨q, _, hsame⟩ := hsame
    cases hsame with
    | directory | link | file => rfl

lemma Alike.file (path : String) :
    SameResult (fun f f' => ∃ q, t.place path = .ok q ∧ v.see q f = v.see q f') (t.file path) (t'.file path) := by
  rw [FileTree.file, FileTree.file]
  refine (h.node path).bind fun n n' hsame => ?_
  obtain ⟨q, hq, hsame⟩ := hsame
  cases hsame with
  | directory | link => exact .error _
  | file hfile => exact .ok ⟨q, hq, hfile⟩

/-- A file is read alike if its data counts. -/
lemma Alike.read {path : String} (hdata : ∀ q f f', t.place path = .ok q → t.file path = .ok f →
      t'.file path = .ok f' → v.see q f = v.see q f' → f.data = f'.data) : t.read path = t'.read path := by
  have hfile := h.file path
  rw [FileTree.read, FileTree.read]
  generalize hf : t.file path = r, hf' : t'.file path = r' at hfile
  cases hfile with
  | error fault => rfl
  | @ok f f' hsame =>
    obtain ⟨q, hq, hsame⟩ := hsame
    have hmode : f.mode = f'.mode := by rw [← v.mode q f, hsame, v.mode]
    change (if allows f.mode readBit then (.ok f.data : Except FileFault ByteArray) else .error .denied) =
      if allows f'.mode readBit then .ok f'.data else .error .denied
    rw [hdata q f f' hq hf hf' hsame, hmode]

/-! ### Changes -/

lemma Alike.set (q : Place) {node node' : FileNode} (hsame : SameNode v q (some node) (some node')) :
    Alike v (t.set q node) (t'.set q node') := by
  refine ⟨h.current, fun place => ?_⟩
  rw [get?_set, get?_set]
  by_cases hplace : place = q ∧ place ≠ []
  · rw [if_pos hplace, if_pos hplace, hplace.1]
    exact hsame
  · rw [if_neg hplace, if_neg hplace]
    exact h.nodes place

lemma Alike.erase (q : Place) : Alike v (t.erase q) (t'.erase q) := by
  refine ⟨h.current, fun place => ?_⟩
  rw [get?_erase_place, get?_erase_place]
  by_cases hplace : place = q ∧ place ≠ []
  · rw [if_pos hplace, if_pos hplace]
    exact .none
  · rw [if_neg hplace, if_neg hplace]
    exact h.nodes place

lemma Alike.changed (q : Place) : Alike v (t.changed q now) (t'.changed q now) := ⟨h.current, h.nodes⟩

lemma Alike.add (parent : Place) (name : String) (node : FileNode) :
    SameResult (Alike v) (t.add parent name node now) (t'.add parent name node now) := by
  rw [FileTree.add, FileTree.add, ← h.checkDirectory]
  exact sameResult_bind _ fun _ _ => .ok ((h.set _ (sameNode_refl _ _)).changed parent)

lemma Alike.checkReplaceable (q : Place) : t.checkReplaceable q = t'.checkReplaceable q := by
  have hnode := h.nodes q
  unfold FileTree.checkReplaceable
  rw [h.checkDirectory]
  generalize t.get? q = node, t'.get? q = node' at hnode ⊢
  cases hnode with
  | none | directory | link | file => rfl

lemma Alike.replace (path : String) (f : File) :
    SameResult (Alike v) (t.replace path f now) (t'.replace path f now) := by
  rw [FileTree.replace, FileTree.replace, ← h.spot]
  refine sameResult_bind _ fun s _ => ?_
  cases s with
  | free parent name => exact h.add parent name _
  | taken q =>
    dsimp only
    rw [← h.checkReplaceable]
    exact sameResult_bind _ fun _ _ => .ok ((h.set q (.file rfl)).changed _)

lemma Alike.remove (path : String) : SameResult (Alike v) (t.remove path now) (t'.remove path now) := by
  rw [FileTree.remove, FileTree.remove, ← h.spot]
  refine sameResult_bind _ fun s _ => ?_
  cases s with
  | free parent name => exact .error _
  | taken q =>
    dsimp only
    rw [← h.checkReplaceable]
    exact sameResult_bind _ fun _ _ => .ok ((h.erase q).changed _)

/-- A file that is there keeps its permissions, and these count. -/
lemma Alike.write (path : String) (data : ByteArray) (now : Instant) :
    SameResult (Alike v) (t.write path data now) (t'.write path data now) := by
  rw [FileTree.write, FileTree.write, FileTree.update, FileTree.update, ← h.spot]
  refine sameResult_bind _ fun s _ => ?_
  cases s with
  | free parent name => exact h.add parent name _
  | taken q =>
    have hnode := h.nodes q
    dsimp only
    generalize t.get? q = node, t'.get? q = node' at hnode ⊢
    cases hnode with
    | none | directory | link => exact .error _
    | @file f f' hfile =>
      have hmode : f.mode = f'.mode := by rw [← v.mode q f, hfile, v.mode]
      dsimp only
      rw [hmode]
      split
      · exact .ok (h.set q (by simp only [Option.map_some, Option.getD_some, hmode]; exact .file rfl))
      · exact .error _

lemma Alike.setDirectoryMode (path : String) (mode : Nat) :
    SameResult (Alike v) (t.setDirectoryMode path mode) (t'.setDirectoryMode path mode) := by
  rw [FileTree.setDirectoryMode, FileTree.setDirectoryMode, ← h.place]
  exact sameResult_bind _ fun q _ => .ok (h.set q (.directory mode))

/-! ### Directories -/

lemma Alike.makeDirectory (path : String) (now : Instant) :
    SameResult (Alike v) (t.makeDirectory path now) (t'.makeDirectory path now) := by
  rw [FileTree.makeDirectory, FileTree.makeDirectory, ← h.spotOfSteps]
  refine sameResult_bind _ fun s _ => ?_
  cases s with
  | free parent name => exact (h.add parent name _).bind fun _ _ hadded => .ok (hadded.changed _)
  | taken q => exact .error _

lemma Alike.ensureDirectory (path : String) (now : Instant) :
    SameResult (Alike v) (t.ensureDirectory path now) (t'.ensureDirectory path now) := by
  have hmake := h.makeDirectory path now
  rw [FileTree.ensureDirectory, FileTree.ensureDirectory, ← h.isDirectory]
  generalize t.makeDirectory path now = r, t'.makeDirectory path now = r' at hmake ⊢
  cases hmake with
  | ok hmade => exact .ok hmade
  | error fault =>
    dsimp only
    split
    · exact .ok h
    · exact .error _

end Alike

/-- No path leads to another file for the dates of directories. -/
lemma file_dated (t : FileTree) (changes : SortedMap Place Instant) (path : String) :
    (dated t changes).file path = t.file path := by
  have hfile := (alike_dated (v := .whole) t changes).file path
  generalize (dated t changes).file path = r, t.file path = r' at hfile ⊢
  cases hfile with
  | ok hsame =>
    obtain ⟨_, _, hsame⟩ := hsame
    exact congrArg Except.ok hsame
  | error fault => rfl

section Directories

variable {t t' : FileTree} {now : Instant}

lemma Alike.ensureEach (h : Alike v t t') (paths : List String) :
    (t.ensureEach now paths).2 = (t'.ensureEach now paths).2 ∧
      Alike v (t.ensureEach now paths).1 (t'.ensureEach now paths).1 := by
  induction paths generalizing t t' with
  | nil => exact ⟨rfl, h⟩
  | cons path rest ih =>
    have hensure := h.ensureDirectory path now
    rw [FileTree.ensureEach, FileTree.ensureEach]
    generalize t.ensureDirectory path now = r, t'.ensureDirectory path now = r' at hensure ⊢
    cases hensure with
    | ok hmade => exact ih hmade
    | error fault => exact ⟨rfl, h⟩

lemma Alike.makeDirectories (h : Alike v t t') (path : String) (now : Instant) :
    (t.makeDirectories path now).2 = (t'.makeDirectories path now).2 ∧
      Alike v (t.makeDirectories path now).1 (t'.makeDirectories path now).1 := by
  unfold FileTree.makeDirectories
  split
  · exact ⟨rfl, h⟩
  · split
    · exact ⟨rfl, h⟩
    · exact h.ensureEach _

end Directories

/-! ### What is below a place -/

/-- A node without what does not count. -/
def viewNode (v : FileView) (q : Place) : FileNode → FileNode
  | .file f => .file (v.see q f)
  | other => other

lemma SameNode.view {q : Place} {node node' : Option FileNode} (h : SameNode v q node node') :
    node.map (viewNode v q) = node'.map (viewNode v q) := by
  cases h with
  | none | directory | link => rfl
  | file hfile => exact congrArg (some ∘ FileNode.file) hfile

/-- The same places are below a place, in the same order, with the same as far as it counts. -/
lemma Alike.below {t t' : FileTree} (h : Alike v t t') (place : Place) :
    (t.below place).map (fun e => (e.1, viewNode v (place ++ e.1) e.2)) =
      (t'.below place).map (fun e => (e.1, viewNode v (place ++ e.1) e.2)) := by
  have hsorted : ∀ s : FileTree, ((s.below place).map fun e => (e.1, viewNode v (place ++ e.1) e.2)).Pairwise
      fun a b => compare (place ++ a.1) (place ++ b.1) = .lt := fun s =>
    List.pairwise_map.mpr (pairwise_below (r := fun p q => compare p q = .lt) place s.nodes.increasing)
  have hmem : ∀ (s : FileTree) (e : Place × FileNode),
      e ∈ (s.below place).map (fun e => (e.1, viewNode v (place ++ e.1) e.2)) ↔
        e.1 ≠ [] ∧ (s.get? (place ++ e.1)).map (viewNode v (place ++ e.1)) = some e.2 := by
    rintro s ⟨names, shown⟩
    rw [List.mem_map]
    constructor
    · rintro ⟨⟨_, node⟩, hbelow, heq⟩
      cases heq
      obtain ⟨hne, hget⟩ := mem_below.mp hbelow
      exact ⟨hne, by rw [hget]; rfl⟩
    · rintro ⟨hne, hget⟩
      obtain ⟨node, hnode, hshown⟩ := Option.map_eq_some_iff.mp hget
      exact ⟨(names, node), mem_below.mpr ⟨hne, hnode⟩, Prod.ext rfl hshown⟩
  refine eq_of_increasing (hsorted t) (hsorted t') fun e => ?_
  rw [hmem, hmem, (h.nodes _).view]

/-- What is made of the nodes below a place is the same if it only needs what counts of them. -/
lemma Alike.filterMap_below {α : Type} {t t' : FileTree} (h : Alike v t t') (place : Place)
    {f : Place × FileNode → Option α} (hf : ∀ names node, f (names, viewNode v (place ++ names) node) = f (names, node)) :
    (t.below place).filterMap f = (t'.below place).filterMap f := by
  have hmap : ∀ s : FileTree, ((s.below place).map fun e => (e.1, viewNode v (place ++ e.1) e.2)).filterMap f =
      (s.below place).filterMap f := by
    intro s
    rw [List.filterMap_map]
    exact List.filterMap_congr fun e _ => hf e.1 e.2
  rw [← hmap t, ← hmap t', h.below]

lemma Alike.children_isEmpty {t t' : FileTree} (h : Alike v t t') (place : Place) :
    (t.children place).isEmpty = (t'.children place).isEmpty := by
  have hnames : ∀ s : FileTree, (s.children place).isEmpty =
      ((s.below place).filterMap fun e => if e.1.length = 1 then some e.1 else none).isEmpty := by
    intro s
    rw [FileTree.children, Bool.eq_iff_iff, List.isEmpty_iff, List.isEmpty_iff, List.filterMap_eq_nil_iff,
      List.filterMap_eq_nil_iff]
    refine forall₂_congr fun e _ => ?_
    obtain ⟨_ | ⟨name, _ | ⟨next, more⟩⟩, node⟩ := e <;> simp
  rw [hnames, hnames, h.filterMap_below place fun _ _ => rfl]

section Pruning

variable {t t' : FileTree} {now : Instant}

lemma Alike.removeIfEmpty (h : Alike v t t') (place : Place) (now : Instant) :
    SameResult (Alike v) (Handoff.removeIfEmpty t place now) (Handoff.removeIfEmpty t' place now) := by
  rw [removeIfEmpty_eq, removeIfEmpty_eq, ← h.children_isEmpty, ← h.checkDirectory]
  split
  · cases t.checkDirectory place.dropLast writeBit with
    | ok u => exact .ok ((h.erase place).changed _)
    | error fault => exact .error fault
  · exact .ok h

lemma Alike.prune (h : Alike v t t') (canList : Place → Bool) (now : Instant) (directories : List Place) :
    (Handoff.prune canList now t directories).2 = (Handoff.prune canList now t' directories).2 ∧
      Alike v (Handoff.prune canList now t directories).1 (Handoff.prune canList now t' directories).1 := by
  induction t, directories using Handoff.prune.induct canList now generalizing t' with
  | case1 t =>
    rw [Handoff.prune, Handoff.prune]
    exact ⟨rfl, h⟩
  | case2 t d rest hlist between error hbelow ih =>
    have hsame := ih h
    rw [hbelow] at hsame
    rw [Handoff.prune, Handoff.prune, if_pos hlist, if_pos hlist, hbelow]
    generalize Handoff.prune canList now t' (Handoff.placesBelow d rest) = r' at hsame ⊢
    obtain ⟨between', error'?⟩ := r'
    obtain rfl : some error = error'? := hsame.1
    exact ⟨rfl, hsame.2⟩
  | case3 t d rest hlist between hbelow next hnext ihBelow ihBeside =>
    have hsame := ihBelow h
    rw [hbelow] at hsame
    rw [Handoff.prune, Handoff.prune, if_pos hlist, if_pos hlist, hbelow]
    generalize Handoff.prune canList now t' (Handoff.placesBelow d rest) = r' at hsame ⊢
    obtain ⟨between', error'?⟩ := r'
    obtain rfl : none = error'? := hsame.1
    have hremove := hsame.2.removeIfEmpty d now
    dsimp only at hremove ⊢
    rw [hnext] at hremove ⊢
    generalize Handoff.removeIfEmpty between' d now = s' at hremove ⊢
    cases hremove with
    | ok hdone => exact ihBeside hdone
  | case4 t d rest hlist between hbelow fault hfault ih =>
    have hsame := ih h
    rw [hbelow] at hsame
    rw [Handoff.prune, Handoff.prune, if_pos hlist, if_pos hlist, hbelow]
    generalize Handoff.prune canList now t' (Handoff.placesBelow d rest) = r' at hsame ⊢
    obtain ⟨between', error'?⟩ := r'
    obtain rfl : none = error'? := hsame.1
    have hremove := hsame.2.removeIfEmpty d now
    dsimp only at hremove ⊢
    rw [hfault] at hremove ⊢
    generalize Handoff.removeIfEmpty between' d now = s' at hremove ⊢
    cases hremove with
    | error => exact ⟨rfl, hsame.2⟩
  | case5 t d rest hlist =>
    rw [Handoff.prune, Handoff.prune, if_neg hlist, if_neg hlist]
    exact ⟨rfl, h⟩

end Pruning

lemma Alike.directoriesBelow {t t' : FileTree} (h : Alike v t t') (place : Place) :
    Handoff.directoriesBelow t place = Handoff.directoriesBelow t' place := by
  refine h.filterMap_below place ?_
  rintro names (mode | f | target) <;> rfl

end CrossBuild.Proofs
