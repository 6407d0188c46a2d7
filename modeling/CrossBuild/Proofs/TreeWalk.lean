import CrossBuild.FileTree.Resolve
import CrossBuild.Proofs.Sequencing
import CrossBuild.Proofs.TextPieces
import Mathlib.Data.List.Infix
import Mathlib.Tactic.Lemma

/-!
# Where paths lead

The text of a path is taken apart into the steps that count, and plain paths are those whose steps are
names. A walk along names from a place below which no link stands ends where the names say.
-/

namespace CrossBuild.Proofs
open FileTree

/-! ### Names of entries -/

/-- A name that an entry of a directory can have. -/
structure IsFileName (name : String) : Prop where
  nonempty : name ≠ ""
  slashless : '/' ∉ name.toList
  notHere : name ≠ "."
  notUp : name ≠ ".."

instance (name : String) : Decidable (IsFileName name) :=
  decidable_of_iff (name ≠ "" ∧ '/' ∉ name.toList ∧ name ≠ "." ∧ name ≠ "..")
    ⟨fun h => ⟨h.1, h.2.1, h.2.2.1, h.2.2.2⟩, fun h => ⟨h.nonempty, h.slashless, h.notHere, h.notUp⟩⟩

lemma IsFileName.append {name ending : String} (h : IsFileName name) (hending : '/' ∉ ending.toList) :
    IsFileName (name ++ ending) := by
  obtain ⟨c, cs, hname⟩ := List.exists_cons_of_ne_nil (show name.toList ≠ [] by simpa using h.nonempty)
  refine ⟨by simp [h.nonempty], by simp [h.slashless, hending], fun hhere => h.notHere ?_, fun hup => ?_⟩
  · have hchars := congrArg String.toList hhere
    rw [String.toList_append, hname, show ("." : String).toList = ['.'] from rfl, List.cons_append] at hchars
    simp only [List.cons.injEq, List.append_eq_nil_iff] at hchars
    obtain ⟨rfl, rfl, _⟩ := hchars
    exact String.toList_inj.mp hname
  · have hchars := congrArg String.toList hup
    rw [String.toList_append, hname, show (".." : String).toList = ['.', '.'] from rfl, List.cons_append] at hchars
    obtain ⟨rfl, hrest⟩ := List.cons.inj hchars
    cases cs with
    | nil => exact h.notHere (String.toList_inj.mp hname)
    | cons d cs =>
      rw [List.cons_append] at hrest
      simp only [List.cons.injEq, List.append_eq_nil_iff] at hrest
      obtain ⟨rfl, rfl, _⟩ := hrest
      exact h.notUp (String.toList_inj.mp hname)

/-! ### Pieces of paths -/

/-- The pieces of a path that say where it leads. -/
def activePieces (path : String) : List (List Char) :=
  (Text.pieces (· == '/') path.toList).filter (fun piece => !Path.isIdle piece)

/-- The names that a path leads through. -/
def namesOf (path : String) : Place := (activePieces path).map String.ofList

lemma stepsOf_eq (path : String) :
    stepsOf path = (activePieces path).map stepOf ∨
      stepsOf path = (activePieces path).map stepOf ++ [.here] := by
  unfold stepsOf activePieces
  dsimp only
  split
  · exact .inr rfl
  · exact .inl rfl

lemma stepOf_eq_into {piece : List Char} (h : piece ≠ ['.', '.']) :
    stepOf piece = .into (String.ofList piece) := by
  simp [stepOf, h]

/-- A path with a first piece that is idle starts with a slash, or with a dot that is all of it or has a
slash after it. -/
lemma first_isIdle {cs first : List Char} {others : List (List Char)} (hcs : cs ≠ [])
    (h : Text.pieces (· == '/') cs = first :: others) (hidle : Path.isIdle first = true) :
    (∃ rest, cs = '/' :: rest) ∨ cs = ['.'] ∨ ∃ rest, cs = '.' :: '/' :: rest := by
  obtain ⟨c, cs, rfl⟩ := List.exists_cons_of_ne_nil hcs
  by_cases hc : c = '/'
  · exact .inl ⟨cs, by rw [hc]⟩
  · obtain ⟨next, more, heq⟩ := List.exists_cons_of_ne_nil (pieces_ne_nil (· == '/') cs)
    simp only [Text.pieces, beq_iff_eq, hc, if_false, heq, List.cons.injEq] at h
    obtain ⟨rfl, rfl⟩ := h
    simp only [Path.isIdle, Bool.or_eq_true, beq_iff_eq, reduceCtorEq, List.cons.injEq, false_or]
      at hidle
    obtain ⟨rfl, rfl⟩ := hidle
    cases cs with
    | nil => exact .inr (.inl rfl)
    | cons d cs =>
      by_cases hd : d = '/'
      · exact .inr (.inr ⟨cs, by rw [hd]⟩)
      · obtain ⟨front, _, hfront⟩ := List.exists_cons_of_ne_nil (pieces_ne_nil (· == '/') cs)
        simp [Text.pieces, hd, hfront] at heq

/-- A plain path starts at no root and leads through names alone, at least one if there is any text. -/
lemma isPlain_names {path : String} (h : Path.isPlain path = true) :
    Path.isAbsolute path = false ∧ (activePieces path).map stepOf = (namesOf path).map .into ∧
      (path ≠ "" → namesOf path ≠ []) := by
  unfold Path.isPlain Path.components Path.cut at h
  split at h
  all_goals dsimp only at h
  · simp [Path.leadComponents] at h
  · simp [Path.leadComponents] at h
  · simp [Path.leadComponents] at h
  · rename_i hroot hdot hhere
    simp only [Path.leadComponents, List.nil_append, List.all_map, List.all_eq_true] at h
    refine ⟨?_, ?_, ?_⟩
    · unfold Path.isAbsolute
      cases hcs : path.toList with
      | nil => rfl
      | cons c cs =>
        have hc : c ≠ '/' := by
          rintro rfl
          exact hroot cs hcs
        simpa using hc
    · unfold namesOf
      rw [List.map_map]
      apply List.map_congr_left
      intro piece hpiece
      apply stepOf_eq_into
      rintro rfl
      have hup := h _ hpiece
      simp [Path.ofPiece] at hup
    · intro hne hnone
      have hcs : path.toList ≠ [] := by
        intro hnil
        exact hne (String.toList_inj.mp (by simpa using hnil))
      obtain ⟨first, others, heq⟩ := List.exists_cons_of_ne_nil (pieces_ne_nil (· == '/') path.toList)
      have hidle : Path.isIdle first = true := by
        unfold namesOf activePieces at hnone
        have hall := List.filter_eq_nil_iff.mp (List.map_eq_nil_iff.mp hnone) first (by simp [heq])
        simpa using hall
      rcases first_isIdle hcs heq hidle with ⟨rest, hrest⟩ | hrest | ⟨rest, hrest⟩
      · exact hroot rest hrest
      · exact hdot hrest
      · exact hhere rest hrest

/-! ### Joined paths -/

lemma activePieces_join (base : String) {path : String} (h : Path.isAbsolute path = false) :
    activePieces (Path.join base path) = activePieces base ++ activePieces path := by
  unfold Path.join activePieces
  rw [h, if_neg Bool.false_ne_true]
  split
  · have hchars : (base ++ "/" ++ path).toList = base.toList ++ '/' :: path.toList := by simp
    rw [hchars, pieces_append (· == '/') rfl, List.filter_append]
  · rename_i hend
    rw [String.toList_append]
    cases hlast : base.toList.getLast? with
    | none =>
      rw [List.getLast?_eq_none_iff.mp hlast]
      simp [Text.pieces, Path.isIdle]
    | some c =>
      obtain ⟨front, hfront⟩ := List.getLast?_eq_some_iff.mp hlast
      have hc : c = '/' := by simpa [hlast] using hend
      have hshape : front ++ ['/'] ++ path.toList = front ++ '/' :: path.toList := by simp
      rw [hfront, hc, hshape, pieces_append (· == '/') rfl, pieces_append (· == '/') rfl]
      simp [Text.pieces, Path.isIdle]

lemma isAbsolute_join (base : String) {path : String} (h : Path.isAbsolute path = false) :
    Path.isAbsolute (Path.join base path) = Path.isAbsolute base := by
  have hjoined : Path.join base path = base ++ "/" ++ path ∧ base ≠ "" ∨
      Path.join base path = base ++ path := by
    unfold Path.join
    rw [h, if_neg Bool.false_ne_true]
    split
    · rename_i hend
      refine .inl ⟨rfl, ?_⟩
      rintro rfl
      simp at hend
    · exact .inr rfl
  unfold Path.isAbsolute at h ⊢
  cases hbase : base.toList with
  | nil =>
    rcases hjoined with ⟨_, hne⟩ | heq
    · exact (hne (String.toList_inj.mp (by simpa using hbase))).elim
    · rw [heq, String.toList_append, hbase]
      simpa using h
  | cons c cs =>
    rcases hjoined with ⟨heq, _⟩ | heq
    · simp [heq, hbase]
    · simp [heq, hbase]

/-! ### One step of a walk -/

/-- How a walk that ends takes a step from a directory and goes on. It ends there at a name that is free, or at a
link that is not to be followed. -/
inductive WalksOn (t : FileTree) (followLast : Bool) (onLink : Place → List Step → Except FileFault Spot)
    (place : Place) : Step → List Step → Spot → Prop where
  | here {rest : List Step} {s : Spot} (hwalk : walk t followLast onLink place rest = .ok s) :
      WalksOn t followLast onLink place .here rest s
  | up {rest : List Step} {s : Spot} (hwalk : walk t followLast onLink place.dropLast rest = .ok s) :
      WalksOn t followLast onLink place .up rest s
  | free {name : String} (hsize : name.utf8ByteSize ≤ longestName) (hnone : t.get? (place ++ [name]) = none) :
      WalksOn t followLast onLink place (.into name) [] (.free place name)
  | last {name target : String} (hsize : name.utf8ByteSize ≤ longestName)
      (hnode : t.get? (place ++ [name]) = some (.link target)) (hlast : followLast = false) :
      WalksOn t followLast onLink place (.into name) [] (.taken (place ++ [name]))
  | link {name target : String} {rest : List Step} {s : Spot} (hsize : name.utf8ByteSize ≤ longestName)
      (hnode : t.get? (place ++ [name]) = some (.link target)) (hmore : rest ≠ [] ∨ followLast = true)
      (hwalk : onLink (if Path.isAbsolute target then [] else place) (stepsOf target ++ rest) = .ok s) :
      WalksOn t followLast onLink place (.into name) rest s
  | into {name : String} {node : FileNode} {rest : List Step} {s : Spot} (hsize : name.utf8ByteSize ≤ longestName)
      (hnode : t.get? (place ++ [name]) = some node) (hlink : ∀ target, node ≠ .link target)
      (hwalk : walk t followLast onLink (place ++ [name]) rest = .ok s) :
      WalksOn t followLast onLink place (.into name) rest s

section Step

variable {t : FileTree} {followLast : Bool} {onLink : Place → List Step → Except FileFault Spot} {place : Place}
  {step : Step} {rest : List Step} {s : Spot}

lemma walksOn_of_walk (h : walk t followLast onLink place (step :: rest) = .ok s) :
    t.checkDirectory place searchBit = .ok () ∧ WalksOn t followLast onLink place step rest s := by
  rw [walk.eq_def] at h
  dsimp only at h
  split at h
  · cases h
  · rename_i hcheck
    refine ⟨hcheck, ?_⟩
    cases step with
    | here => exact .here h
    | up => exact .up h
    | into name =>
      dsimp only at h
      split at h
      · cases h
      · rename_i hlong
        have hsize := Nat.not_lt.mp hlong
        split at h
        · rename_i hnone
          split at h
          · rename_i hempty
            obtain rfl := List.isEmpty_iff.mp hempty
            cases h
            exact .free hsize hnone
          · cases h
        · rename_i target hnode
          split at h
          · rename_i hend
            simp only [Bool.and_eq_true, List.isEmpty_iff, Bool.not_eq_true'] at hend
            obtain ⟨rfl, hlast⟩ := hend
            cases h
            exact .last hsize hnode hlast
          · rename_i hon
            rw [Bool.and_eq_true, List.isEmpty_iff, Bool.not_eq_true', not_and_or, Bool.not_eq_false] at hon
            exact .link hsize hnode hon h
        · rename_i node hlink hnode
          exact .into hsize hnode hlink h

lemma walksOn_of_walkLinks {limit : Nat} (h : walkLinks t followLast limit place (step :: rest) = .ok s) :
    ∃ links, limit = links + 1 ∧ t.checkDirectory place searchBit = .ok () ∧
      WalksOn t followLast (walkLinks t followLast links) place step rest s := by
  cases limit with
  | zero => cases h
  | succ links => exact ⟨links, rfl, walksOn_of_walk h⟩

lemma WalksOn.walk (h : WalksOn t followLast onLink place step rest s)
    (hcheck : t.checkDirectory place searchBit = .ok ()) :
    FileTree.walk t followLast onLink place (step :: rest) = .ok s := by
  rw [walk.eq_def]
  dsimp only
  rw [hcheck]
  cases h with
  | here hwalk | up hwalk => exact hwalk
  | free hsize hnone => simp [Nat.not_lt.mpr hsize, hnone]
  | last hsize hnode hlast => simp [Nat.not_lt.mpr hsize, hnode, hlast]
  | link hsize hnode hmore hwalk =>
    have hon : (rest.isEmpty && !followLast) = false := by
      rcases hmore with hmore | hmore
      · simp [hmore]
      · simp [hmore]
    simp only [if_neg (Nat.not_lt.mpr hsize), hnode, hon, Bool.false_eq_true, if_false, hwalk]
  | @into _ node _ _ hsize hnode hlink hwalk =>
    simp only [if_neg (Nat.not_lt.mpr hsize), hnode]
    cases node with
    | link target => exact (hlink target rfl).elim
    | directory | file => exact hwalk

end Step

/-! ### What a path leads to -/

section Lookups

variable {t : FileTree} {path : String}

lemma checkPath_iff : checkPath path = .ok () ↔
    '\x00' ∉ path.toList ∧ path.utf8ByteSize ≤ longestPath ∧ path ≠ "" := by
  unfold checkPath
  split
  · rename_i hzero
    exact iff_of_false nofun fun h => h.1 (List.contains_iff_mem.mp hzero)
  · rename_i hzero
    rw [List.contains_iff_mem] at hzero
    split
    · rename_i hlong
      exact iff_of_false nofun fun h => absurd h.2.1 (Nat.not_le.mpr hlong)
    · rename_i hlong
      split
      · rename_i hempty
        exact iff_of_false nofun fun h => h.2.2 (String.isEmpty_iff.mp hempty)
      · rename_i hempty
        exact iff_of_true rfl ⟨hzero, Nat.not_lt.mp hlong, fun hnil => hempty (String.isEmpty_iff.mpr hnil)⟩

lemma spot_iff_walk {followLast : Bool} {s : Spot} : t.spot followLast path = .ok s ↔
    checkPath path = .ok () ∧ t.spotOfSteps followLast path (stepsOf path) = .ok s := by
  simp only [FileTree.spot, bind_eq_ok]
  exact ⟨fun ⟨_, hcheck, hspot⟩ => ⟨hcheck, hspot⟩, fun ⟨hcheck, hspot⟩ => ⟨(), hcheck, hspot⟩⟩

lemma place_iff_spot {q : Place} : t.place path = .ok q ↔ t.spot true path = .ok (.taken q) := by
  simp only [FileTree.place, bind_eq_ok]
  constructor
  · rintro ⟨s, hspot, hplace⟩
    cases s with
    | free => cases hplace
    | taken place =>
      cases hplace
      exact hspot
  · exact fun hspot => ⟨_, hspot, rfl⟩

lemma node_iff_place {node : FileNode} : t.node path = .ok node ↔ ∃ q, t.place path = .ok q ∧ t.get? q = some node := by
  simp only [FileTree.node, bind_eq_ok]
  refine exists_congr fun q => and_congr_right fun _ => ?_
  cases t.get? q with
  | none => exact iff_of_false nofun nofun
  | some found => exact ⟨fun h => congrArg some (Except.ok.inj h), fun h => congrArg Except.ok (Option.some.inj h)⟩

lemma file_iff_node {f : File} : t.file path = .ok f ↔ t.node path = .ok (.file f) := by
  simp only [FileTree.file, bind_eq_ok]
  constructor
  · rintro ⟨node, hnode, hfile⟩
    cases node with
    | directory | link => cases hfile
    | file found =>
      cases hfile
      exact hnode
  · exact fun hnode => ⟨_, hnode, rfl⟩

lemma read_iff_file {data : ByteArray} : t.read path = .ok data ↔
    ∃ f, t.file path = .ok f ∧ allows f.mode readBit = true ∧ f.data = data := by
  simp only [FileTree.read, bind_eq_ok]
  refine exists_congr fun f => and_congr_right fun _ => ?_
  split
  · rename_i hallowed
    exact ⟨fun h => ⟨hallowed, Except.ok.inj h⟩, fun h => congrArg Except.ok h.2⟩
  · rename_i hdenied
    exact iff_of_false nofun fun h => hdenied h.1

lemma isDirectory_iff : t.isDirectory path = true ↔ ∃ mode, t.node path = .ok (.directory mode) := by
  unfold isDirectory
  cases t.node path with
  | error fault => exact iff_of_false nofun nofun
  | ok node =>
    cases node with
    | directory mode => exact iff_of_true rfl ⟨mode, rfl⟩
    | file | link => exact iff_of_false nofun nofun

end Lookups

/-! ### Walking below a directory -/

/-- No link stands below the place. -/
def LinkFree (t : FileTree) (w : Place) : Prop := ∀ names target, t.get? (w ++ names) ≠ some (.link target)

lemma LinkFree.below {t : FileTree} {w : Place} (h : LinkFree t w) (names : Place) :
    LinkFree t (w ++ names) := by
  intro more target
  rw [List.append_assoc]
  exact h _ target

/-- What a walk along names ends at: what has the last name, or the directory that does not have it. -/
inductive EndsAt (t : FileTree) (w names : Place) : Spot → Prop where
  | taken (node : FileNode) (h : t.get? (w ++ names) = some node) : EndsAt t w names (.taken (w ++ names))
  | free {front : Place} {name : String} (hnames : names = front ++ [name])
      (h : t.get? (w ++ names) = none) : EndsAt t w names (.free (w ++ front) name)

lemma walk_names {t : FileTree} {followLast : Bool}
    {onLink : Place → List Step → Except FileFault Spot} {w names : Place} (hfree : LinkFree t w)
    (hne : names ≠ []) {tail : List Step} (htail : tail = [] ∨ tail = [.here]) {s : Spot}
    (h : walk t followLast onLink w (names.map .into ++ tail) = .ok s) : EndsAt t w names s := by
  -- only a link could lead off the names, and there is none at the place that each name adds
  induction names generalizing w with
  | nil => exact (hne rfl).elim
  | cons name rest ih =>
    rw [List.map_cons, List.cons_append] at h
    obtain ⟨_, hstep⟩ := walksOn_of_walk h
    generalize hmore : rest.map Step.into ++ tail = more at hstep
    cases hstep with
    | free _ hnone =>
      obtain rfl := List.map_eq_nil_iff.mp (List.append_eq_nil_iff.mp hmore).1
      have hends : EndsAt t w [name] (.free (w ++ []) name) := .free rfl hnone
      simpa using hends
    | last _ hlink | link _ hlink => exact (hfree [name] _ hlink).elim
    | @into _ node _ _ _ hnode _ hwalk =>
      rw [← hmore] at hwalk
      cases rest with
      | nil =>
        have hs : s = .taken (w ++ [name]) := by
          rcases htail with rfl | rfl
          · exact (Except.ok.inj hwalk).symm
          · obtain ⟨_, hstep⟩ := walksOn_of_walk hwalk
            cases hstep with
            | here hdone => exact (Except.ok.inj hdone).symm
        rw [hs]
        exact .taken node hnode
      | cons next rest =>
        have hends := ih (hfree.below [name]) (by simp) hwalk
        have hshape : (w ++ [name]) ++ (next :: rest) = w ++ (name :: next :: rest) := by simp
        cases hends with
        | taken node hnode =>
          rw [hshape] at hnode ⊢
          exact .taken node hnode
        | free hnames hnone =>
          rw [hshape] at hnone
          rw [List.append_assoc]
          exact .free (by rw [hnames]; rfl) hnone

end CrossBuild.Proofs
