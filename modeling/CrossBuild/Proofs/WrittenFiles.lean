import CrossBuild.CommandLine.Generate
import CrossBuild.Proofs.AlikeTrees

/-!
# Reading back what was written

A file is found again under the path that it was written to, whatever links lead there. A walk along the
same steps takes the same turns after the write, as the only node that is new is a file, and a walk that
succeeds meets a file at its end only.
-/

namespace CrossBuild.Proofs
open FileTree

/-- Where a walk ends once a file stands at a place. -/
def onceFiled (q : Place) : Spot → Spot
  | .taken place => .taken place
  | .free parent name => if parent ++ [name] = q then .taken q else .free parent name

section Filed

variable {t : FileTree} {q : Place} (hfree : t.get? q = none ∨ ∃ old, t.get? q = some (.file old)) (f : File)

include hfree

lemma get?_filed_self : (t.set q (.file f)).get? q = some (.file f) := by
  rw [get?_set, if_pos]
  refine ⟨rfl, ?_⟩
  rintro rfl
  rcases hfree with h | ⟨old, h⟩
  · cases h
  · cases h

lemma checkDirectory_filed {place : Place} {bit : Nat} (h : t.checkDirectory place bit = .ok ()) :
    (t.set q (.file f)).checkDirectory place bit = .ok () := by
  have hne : place ≠ q := by
    rintro rfl
    unfold checkDirectory at h
    rcases hfree with hnone | ⟨old, hold⟩
    · simp [hnone] at h
    · simp [hold] at h
  unfold checkDirectory at h ⊢
  rw [get?_set, if_neg fun hq => hne hq.1]
  exact h

lemma walk_filed {followLast : Bool} {onLink onLink' : Place → List Step → Except FileFault Spot}
    (honLink : ∀ {place steps s}, onLink place steps = .ok s → onLink' place steps = .ok (onceFiled q s))
    {place : Place} {steps : List Step} {s : Spot} (h : walk t followLast onLink place steps = .ok s) :
    walk (t.set q (.file f)) followLast onLink' place steps = .ok (onceFiled q s) := by
  induction steps generalizing place with
  | nil =>
    cases h
    rfl
  | cons step rest ih =>
    obtain ⟨hcheck, hstep⟩ := walksOn_of_walk h
    refine WalksOn.walk ?_ (checkDirectory_filed hfree f hcheck)
    -- a walk that comes by the place of the file can only end there
    have hother : ∀ {name node}, t.get? (place ++ [name]) = some node → (∀ old, node ≠ .file old) →
        (t.set q (.file f)).get? (place ++ [name]) = some node := by
      intro name node hnode hnot
      rw [get?_set, if_neg, hnode]
      rintro ⟨rfl, _⟩
      rcases hfree with hnone | ⟨old, hold⟩
      · rw [hnode] at hnone
        cases hnone
      · exact hnot old (Option.some.inj (hnode.symm.trans hold))
    cases hstep with
    | here hwalk => exact .here (ih hwalk)
    | up hwalk => exact .up (ih hwalk)
    | @free name hsize hnone =>
      rw [onceFiled]
      split
      · rename_i hq
        subst hq
        exact .into hsize (get?_filed_self hfree f) (by simp) rfl
      · rename_i hq
        refine .free hsize ?_
        rw [get?_set, if_neg fun h => hq h.1, hnone]
    | last hsize hnode hlast => exact .last hsize (hother hnode (by simp)) hlast
    | link hsize hnode hmore hwalk => exact .link hsize (hother hnode (by simp)) hmore (honLink hwalk)
    | @into name node _ _ hsize hnode hlink hwalk =>
      by_cases hq : place ++ [name] = q
      · subst hq
        exact .into hsize (get?_filed_self hfree f) (by simp) (ih hwalk)
      · refine .into hsize ?_ hlink (ih hwalk)
        rw [get?_set, if_neg fun h => hq h.1, hnode]

lemma walkLinks_filed {followLast : Bool} {limit : Nat} {place : Place} {steps : List Step} {s : Spot}
    (h : walkLinks t followLast limit place steps = .ok s) :
    walkLinks (t.set q (.file f)) followLast limit place steps = .ok (onceFiled q s) := by
  induction limit generalizing place steps s with
  | zero => cases h
  | succ limit ih => exact walk_filed hfree f ih h

lemma spot_filed {followLast : Bool} {path : String} {s : Spot} (h : t.spot followLast path = .ok s) :
    (t.set q (.file f)).spot followLast path = .ok (onceFiled q s) := by
  obtain ⟨hcheck, hspot⟩ := spot_iff_walk.mp h
  exact spot_iff_walk.mpr ⟨hcheck, walkLinks_filed hfree f hspot⟩

lemma file_filed {path : String} {s : Spot} (h : t.spot true path = .ok s) (hs : onceFiled q s = .taken q) :
    (t.set q (.file f)).file path = .ok f := by
  have hplace : (t.set q (.file f)).place path = .ok q := place_iff_spot.mpr (hs ▸ spot_filed hfree f h)
  exact file_iff_node.mpr (node_iff_place.mpr ⟨q, hplace, get?_filed_self hfree f⟩)

end Filed

/-- A file that was written holds what was written to it. -/
theorem write_file {t t' : FileTree} {path : String} {data : ByteArray} {now : Instant}
    (h : t.write path data now = .ok t') : ∃ f, t'.file path = .ok f ∧ f.data = data ∧ f.modified = now := by
  simp only [FileTree.write, update, bind_eq_ok] at h
  obtain ⟨s, hspot, h⟩ := h
  cases s with
  | free parent name =>
    have hnone : t.get? (parent ++ [name]) = none := walkLinks_free (spot_iff_walk.mp hspot).2
    rw [add_eq_set h]
    exact ⟨_, (file_dated _ _ path).trans (file_filed (.inl hnone) _ hspot (by simp [onceFiled])), rfl, rfl⟩
  | taken place =>
    dsimp only at h
    split at h
    · rename_i old hold
      split at h
      · cases h
        exact ⟨_, file_filed (.inr ⟨old, hold⟩) _ hspot rfl, rfl, rfl⟩
      · cases h
    · cases h

/-- A new file can be written wherever a walk ends at a free name of a directory that lets it. -/
lemma write_of_free {t : FileTree} {path : String} {parent : Place} {name : String}
    (hspot : t.spot true path = .ok (.free parent name)) (hparent : t.checkDirectory parent writeBit = .ok ())
    (data : ByteArray) (now : Instant) :
    t.write path data now = .ok ((t.set (parent ++ [name]) (.file ⟨data, now, fileMode⟩)).changed parent now) := by
  rw [FileTree.write, update, hspot]
  change t.add parent name _ now = _
  rw [FileTree.add, hparent]
  rfl

/-- The text goes to the path on the way from one machine to the other, and the file there holds it. -/
structure Writes {σ : Type} (path text : String) (m m' : Machine σ) : Prop where
  run : Gives (CommandLine.writeOutput path text : Task σ CommandLine.Failure Unit) m () m'
  file : ∃ f, m'.files.file path = .ok f ∧ f.data = text.toUTF8

lemma writes_iff {σ : Type} {path text : String} {m m' : Machine σ} :
    Writes path text m m' ↔
      Gives (CommandLine.writeOutput path text : Task σ CommandLine.Failure Unit) m () m' := by
  refine ⟨fun h => h.run, fun h => ⟨h, ?_⟩⟩
  unfold CommandLine.writeOutput at h
  have hlast : ∃ between : Machine σ, ∃ files, between.files.write path text.toUTF8 between.now = .ok files ∧
      { between with files } = m' := by
    split at h
    · simp only [gives_bind, gives_changeFiles] at h
      obtain ⟨_, between, _, files, hwrite, heq⟩ := h
      exact ⟨between, files, hwrite, heq⟩
    · simp only [gives_changeFiles] at h
      obtain ⟨files, hwrite, heq⟩ := h
      exact ⟨m, files, hwrite, heq⟩
  obtain ⟨between, files, hwrite, rfl⟩ := hlast
  obtain ⟨f, hfile, hdata, _⟩ := write_file hwrite
  exact ⟨f, hfile, hdata⟩

end CrossBuild.Proofs
