import CrossBuild.Proofs.PathLeads
import Mathlib.Data.List.DropRight

/-!
# Paths above a path

What stands above a path is a front part of it: it starts where the path does and leads through the first
of its pieces. So making all directories above something below a directory never leaves the way there.
-/

namespace CrossBuild.Proofs
open CrossBuild.Path

/-! ### Cutting and joining -/

lemma cut_text (path : String) : (cut path).text = path := by
  have hjoin : ∀ cs : List Char,
      Text.join "/" ((Text.pieces (· == '/') cs).map String.ofList) = String.ofList cs := join_pieces '/'
  have hpath : ∀ cs, path.toList = cs → String.ofList cs = path := by
    rintro cs rfl
    exact String.ofList_toList
  unfold cut Cut.text
  split
  · rename_i body h
    rw [hjoin, ← String.ofList_append]
    exact hpath _ h
  · rename_i h
    rw [← hpath _ h]
    rfl
  · rename_i body h
    rw [hjoin, ← String.ofList_append]
    exact hpath _ h
  · rw [hjoin, ← String.ofList_append]
    exact hpath _ rfl

lemma cut_lead (path : String) : (cut path).lead = ['/'] ∨ (cut path).lead = ['.'] ∨ (cut path).lead = [] := by
  unfold cut
  split
  · exact .inl rfl
  · exact .inr (.inl rfl)
  · exact .inr (.inl rfl)
  · exact .inr (.inr rfl)

lemma join_append (separator : String) {front back : List String} (hfront : front ≠ [])
    (hback : back ≠ []) : Text.join separator (front ++ back) =
      Text.join separator front ++ separator ++ Text.join separator back := by
  have hcons : ∀ (part : String) {rest : List String}, rest ≠ [] →
      Text.join separator (part :: rest) = part ++ separator ++ Text.join separator rest := by
    intro part rest hrest
    rw [Text.join]
    exact hrest
  induction front with
  | nil => exact (hfront rfl).elim
  | cons part rest ih =>
    by_cases hrest : rest = []
    · rw [hrest]
      exact hcons part hback
    · rw [List.cons_append, hcons part (by simp [hrest]), ih hrest, hcons part hrest]
      simp only [String.append_assoc]

lemma activePieces_slash (front back : String) :
    activePieces (front ++ "/" ++ back) = activePieces front ++ activePieces back := by
  have hchars : (front ++ "/" ++ back).toList = front.toList ++ '/' :: back.toList := by simp
  rw [activePieces, hchars, pieces_append (· == '/') rfl, List.filter_append]
  rfl

lemma isAbsolute_append {front : String} (hne : front ≠ "") (back : String) :
    isAbsolute (front ++ back) = isAbsolute front := by
  unfold isAbsolute
  rw [String.toList_append]
  cases hfront : front.toList with
  | nil => exact (hne (String.toList_inj.mp (by simpa using hfront))).elim
  | cons c cs => rfl

/-! ### Parents -/

lemma trimEnd_pieces (c : Cut) : c.trimEnd.pieces <+: c.pieces := List.rdropWhile_prefix isIdle c.pieces

/-- A path is its parent with some more pieces. -/
lemma parent?_eq_some {path above : String} (h : parent? path = some above) (hne : above ≠ "") :
    ∃ lead front back, (lead = ['/'] ∨ lead = ['.'] ∨ lead = []) ∧ back ≠ [] ∧
      Cut.text ⟨lead, front⟩ = above ∧ Cut.text ⟨lead, front ++ back⟩ = path := by
  unfold parent? at h
  dsimp only at h
  split at h
  · exact (hne (Option.some.inj h).symm).elim
  · cases h
  · rename_i hnot _
    obtain ⟨last, hlast⟩ := trimEnd_pieces (cut path)
    obtain ⟨idle, hidle⟩ := trimEnd_pieces ⟨(cut path).lead, (cut path).trimEnd.pieces.dropLast⟩
    have hpieces : (cut path).trimEnd.pieces ≠ [] := hnot
    refine ⟨_, _, idle ++ ([(cut path).trimEnd.pieces.getLast hpieces] ++ last), cut_lead path, by simp,
      Option.some.inj h, ?_⟩
    have hwhole : Cut.pieces (Cut.trimEnd ⟨(cut path).lead, (cut path).trimEnd.pieces.dropLast⟩) ++
        (idle ++ ([(cut path).trimEnd.pieces.getLast hpieces] ++ last)) = (cut path).pieces := by
      rw [← List.append_assoc, hidle, ← List.append_assoc]
      dsimp only
      rw [List.dropLast_append_getLast, hlast]
    exact (congrArg (fun pieces => Cut.text ⟨(cut path).lead, pieces⟩) hwhole).trans (cut_text path)

lemma cutText_append (lead : List Char) {front back : List (List Char)} (hfront : front ≠ [])
    (hback : back ≠ []) : Cut.text ⟨lead, front ++ back⟩ =
      Cut.text ⟨lead, front⟩ ++ "/" ++ Text.join "/" (back.map String.ofList) := by
  unfold Cut.text
  rw [List.map_append, join_append "/" (by simpa using hfront) (by simpa using hback)]
  simp only [String.append_assoc]

lemma isFront_parent {path above : String} (h : parent? path = some above) (hne : above ≠ "") :
    IsFront above path := by
  obtain ⟨lead, front, back, hlead, hback, rfl, rfl⟩ := parent?_eq_some h hne
  by_cases hfront : front = []
  · subst hfront
    have habove : Cut.text ⟨lead, []⟩ = String.ofList lead := String.append_empty
    have hnone : activePieces (String.ofList lead) = [] := by
      rcases hlead with rfl | rfl | rfl
      · decide
      · decide
      · decide
    rw [habove] at hne ⊢
    exact ⟨(isAbsolute_append hne _).symm, hnone ▸ List.nil_prefix⟩
  · rw [cutText_append _ hfront hback]
    constructor
    · rw [String.append_assoc, isAbsolute_append hne]
    · rw [activePieces_slash]
      exact List.prefix_append _ _

/-- All paths above a path are front parts of it. -/
lemma isFront_ancestor {path above : String} (h : above ∈ ancestors path) : IsFront above path := by
  have hwithin : ∀ n path, ∀ above ∈ ancestorsWithin n path, IsFront above path := by
    intro n
    induction n with
    | zero => simp [ancestorsWithin]
    | succ n ih =>
      intro path above habove
      rw [ancestorsWithin] at habove
      split at habove
      · cases habove
      · rename_i next hnext
        split at habove
        · cases habove
        · rename_i hnonempty
          have hfront := isFront_parent hnext (by simpa using hnonempty)
          rcases List.mem_append.mp habove with habove | habove
          · exact (ih next above habove).trans hfront
          · rw [List.mem_singleton.mp habove]
            exact hfront
  exact hwithin path.length path above h

end CrossBuild.Proofs
