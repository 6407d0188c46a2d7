import CrossBuild.Proofs.ArchivePaths

/-!
# One step up a path

The path above a path lacks the last of its pieces that count, and nothing else that counts. Where it has
pieces that count, its text ends with one of them, so it asks for no directory by its form.
-/

namespace CrossBuild.Proofs
open CrossBuild.Path FileTree

/-- The last piece of the path counts. -/
def EndsActive (path : String) : Prop :=
  (Text.pieces (· == '/') path.toList).getLast?.any isIdle = false

section Ends

variable {path : String} (h : EndsActive path)

include h

lemma EndsActive.stepsOf : FileTree.stepsOf path = (activePieces path).map stepOf := by
  unfold FileTree.stepsOf
  dsimp only
  rw [show (Text.pieces (· == '/') path.toList).getLast?.any isIdle = false from h,
    if_neg Bool.false_ne_true]
  rfl

lemma EndsActive.last_ne : path.toList.getLast? ≠ some '/' := by
  intro hslash
  obtain ⟨front, hfront⟩ := List.getLast?_eq_some_iff.mp hslash
  unfold EndsActive at h
  rw [hfront, pieces_append (· == '/') rfl] at h
  simp [Text.pieces, isIdle] at h

/-- Such a path has no slashes at its end. -/
lemma EndsActive.withoutEndSlashes : FileTree.withoutEndSlashes path = path := by
  have hkeep : path.toList.reverse.dropWhile (· == '/') = path.toList.reverse := by
    have hlast := h.last_ne
    rw [← List.head?_reverse] at hlast
    cases hcs : path.toList.reverse with
    | nil => rfl
    | cons c cs =>
      rw [hcs] at hlast
      exact List.dropWhile_cons_of_neg (by simpa using hlast)
  rw [FileTree.withoutEndSlashes, hkeep, List.reverse_reverse, String.ofList_toList]

end Ends

/-! ### Texts of pieces -/

lemma pieces_joined {pieces : List (List Char)} (hne : pieces ≠ []) (hfree : ∀ piece ∈ pieces, '/' ∉ piece) :
    Text.pieces (· == '/') (Text.join "/" (pieces.map String.ofList)).toList = pieces := by
  have hsplit : Text.splitAt '/' (Text.join "/" (pieces.map String.ofList)) = pieces.map String.ofList :=
    splitAt_join (by simpa using hne) (by simpa using hfree)
  have hinjective : Function.Injective String.ofList := fun _ _ h => String.ofList_injective h
  exact List.map_injective_iff.mpr hinjective hsplit

/-- After a leading dot there is a slash or nothing. -/
lemma head_of_dot {path : String} (h : (cut path).lead = ['.']) {piece : List Char}
    (hpiece : (cut path).pieces.head? = some piece) : isIdle piece = true := by
  rcases hcut : cut path with ⟨lead, pieces⟩
  rw [hcut] at h hpiece
  unfold cut at hcut
  split at hcut
  · cases hcut
    cases h
  · cases hcut
    cases hpiece
  · cases hcut
    cases hpiece
    rfl
  · cases hcut
    cases h

/-- The text of the first pieces of a path begins the path, and of it just these pieces are read. -/
lemma cutText_front {path : String} {front back : List (List Char)} (h : (cut path).pieces = front ++ back) :
    (∃ rest, path = Cut.text ⟨(cut path).lead, front⟩ ++ rest) ∧
      activePieces (Cut.text ⟨(cut path).lead, front⟩) = front.filter fun piece => !isIdle piece := by
  have htext : path = Cut.text ⟨(cut path).lead, front ++ back⟩ := by
    rw [← h]
    exact (cut_text path).symm
  generalize hlead : (cut path).lead = lead at htext
  by_cases hback : back = []
  · rw [hback, List.append_nil] at h htext
    rw [← htext, ← h, filter_cut]
    exact ⟨⟨"", String.append_empty.symm⟩, rfl⟩
  by_cases hfront : front = []
  · subst hfront
    refine ⟨⟨_, htext.trans (by simp [Cut.text, Text.join]; rfl)⟩, ?_⟩
    rcases cut_lead path with hcase | hcase | hcase
    · rw [← hlead, hcase]
      decide
    · rw [← hlead, hcase]
      decide
    · rw [← hlead, hcase]
      decide
  · rw [cutText_append lead hfront hback] at htext
    refine ⟨⟨_, htext.trans String.append_assoc⟩, ?_⟩
    have hfree : ∀ piece ∈ back, '/' ∉ piece := fun piece hpiece => cut_free (h ▸ List.mem_append_right _ hpiece)
    have hsplit := activePieces_slash (Cut.text ⟨lead, front⟩) (Text.join "/" (back.map String.ofList))
    rw [← htext, ← filter_cut, h, List.filter_append] at hsplit
    have hrest : activePieces (Text.join "/" (back.map String.ofList)) = back.filter fun piece => !isIdle piece := by
      rw [activePieces, pieces_joined hback hfree]
    rw [hrest] at hsplit
    exact (List.append_cancel_right hsplit).symm

/-- The text of a front part of a path that ends with a piece that counts does so too. -/
lemma endsActive_cutText {path : String} {front : List (List Char)} {piece : List Char}
    (hfront : front ++ [piece] <+: (cut path).pieces) (hactive : isIdle piece = false) :
    EndsActive (Cut.text ⟨(cut path).lead, front ++ [piece]⟩) := by
  have hfree : '/' ∉ piece := cut_free (hfront.subset (by simp))
  have hpiece : Text.pieces (· == '/') piece = [piece] := by
    refine pieces_of_free fun c hc => ?_
    rw [beq_eq_false_iff_ne]
    rintro rfl
    exact hfree hc
  unfold EndsActive
  by_cases hnone : front = []
  · subst hnone
    have htext : (Cut.text ⟨(cut path).lead, [] ++ [piece]⟩).toList = (cut path).lead ++ piece := by
      simp [Cut.text, Text.join]
    rw [htext]
    rcases cut_lead path with hlead | hlead | hlead
    · rw [hlead]
      simp [Text.pieces, hpiece, hactive]
    · have hhead : (cut path).pieces.head? = some piece := by
        obtain ⟨back, hback⟩ := hfront
        rw [← hback]
        rfl
      rw [head_of_dot hlead hhead] at hactive
      cases hactive
    · rw [hlead, List.nil_append, hpiece]
      simpa using hactive
  · have htext : (Cut.text ⟨(cut path).lead, front ++ [piece]⟩).toList =
        (Cut.text ⟨(cut path).lead, front⟩).toList ++ '/' :: piece := by
      rw [cutText_append _ hnone (by simp)]
      simp [Text.join]
    rw [htext, pieces_append (· == '/') rfl, hpiece]
    simpa using hactive

/-! ### Parents -/

lemma last_trimEnd (c : Cut) {piece : List Char} (h : c.trimEnd.pieces.getLast? = some piece) :
    isIdle piece = false := by
  have hlast := List.head?_dropWhile_not isIdle c.pieces.reverse
  rw [Cut.trimEnd, List.getLast?_reverse] at h
  rw [h] at hlast
  exact hlast

lemma parent?_of_pieces {path : String} {front : List (List Char)} {piece : List Char}
    (h : (cut path).trimEnd.pieces = front ++ [piece]) :
    parent? path = some (Cut.trimEnd ⟨(cut path).lead, front⟩).text := by
  unfold parent?
  dsimp only
  split
  · rename_i hnil _
    rw [h] at hnil
    simp at hnil
  · rename_i hnil _
    rw [h] at hnil
    simp at hnil
  · rw [h, List.dropLast_concat]
    rfl

lemma activePieces_trimmed (path : String) :
    activePieces path = (cut path).trimEnd.pieces.filter fun piece => !isIdle piece := by
  rw [filter_trimEnd, filter_cut]

/-- What there is above a path with pieces that count: the path without the last of them. -/
lemma parent?_of_active {path : String} (h : activePieces path ≠ []) :
    ∃ above piece, parent? path = some above ∧ activePieces path = activePieces above ++ [piece] ∧
      (activePieces above = [] ∨ EndsActive above) ∧ ∃ rest, path = above ++ rest := by
  have htrimmed : (cut path).trimEnd.pieces ≠ [] := by
    intro hnil
    rw [activePieces_trimmed, hnil] at h
    exact h rfl
  obtain ⟨front, piece, hpieces⟩ := List.eq_nil_or_concat (cut path).trimEnd.pieces |>.resolve_left htrimmed
  rw [List.concat_eq_append] at hpieces
  have hactive : isIdle piece = false := last_trimEnd (cut path) (by rw [hpieces]; simp)
  -- what is above has the pieces of `front`, less idle ones at their end
  have hlast : ∀ last, (Cut.trimEnd ⟨(cut path).lead, front⟩).pieces.getLast? = some last → isIdle last = false :=
    fun last => last_trimEnd ⟨(cut path).lead, front⟩
  have hfilter := filter_trimEnd ⟨(cut path).lead, front⟩
  obtain ⟨idle, hidle⟩ := trimEnd_pieces (cut path)
  obtain ⟨rest, hrest⟩ := trimEnd_pieces ⟨(cut path).lead, front⟩
  have hparent := parent?_of_pieces hpieces
  have hlead : (Cut.trimEnd ⟨(cut path).lead, front⟩).lead = (cut path).lead := rfl
  generalize Cut.trimEnd ⟨(cut path).lead, front⟩ = kept at *
  obtain ⟨lead, kept⟩ := kept
  obtain rfl : lead = (cut path).lead := hlead
  dsimp only at hlast hfilter hrest
  have hwhole : (cut path).pieces = kept ++ (rest ++ [piece] ++ idle) := by
    rw [← hidle, hpieces, ← hrest]
    simp
  obtain ⟨hbegins, habove⟩ := cutText_front hwhole
  refine ⟨_, piece, hparent, ?_, ?_, hbegins⟩
  · rw [activePieces_trimmed, hpieces, List.filter_append, habove, hfilter]
    simp [hactive]
  · rcases List.eq_nil_or_concat kept with rfl | ⟨init, last, rfl⟩
    · exact .inl habove
    · rw [List.concat_eq_append] at hwhole hlast ⊢
      refine .inr (endsActive_cutText ?_ (hlast last (by simp)))
      rw [hwhole]
      exact List.prefix_append _ _

lemma parent?_of_idle {path : String} (h : activePieces path = []) : parent? path = none ∨ parent? path = some "" := by
  have hnone : (cut path).trimEnd.pieces = [] := by
    rcases List.eq_nil_or_concat (cut path).trimEnd.pieces with hnil | ⟨front, piece, hpieces⟩
    · exact hnil
    · rw [List.concat_eq_append] at hpieces
      have hactive : isIdle piece = false := last_trimEnd (cut path) (by rw [hpieces]; simp)
      rw [activePieces_trimmed, hpieces, List.filter_append, List.append_eq_nil_iff] at h
      simp [hactive] at h
  unfold parent?
  dsimp only
  rw [hnone]
  split
  · exact .inr rfl
  · exact .inl rfl
  · rename_i hnot _
    exact (hnot rfl).elim

/-- A text has no more pieces that count than characters. -/
lemma length_activePieces (path : String) : (activePieces path).length ≤ path.length := by
  have hchars : ∀ cs : List Char,
      ((Text.pieces (· == '/') cs).filter fun piece => !isIdle piece).length ≤ cs.length := by
    intro cs
    induction cs with
    | nil => decide
    | cons c cs ih =>
      rw [Text.pieces]
      split
      · rw [List.filter_cons_of_neg (by simp [isIdle])]
        exact ih.trans (Nat.le_succ _)
      · split
        · exact (List.length_filter_le _ _).trans (by simp)
        · rename_i first others heq
          rw [heq] at ih
          have hothers : (others.filter fun piece => !isIdle piece).length ≤ cs.length :=
            ((List.sublist_cons_self first others).filter _).length_le.trans ih
          rw [List.filter_cons]
          split
          · exact Nat.succ_le_succ hothers
          · exact hothers.trans (Nat.le_succ _)
  rw [← String.length_toList]
  exact hchars path.toList

end CrossBuild.Proofs
