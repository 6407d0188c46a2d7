import CrossBuild.Text.Basic
import Mathlib.Data.List.Count
import Mathlib.Tactic.Lemma

/-!
# Pieces between separators

A text is cut at each separator, so there is one piece more than there are separators, and a piece has
none. Parts without separators come back from the text that joins them, so that text names them in one
way only.
-/

namespace CrossBuild.Proofs
open Text

lemma pieces_ne_nil (isSeparator : Char → Bool) (cs : List Char) : pieces isSeparator cs ≠ [] := by
  cases cs with
  | nil => simp [pieces]
  | cons c cs =>
    unfold pieces
    split
    · simp
    · split <;> simp

lemma pieces_append (isSeparator : Char → Bool) {c : Char} (hc : isSeparator c = true)
    (a b : List Char) : pieces isSeparator (a ++ c :: b) =
      pieces isSeparator a ++ pieces isSeparator b := by
  induction a with
  | nil => simp [pieces, hc]
  | cons d a ih =>
    by_cases hd : isSeparator d = true
    · simp [pieces, hd, ih]
    · obtain ⟨first, others, heq⟩ := List.exists_cons_of_ne_nil (pieces_ne_nil isSeparator a)
      simp [pieces, hd, ih, heq]

lemma length_pieces (isSeparator : Char → Bool) (cs : List Char) :
    (pieces isSeparator cs).length = cs.countP isSeparator + 1 := by
  induction cs with
  | nil => simp [pieces]
  | cons c cs ih =>
    by_cases hc : isSeparator c = true
    · simp [pieces, hc, ih]
    · obtain ⟨first, others, heq⟩ := List.exists_cons_of_ne_nil (pieces_ne_nil isSeparator cs)
      rw [heq] at ih
      simpa [pieces, hc, heq] using ih

/-- The characters of a piece are characters of the text, and no separators. -/
lemma mem_piece {isSeparator : Char → Bool} {cs piece : List Char}
    (hpiece : piece ∈ pieces isSeparator cs) {c : Char} (hc : c ∈ piece) :
    c ∈ cs ∧ isSeparator c = false := by
  induction cs generalizing piece with
  | nil =>
    obtain rfl : piece = [] := by simpa [pieces] using hpiece
    simp at hc
  | cons d cs ih =>
    by_cases hd : isSeparator d = true
    · rw [pieces, if_pos hd, List.mem_cons] at hpiece
      rcases hpiece with rfl | hpiece
      · simp at hc
      · exact (ih hpiece hc).imp_left (List.mem_cons_of_mem d)
    · obtain ⟨first, others, heq⟩ := List.exists_cons_of_ne_nil (pieces_ne_nil isSeparator cs)
      rw [pieces, if_neg hd, heq] at hpiece
      rw [heq] at ih
      rcases List.mem_cons.mp hpiece with rfl | hpiece
      · rcases List.mem_cons.mp hc with rfl | hc
        · exact ⟨List.mem_cons_self, by simpa using hd⟩
        · exact (ih List.mem_cons_self hc).imp_left (List.mem_cons_of_mem d)
      · exact (ih (List.mem_cons_of_mem first hpiece) hc).imp_left (List.mem_cons_of_mem d)

lemma pieces_of_free {isSeparator : Char → Bool} {cs : List Char}
    (h : ∀ c ∈ cs, isSeparator c = false) : pieces isSeparator cs = [cs] := by
  induction cs with
  | nil => rfl
  | cons c cs ih =>
    rw [List.forall_mem_cons] at h
    simp [pieces, h.1, ih h.2]

/-! ### Strings -/

lemma splitAt_ne_nil (separator : Char) (s : String) : splitAt separator s ≠ [] := by
  simp [splitAt, pieces_ne_nil]

lemma length_splitAt (separator : Char) (s : String) :
    (splitAt separator s).length = s.toList.count separator + 1 := by
  rw [splitAt, List.length_map, length_pieces, List.count]

lemma splitAt_of_free {separator : Char} {s : String} (h : separator ∉ s.toList) :
    splitAt separator s = [s] := by
  have hfree : ∀ c ∈ s.toList, (c == separator) = false := by
    intro c hc
    rw [beq_eq_false_iff_ne]
    rintro rfl
    exact h hc
  simp [splitAt, pieces_of_free hfree]

lemma splitAt_append (separator : Char) (front back : String) :
    splitAt separator (front ++ String.singleton separator ++ back) =
      splitAt separator front ++ splitAt separator back := by
  have hpieces := pieces_append (· == separator) (beq_self_eq_true separator) front.toList back.toList
  rw [splitAt, splitAt, splitAt, ← List.map_append, ← hpieces]
  simp

lemma mem_of_mem_splitAt {separator : Char} {s part : String} (h : part ∈ splitAt separator s) {c : Char}
    (hc : c ∈ part.toList) : c ∈ s.toList ∧ c ≠ separator := by
  obtain ⟨piece, hpiece, rfl⟩ := List.mem_map.mp h
  rw [String.toList_ofList] at hc
  obtain ⟨hmem, hsep⟩ := mem_piece hpiece hc
  exact ⟨hmem, by simpa using hsep⟩

lemma join_pieces (separator : Char) (cs : List Char) :
    join (String.singleton separator) ((pieces (· == separator) cs).map String.ofList) =
      String.ofList cs := by
  induction cs with
  | nil => rfl
  | cons c cs ih =>
    obtain ⟨first, others, heq⟩ := List.exists_cons_of_ne_nil (pieces_ne_nil (· == separator) cs)
    rw [heq] at ih
    by_cases hc : c = separator
    · subst hc
      rw [pieces, if_pos (beq_self_eq_true c), heq, List.map_cons, List.map_cons, join, ← List.map_cons, ih]
      · apply String.toList_injective
        simp
      · simp
    · rw [pieces, if_neg (by simpa using hc), heq, List.map_cons]
      have hfront : ∀ rest : List String,
          join (String.singleton separator) (String.ofList (c :: first) :: rest) =
            String.singleton c ++ join (String.singleton separator) (String.ofList first :: rest) := by
        intro rest
        apply String.toList_injective
        cases rest <;> simp [join]
      rw [hfront, ← List.map_cons, ih]
      apply String.toList_injective
      simp

/-- Parts that lack the separator are the pieces of the text that joins them. -/
lemma splitAt_join {separator : Char} {parts : List String} (hne : parts ≠ [])
    (h : ∀ part ∈ parts, separator ∉ part.toList) :
    splitAt separator (join (String.singleton separator) parts) = parts := by
  induction parts with
  | nil => exact (hne rfl).elim
  | cons part parts ih =>
    rw [List.forall_mem_cons] at h
    cases parts with
    | nil => exact splitAt_of_free h.1
    | cons next parts =>
      have hpart := splitAt_of_free h.1
      have hrest := ih (List.cons_ne_nil next parts) h.2
      unfold splitAt at hpart hrest ⊢
      simp only [join, String.toList_append, String.toList_singleton, List.append_assoc,
        List.singleton_append]
      rw [pieces_append (· == separator) (beq_self_eq_true separator), List.map_append, hpart, hrest]
      rfl

/-- A text is cut into the one list of parts without separators that it joins. -/
theorem splitAt_eq_iff {separator : Char} {s : String} {parts : List String} :
    splitAt separator s = parts ↔ parts ≠ [] ∧ (∀ part ∈ parts, separator ∉ part.toList) ∧
      join (String.singleton separator) parts = s := by
  constructor
  · rintro rfl
    refine ⟨splitAt_ne_nil separator s, fun part hpart hmem => ?_, ?_⟩
    · exact (mem_of_mem_splitAt hpart hmem).2 rfl
    · rw [splitAt, join_pieces, String.ofList_toList]
  · rintro ⟨hne, hfree, rfl⟩
    exact splitAt_join hne hfree

lemma join_inj {separator : Char} {parts parts' : List String} (hne : parts ≠ []) (hne' : parts' ≠ [])
    (h : ∀ part ∈ parts, separator ∉ part.toList) (h' : ∀ part ∈ parts', separator ∉ part.toList)
    (heq : join (String.singleton separator) parts = join (String.singleton separator) parts') :
    parts = parts' := by
  rw [← splitAt_join hne h, heq, splitAt_join hne' h']

/-! ### Texts that begin with another one -/

lemma dropStart_eq_some {start cs rest : List Char} : dropStart start cs = some rest ↔ cs = start ++ rest := by
  induction start generalizing cs with
  | nil => simp [dropStart]
  | cons s start ih =>
    cases cs with
    | nil => simp [dropStart]
    | cons c cs =>
      by_cases h : s = c
      · rw [dropStart, if_pos h, ih, h, List.cons_append, List.cons_inj_right]
      · rw [dropStart, if_neg h, List.cons_append, List.cons.injEq]
        simp [Ne.symm h]

end CrossBuild.Proofs
