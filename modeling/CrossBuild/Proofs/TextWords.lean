import CrossBuild.Proofs.TextPieces
import Mathlib.Data.List.TakeWhile

/-!
# Runs between separators

The runs of a text are its pieces that are not empty. They can be told one by one: the first run stands
after some separators, and the others are the runs of what follows it. So separators at either end of a
text do not matter to its runs, and blank characters do not matter to its words.
-/

namespace CrossBuild.Proofs
open Text

/-- The text is some separators, a run without any, and a rest that does not go on with the run. -/
structure BeginsWithRun (isSeparator : Char → Bool) (cs run rest : List Char) : Prop where
  text : ∃ lead, cs = lead ++ (run ++ rest) ∧ ∀ c ∈ lead, isSeparator c = true
  nonempty : run ≠ []
  free : ∀ c ∈ run, isSeparator c = false
  ends : ∀ c, rest.head? = some c → isSeparator c = true

section Runs

variable {isSeparator : Char → Bool} {cs run rest : List Char}

lemma runs_append {c : Char} (hc : isSeparator c = true) (front back : List Char) :
    runs isSeparator (front ++ c :: back) = runs isSeparator front ++ runs isSeparator back := by
  rw [runs, pieces_append isSeparator hc, List.filter_append]
  rfl

lemma runs_after_separators {lead : List Char} (hlead : ∀ c ∈ lead, isSeparator c = true) (cs : List Char) :
    runs isSeparator (lead ++ cs) = runs isSeparator cs := by
  induction lead with
  | nil => rfl
  | cons c lead ih =>
    rw [List.forall_mem_cons] at hlead
    have hfirst := runs_append hlead.1 [] (lead ++ cs)
    rw [List.nil_append] at hfirst
    rw [List.cons_append, hfirst, ih hlead.2]
    rfl

lemma runs_before_separators {back : List Char} (hback : ∀ c ∈ back, isSeparator c = true) (cs : List Char) :
    runs isSeparator (cs ++ back) = runs isSeparator cs := by
  cases back with
  | nil => rw [List.append_nil]
  | cons c back =>
    rw [List.forall_mem_cons] at hback
    have hnone := runs_after_separators hback.2 []
    rw [List.append_nil] at hnone
    rw [runs_append hback.1, hnone]
    exact List.append_nil _

lemma runs_of_free (hne : run ≠ []) (hfree : ∀ c ∈ run, isSeparator c = false) : runs isSeparator run = [run] := by
  rw [runs, pieces_of_free hfree]
  simpa using hne

lemma BeginsWithRun.runs_eq (h : BeginsWithRun isSeparator cs run rest) :
    runs isSeparator cs = run :: runs isSeparator rest := by
  obtain ⟨lead, rfl, hlead⟩ := h.text
  rw [runs_after_separators hlead]
  have hrun := runs_of_free h.nonempty h.free
  cases rest with
  | nil =>
    rw [List.append_nil, hrun]
    rfl
  | cons c rest =>
    have hc : isSeparator c = true := h.ends c rfl
    have hskip := runs_append hc [] rest
    rw [List.nil_append] at hskip
    rw [runs_append hc, hskip, hrun]
    rfl

lemma exists_beginsWithRun (h : runs isSeparator cs ≠ []) : ∃ run rest, BeginsWithRun isSeparator cs run rest := by
  induction cs with
  | nil => exact absurd rfl h
  | cons c cs ih =>
    by_cases hc : isSeparator c = true
    · have hskip := runs_append hc [] cs
      rw [List.nil_append] at hskip
      rw [hskip] at h
      obtain ⟨run, rest, hbegins⟩ := ih h
      obtain ⟨lead, htext, hlead⟩ := hbegins.text
      refine ⟨run, rest, ⟨c :: lead, by rw [htext, List.cons_append], ?_⟩, hbegins.nonempty, hbegins.free, hbegins.ends⟩
      exact List.forall_mem_cons.mpr ⟨hc, hlead⟩
    · -- the run goes on up to the next separator
      let more := cs.takeWhile fun d => !isSeparator d
      let rest := cs.dropWhile fun d => !isSeparator d
      have hsplit : more ++ rest = cs := List.takeWhile_append_dropWhile
      refine ⟨c :: more, rest, ⟨[], by rw [← hsplit]; rfl, by simp⟩, List.cons_ne_nil c more, ?_, ?_⟩
      · rw [List.forall_mem_cons]
        refine ⟨by simpa using hc, fun d hd => ?_⟩
        simpa using List.mem_takeWhile_imp hd
      · intro d hd
        have hhead := List.head?_dropWhile_not (fun d => !isSeparator d) cs
        rw [hd] at hhead
        simpa using hhead

/-- A text with a first run begins with it, and the others are the runs of the rest. -/
lemma runs_eq_cons {others : List (List Char)} :
    runs isSeparator cs = run :: others ↔
      ∃ rest, BeginsWithRun isSeparator cs run rest ∧ runs isSeparator rest = others := by
  constructor
  · intro h
    obtain ⟨first, rest, hbegins⟩ := exists_beginsWithRun (by rw [h]; exact List.cons_ne_nil run others)
    rw [hbegins.runs_eq] at h
    obtain ⟨rfl, hothers⟩ := List.cons.inj h
    exact ⟨rest, hbegins, hothers⟩
  · rintro ⟨rest, hbegins, rfl⟩
    exact hbegins.runs_eq

end Runs

/-! ### Words -/

/-- The line has some word and then this one. -/
def HasSecondWord (line word : List Char) : Prop :=
  ∃ first rest rest', BeginsWithRun isBlank line first rest ∧ BeginsWithRun isBlank rest word rest'

lemma runs_eq_second {line word : List Char} : (runs isBlank line)[1]? = some word ↔ HasSecondWord line word := by
  constructor
  · intro h
    cases hruns : runs isBlank line with
    | nil =>
      rw [hruns] at h
      cases h
    | cons first others =>
      cases others with
      | nil =>
        rw [hruns] at h
        cases h
      | cons second others =>
        rw [hruns] at h
        obtain rfl : second = word := Option.some.inj h
        obtain ⟨rest, hfirst, hothers⟩ := runs_eq_cons.mp hruns
        obtain ⟨rest', hsecond, _⟩ := runs_eq_cons.mp hothers
        exact ⟨first, rest, rest', hfirst, hsecond⟩
  · rintro ⟨first, rest, rest', hfirst, hsecond⟩
    rw [hfirst.runs_eq, hsecond.runs_eq]
    rfl

lemma words_eq_second {line word : String} :
    (words line)[1]? = some word ↔ HasSecondWord line.toList word.toList := by
  rw [← runs_eq_second, words, List.getElem?_map]
  constructor
  · intro h
    obtain ⟨run, hrun, rfl⟩ := Option.map_eq_some_iff.mp h
    rw [String.toList_ofList]
    exact hrun
  · intro h
    rw [h, Option.map_some, String.ofList_toList]

end CrossBuild.Proofs
