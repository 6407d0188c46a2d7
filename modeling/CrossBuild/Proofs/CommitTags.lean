import CrossBuild.Directive.CommitTag
import Mathlib.Data.Char
import Mathlib.Data.List.Infix
import Mathlib.Data.List.TakeWhile
import Mathlib.Data.Nat.Find
import Mathlib.Order.Basic
import Mathlib.Tactic.Lemma

/-!
# Tags in commit messages

A tag is looked for by matching a pattern at one start after another, and in a match each run is the longest
after which the rest still matches. What comes of it can be told without a search: the tag stands between
the first opener whose line goes on to a closing bracket and the last closing bracket of that line.
-/

namespace CrossBuild.Proofs
open Text

/-! ### What the items of a pattern take -/

section Items

variable {α : Type} {atom : PatternAtom} {goOn? : List Char → Option α} {items : List PatternItem} {c : Char}
  {cs : List Char}

lemma longestRun?_eq_none : Pattern.longestRun? atom goOn? cs = none ↔
    ∀ run rest, cs = run ++ rest → (∀ c ∈ run, atom.accepts c = true) → goOn? rest = none := by
  induction cs with
  | nil =>
    simp only [Pattern.longestRun?, Option.map_eq_none_iff]
    constructor
    · rintro h run rest hsplit _
      obtain ⟨_, rfl⟩ := List.append_eq_nil_iff.mp hsplit.symm
      exact h
    · intro h
      exact h [] [] rfl (by simp)
  | cons c cs ih =>
    have hlonger : (if atom.accepts c then Pattern.longestRun? atom goOn? cs else none) = none ↔
        ∀ run rest, cs = run ++ rest → (∀ d ∈ c :: run, atom.accepts d = true) → goOn? rest = none := by
      simp only [List.forall_mem_cons]
      split
      · rename_i haccepts
        rw [ih]
        exact ⟨fun h run rest hsplit hrun => h run rest hsplit hrun.2,
          fun h run rest hsplit hrun => h run rest hsplit ⟨haccepts, hrun⟩⟩
      · rename_i hrefuses
        exact ⟨fun _ _ _ _ hrun => absurd hrun.1 hrefuses, fun _ => rfl⟩
    rw [Pattern.longestRun?]
    constructor
    · intro h
      split at h
      · cases h
      · rename_i hnone
        rintro run rest hsplit hrun
        cases run with
        | nil =>
          rw [List.nil_append] at hsplit
          rw [← hsplit]
          simpa using h
        | cons d run =>
          obtain ⟨rfl, rfl⟩ := List.cons.inj hsplit
          exact hlonger.mp hnone run rest rfl hrun
    · intro h
      have hnone := hlonger.mpr fun run rest hsplit hrun => h (c :: run) rest (by rw [hsplit, List.cons_append]) hrun
      rw [hnone, h [] (c :: cs) rfl (by simp)]
      rfl

/-- The longest run after which something goes on is the one that is taken. -/
lemma longestRun?_of_longest {run rest : List Char} {found : α} (hrun : ∀ c ∈ run, atom.accepts c = true)
    (hfound : goOn? rest = some found)
    (hlongest : ∀ more rest', rest = more ++ rest' → more ≠ [] → (∀ c ∈ more, atom.accepts c = true) →
      goOn? rest' = none) :
    Pattern.longestRun? atom goOn? (run ++ rest) = some (run, found) := by
  induction run with
  | nil =>
    rw [List.nil_append]
    cases rest with
    | nil => rw [Pattern.longestRun?, hfound, Option.map_some]
    | cons c rest =>
      have hnone : (if atom.accepts c then Pattern.longestRun? atom goOn? rest else none) = none := by
        split
        · rename_i haccepts
          refine longestRun?_eq_none.mpr fun more rest' hsplit hmore => ?_
          exact hlongest (c :: more) rest' (by rw [hsplit, List.cons_append]) (List.cons_ne_nil c more)
            (List.forall_mem_cons.mpr ⟨haccepts, hmore⟩)
        · rfl
      rw [Pattern.longestRun?, hnone]
      simp only [hfound, Option.map_some]
  | cons c run ih =>
    rw [List.forall_mem_cons] at hrun
    rw [List.cons_append, Pattern.longestRun?, if_pos hrun.1, ih hrun.2]

lemma taken?_run (atom : PatternAtom) (items : List PatternItem) (cs : List Char) :
    Pattern.taken? (⟨atom, true⟩ :: items) cs =
      (Pattern.longestRun? atom (Pattern.taken? items) cs).map fun (run, others) => run :: others := by
  rw [Pattern.taken?.eq_def]
  rfl

lemma taken?_run_eq_none : Pattern.taken? (⟨atom, true⟩ :: items) cs = none ↔
    ∀ run rest, cs = run ++ rest → (∀ c ∈ run, atom.accepts c = true) → Pattern.taken? items rest = none := by
  rw [taken?_run, Option.map_eq_none_iff, longestRun?_eq_none]

lemma taken?_char (c : Char) (items : List PatternItem) (cs : List Char) :
    Pattern.taken? (⟨.one c, false⟩ :: items) (c :: cs) = (Pattern.taken? items cs).map ([c] :: ·) := by
  simp [Pattern.taken?, PatternAtom.accepts]

lemma taken?_char_eq_none : Pattern.taken? (⟨.one c, false⟩ :: items) cs = none ↔
    ∀ rest, cs = c :: rest → Pattern.taken? items rest = none := by
  cases cs with
  | nil => simp [Pattern.taken?]
  | cons d cs =>
    rw [Pattern.taken?, if_neg Bool.false_ne_true]
    simp only [PatternAtom.accepts, beq_iff_eq]
    split
    · rename_i heq
      rw [Option.map_eq_none_iff, heq]
      exact ⟨fun h rest hrest => (List.cons.inj hrest).2 ▸ h, fun h => h cs rfl⟩
    · rename_i hne
      exact ⟨fun _ rest hrest => absurd (List.cons.inj hrest).1 hne, fun _ => rfl⟩

lemma firstTaken?_eq_none : Pattern.firstTaken? items cs = none ↔
    ∀ before rest, cs = before ++ rest → Pattern.taken? items rest = none := by
  induction cs with
  | nil =>
    rw [Pattern.firstTaken?]
    constructor
    · intro h before rest hsplit
      obtain ⟨_, rfl⟩ := List.append_eq_nil_iff.mp hsplit.symm
      exact h
    · intro h
      exact h [] [] rfl
  | cons c cs ih =>
    rw [Pattern.firstTaken?]
    constructor
    · intro h before rest hsplit
      split at h
      · cases h
      · rename_i hnone
        cases before with
        | nil =>
          rw [List.nil_append] at hsplit
          rw [← hsplit]
          exact hnone
        | cons d before => exact ih.mp h before rest (List.cons.inj hsplit).2
    · intro h
      rw [h [] (c :: cs) rfl]
      exact ih.mpr fun before rest hsplit => h (c :: before) rest (by rw [hsplit, List.cons_append])

/-- What is taken at the first place where the items match is what is found. -/
lemma firstTaken?_of_first {before rest : List Char} {found : List (List Char)}
    (hfound : Pattern.taken? items rest = some found)
    (hfirst : ∀ front back, before = front ++ back → back ≠ [] → Pattern.taken? items (back ++ rest) = none) :
    Pattern.firstTaken? items (before ++ rest) = some found := by
  induction before with
  | nil =>
    rw [List.nil_append]
    cases rest with
    | nil => rw [Pattern.firstTaken?, hfound]
    | cons c rest => rw [Pattern.firstTaken?, hfound]
  | cons c before ih =>
    have hhere := hfirst [] (c :: before) rfl (List.cons_ne_nil c before)
    rw [List.cons_append] at hhere ⊢
    rw [Pattern.firstTaken?, hhere]
    exact ih fun front back hsplit => hfirst (c :: front) back (by rw [hsplit, List.cons_append])

end Items

/-! ### Openers and lines -/

/-- A bracket, any number of spaces and `ci` with one space after it. -/
def IsOpener (opener : List Char) : Prop :=
  ∃ spaces, opener = '[' :: (List.replicate spaces ' ' ++ ['c', 'i', ' '])

/-- A text up to the end of its first line. -/
def restOfLine (cs : List Char) : List Char := cs.takeWhile (· != '\n')

lemma mem_restOfLine {c : Char} (hc : c ≠ '\n') {cs : List Char} :
    c ∈ restOfLine cs ↔ ∃ front back, cs = front ++ c :: back ∧ '\n' ∉ front := by
  have hline : ∀ d ∈ restOfLine cs, d ≠ '\n' := fun d hd => by simpa using List.mem_takeWhile_imp hd
  constructor
  · intro h
    obtain ⟨front, back, hsplit⟩ := List.append_of_mem h
    obtain ⟨others, hothers⟩ : restOfLine cs <+: cs := List.takeWhile_prefix _
    refine ⟨front, back ++ others, ?_, fun hbreak => hline '\n' ?_ rfl⟩
    · rw [← hothers, hsplit, List.append_assoc, List.cons_append]
    · rw [hsplit]
      exact List.mem_append_left _ hbreak
  · rintro ⟨front, back, rfl, hfront⟩
    have hkept : ∀ d ∈ front, (d != '\n') = true := by
      intro d hd
      rw [bne_iff_ne]
      rintro rfl
      exact hfront hd
    rw [restOfLine, List.takeWhile_append_of_pos hkept, List.takeWhile_cons_of_pos (by simpa using hc)]
    exact List.mem_append_right _ List.mem_cons_self

/-- A line with a closing bracket has a last one. -/
lemma exists_lastClosing {cs : List Char} (h : ']' ∈ restOfLine cs) :
    ∃ text after, cs = text ++ ']' :: after ∧ '\n' ∉ text ∧ ']' ∉ restOfLine after := by
  induction cs with
  | nil => cases h
  | cons c cs ih =>
    by_cases hrest : ']' ∈ restOfLine cs ∧ c ≠ '\n'
    · obtain ⟨text, after, rfl, htext, hlast⟩ := ih hrest.1
      refine ⟨c :: text, after, rfl, ?_, hlast⟩
      rw [List.mem_cons, not_or]
      exact ⟨Ne.symm hrest.2, htext⟩
    · obtain ⟨front, back, hsplit, hfront⟩ := (mem_restOfLine (by decide)).mp h
      cases front with
      | nil =>
        obtain ⟨rfl, rfl⟩ := List.cons.inj hsplit
        exact ⟨[], cs, rfl, by simp, fun hclosing => hrest ⟨hclosing, by decide⟩⟩
      | cons d front =>
        obtain ⟨rfl, rfl⟩ := List.cons.inj hsplit
        rw [List.mem_cons, not_or] at hfront
        exact (hrest ⟨(mem_restOfLine (by decide)).mpr ⟨front, back, rfl, hfront.2⟩, Ne.symm hfront.1⟩).elim

/-! ### The parts of a tag -/

section Parts

variable {opener rest text after : List Char}

lemma accepts_space {c : Char} : (PatternAtom.one ' ').accepts c = true ↔ c = ' ' := by
  simp [PatternAtom.accepts]

lemma accepts_tag {c : Char} : CommitTag.tag.atom.accepts c = true ↔ c ≠ '\n' := by
  simp [CommitTag.tag, PatternAtom.accepts]

/-- What ends a tag is a closing bracket on its line. -/
lemma closing_mem (h : Pattern.taken? CommitTag.closing rest ≠ none) : ']' ∈ restOfLine rest := by
  by_contra hnone
  refine h (taken?_run_eq_none.mpr fun run rest' hsplit hrun => taken?_char_eq_none.mpr ?_)
  rintro after rfl
  refine (hnone ((mem_restOfLine (by decide)).mpr ⟨run, after, hsplit, fun hbreak => ?_⟩)).elim
  exact absurd (accepts_space.mp (hrun _ hbreak)) (by decide)

lemma taken?_closing (after : List Char) : Pattern.taken? CommitTag.closing (']' :: after) = some [[], [']']] := by
  have hrun : Pattern.longestRun? (.one ' ') (Pattern.taken? [⟨.one ']', false⟩]) ([] ++ ']' :: after) =
      some ([], [[']']]) := by
    refine longestRun?_of_longest (by simp) (by rw [taken?_char, Pattern.taken?, Option.map_some]) ?_
    intro more rest' hsplit hne hmore
    obtain ⟨c, more, rfl⟩ := List.exists_cons_of_ne_nil hne
    obtain ⟨rfl, _⟩ := List.cons.inj hsplit
    exact absurd (accepts_space.mp (hmore ']' List.mem_cons_self)) (by decide)
  rw [List.nil_append] at hrun
  rw [CommitTag.closing, taken?_run, hrun, Option.map_some]

/-- After an opener all is taken up to the last closing bracket of the line. -/
lemma taken?_tag (htext : '\n' ∉ text) (hlast : ']' ∉ restOfLine after) :
    Pattern.taken? (CommitTag.tag :: CommitTag.closing) (text ++ ']' :: after) = some [text, [], [']']] := by
  have hrun : Pattern.longestRun? CommitTag.tag.atom (Pattern.taken? CommitTag.closing) (text ++ ']' :: after) =
      some (text, [[], [']']]) := by
    refine longestRun?_of_longest (fun c hc => accepts_tag.mpr fun hbreak => htext (hbreak ▸ hc))
      (taken?_closing after) ?_
    intro more rest' hsplit hne hmore
    by_contra hcloses
    -- a longer run would lead over the last closing bracket to another one
    obtain ⟨c, more, rfl⟩ := List.exists_cons_of_ne_nil hne
    obtain ⟨_, rfl⟩ := List.cons.inj hsplit
    obtain ⟨front, back, rfl, hfront⟩ := (mem_restOfLine (by decide)).mp (closing_mem hcloses)
    refine hlast ((mem_restOfLine (by decide)).mpr ⟨more ++ front, back, by simp, fun hbreak => ?_⟩)
    rcases List.mem_append.mp hbreak with hbreak | hbreak
    · exact accepts_tag.mp (hmore '\n' (List.mem_cons_of_mem _ hbreak)) rfl
    · exact hfront hbreak
  rw [CommitTag.tag, taken?_run]
  rw [CommitTag.tag] at hrun
  rw [hrun, Option.map_some]

lemma taken?_tag_eq_none :
    Pattern.taken? (CommitTag.tag :: CommitTag.closing) rest = none ↔ ']' ∉ restOfLine rest := by
  constructor
  · intro h hmem
    obtain ⟨text, after, rfl, htext, hlast⟩ := exists_lastClosing hmem
    rw [taken?_tag htext hlast] at h
    cases h
  · intro hnone
    refine taken?_run_eq_none.mpr fun run rest' hsplit hrun => ?_
    by_contra hcloses
    obtain ⟨front, back, rfl, hfront⟩ := (mem_restOfLine (by decide)).mp (closing_mem hcloses)
    refine hnone ((mem_restOfLine (by decide)).mpr ⟨run ++ front, back, by simp [hsplit], fun hbreak => ?_⟩)
    rcases List.mem_append.mp hbreak with hbreak | hbreak
    · exact accepts_tag.mp (hrun '\n' hbreak) rfl
    · exact hfront hbreak

/-- The items before the tag take an opener. -/
lemma taken?_opening (hopener : IsOpener opener) {items : List PatternItem} {found : List (List Char)}
    (hfound : Pattern.taken? items rest = some found) : ∃ front, front.length = CommitTag.opening.length ∧
      Pattern.taken? (CommitTag.opening ++ items) (opener ++ rest) = some (front ++ found) := by
  obtain ⟨spaces, rfl⟩ := hopener
  refine ⟨[['['], List.replicate spaces ' ', ['c'], ['i'], [' ']], rfl, ?_⟩
  simp only [CommitTag.opening, List.cons_append, List.nil_append, List.append_assoc]
  have hletters : Pattern.taken? (⟨.one 'c', false⟩ :: ⟨.one 'i', false⟩ :: ⟨.one ' ', false⟩ :: items)
      ('c' :: 'i' :: ' ' :: rest) = some (['c'] :: ['i'] :: [' '] :: found) := by
    simp only [taken?_char, hfound, Option.map_some]
  rw [taken?_char, taken?_run,
    longestRun?_of_longest (fun c hc => accepts_space.mpr (List.eq_of_mem_replicate hc)) hletters]
  · rfl
  · intro more rest' hsplit hne hmore
    obtain ⟨c, more, rfl⟩ := List.exists_cons_of_ne_nil hne
    obtain ⟨rfl, _⟩ := List.cons.inj hsplit
    exact absurd (accepts_space.mp (hmore 'c' List.mem_cons_self)) (by decide)

lemma taken?_opening_eq_none {items : List PatternItem} {cs : List Char} :
    Pattern.taken? (CommitTag.opening ++ items) cs = none ↔
      ∀ opener rest, IsOpener opener → cs = opener ++ rest → Pattern.taken? items rest = none := by
  constructor
  · rintro h opener rest hopener rfl
    by_contra hsome
    obtain ⟨found, hfound⟩ := Option.ne_none_iff_exists'.mp hsome
    obtain ⟨_, _, htaken⟩ := taken?_opening hopener hfound
    rw [htaken] at h
    cases h
  · intro h
    simp only [CommitTag.opening, List.cons_append, List.nil_append, taken?_char_eq_none, taken?_run_eq_none]
    rintro _ rfl run _ rfl hrun _ rfl _ rfl rest rfl
    have hspaces : run = List.replicate run.length ' ' :=
      List.eq_replicate_of_mem fun c hc => accepts_space.mp (hrun c hc)
    refine h ('[' :: (run ++ ['c', 'i', ' '])) rest ⟨run.length, by rw [← hspaces]⟩ (by simp)

end Parts

/-! ### Tags -/

/-- An opener in a message whose line goes on to a closing bracket. -/
structure IsViable (message before opener rest : List Char) : Prop where
  text : message = before ++ (opener ++ rest)
  opener : IsOpener opener
  closed : ']' ∈ restOfLine rest

/-- The first such opener. -/
structure IsFirstViable (message before opener rest : List Char) : Prop
    extends IsViable message before opener rest where
  first : ∀ before' opener' rest', IsViable message before' opener' rest' → before.length ≤ before'.length

/-- A text is what is left of another one when blank characters at either end are taken away. -/
structure IsTrimmedFrom (text trimmed : List Char) : Prop where
  split : ∃ front back, text = front ++ (trimmed ++ back) ∧ (∀ c ∈ front, isBlank c = true) ∧
    ∀ c ∈ back, isBlank c = true
  first : ∀ c, trimmed.head? = some c → isBlank c = false
  last : ∀ c, trimmed.getLast? = some c → isBlank c = false

section Tags

variable {message before opener rest text after : List Char}

lemma exists_firstViable (h : IsViable message before opener rest) :
    ∃ before opener rest, IsFirstViable message before opener rest := by
  classical
  have hexists : ∃ n before opener rest, IsViable message before opener rest ∧ before.length = n :=
    ⟨before.length, before, opener, rest, h, rfl⟩
  obtain ⟨before, opener, rest, hviable, hlength⟩ := Nat.find_spec hexists
  refine ⟨before, opener, rest, hviable, fun before' opener' rest' hother => ?_⟩
  rw [hlength]
  exact Nat.find_min' hexists ⟨before', opener', rest', hother, rfl⟩

lemma taken?_eq_none_iff {cs : List Char} :
    Pattern.taken? (CommitTag.opening ++ CommitTag.tag :: CommitTag.closing) cs = none ↔
      ∀ opener rest, IsOpener opener → cs = opener ++ rest → ']' ∉ restOfLine rest := by
  simp only [taken?_opening_eq_none, taken?_tag_eq_none]

/-- The tag of the first viable opener stands before the last closing bracket of its line. -/
lemma find?_of_firstViable (h : IsFirstViable message before opener (text ++ ']' :: after)) (htext : '\n' ∉ text)
    (hlast : ']' ∉ restOfLine after) : CommitTag.find? message = some text := by
  obtain ⟨front, hlength, htaken⟩ := taken?_opening h.opener (taken?_tag htext hlast)
  have hfound : Pattern.firstTaken? (CommitTag.opening ++ CommitTag.tag :: CommitTag.closing)
      (before ++ (opener ++ (text ++ ']' :: after))) = some (front ++ [text, [], [']']]) := by
    refine firstTaken?_of_first htaken fun before' back hsplit hne => ?_
    refine taken?_eq_none_iff.mpr fun opener' rest' hopener' hcs hclosed => ?_
    have hmin := h.first before' opener' rest' ⟨by rw [h.text, hsplit, List.append_assoc, hcs], hopener', hclosed⟩
    have hpos := List.length_pos_iff.mpr hne
    rw [hsplit, List.length_append] at hmin
    omega
  rw [CommitTag.find?, h.text, hfound, Option.bind_some, ← hlength]
  simp

lemma find?_eq_none : CommitTag.find? message = none ↔
    ∀ before opener rest, ¬IsViable message before opener rest := by
  constructor
  · intro hnone before opener rest hviable
    obtain ⟨before, opener, rest, hfirst⟩ := exists_firstViable hviable
    obtain ⟨text, after, rfl, htext, hlast⟩ := exists_lastClosing hfirst.closed
    rw [find?_of_firstViable hfirst htext hlast] at hnone
    cases hnone
  · intro h
    have hnone : Pattern.firstTaken? (CommitTag.opening ++ CommitTag.tag :: CommitTag.closing) message = none := by
      simp only [firstTaken?_eq_none, taken?_eq_none_iff]
      rintro before _ hsplit opener rest hopener rfl hclosed
      exact h before opener rest ⟨hsplit, hopener, hclosed⟩
    rw [CommitTag.find?, hnone, Option.bind_none]

lemma isTrimmedFrom_trimmed (text : List Char) : IsTrimmedFrom text (trimmed text) := by
  have hfront := List.takeWhile_append_dropWhile (p := isBlank) (l := text)
  have hback := List.takeWhile_append_dropWhile (p := isBlank) (l := (text.dropWhile isBlank).reverse)
  have hsplit : trimmed text ++ ((text.dropWhile isBlank).reverse.takeWhile isBlank).reverse =
      text.dropWhile isBlank := by
    rw [trimmed, dropBlankEnd, ← List.reverse_append, hback, List.reverse_reverse]
  constructor
  case split =>
    refine ⟨text.takeWhile isBlank, ((text.dropWhile isBlank).reverse.takeWhile isBlank).reverse, ?_, ?_, ?_⟩
    · rw [hsplit, hfront]
    · exact fun c hc => List.mem_takeWhile_imp hc
    · exact fun c hc => List.mem_takeWhile_imp (List.mem_reverse.mp hc)
  case first =>
    intro c hc
    have hhead : (text.dropWhile isBlank).head? = some c := by
      rw [← hsplit, List.head?_append, hc, Option.some_or]
    have hnot := List.head?_dropWhile_not isBlank text
    rw [hhead] at hnot
    simpa using hnot
  case last =>
    intro c hc
    rw [trimmed, dropBlankEnd, List.getLast?_reverse] at hc
    have hnot := List.head?_dropWhile_not isBlank (text.dropWhile isBlank).reverse
    rw [hc] at hnot
    simpa using hnot

/-- What starts with no blank character starts there also after blank ones. -/
lemma dropWhile_isBlank {front cs : List Char} (hfront : ∀ c ∈ front, isBlank c = true)
    (hhead : ∀ c, cs.head? = some c → isBlank c = false) : (front ++ cs).dropWhile isBlank = cs := by
  rw [List.dropWhile_append_of_pos hfront]
  cases cs with
  | nil => rfl
  | cons c cs => exact List.dropWhile_cons_of_neg (by simp [hhead c rfl])

lemma IsTrimmedFrom.eq_trimmed {text kept : List Char} (h : IsTrimmedFrom text kept) : trimmed text = kept := by
  obtain ⟨front, back, rfl, hfront, hback⟩ := h.split
  have hbackReversed : ∀ c ∈ back.reverse, isBlank c = true := fun c hc => hback c (List.mem_reverse.mp hc)
  cases kept with
  | nil =>
    have hall : (front ++ ([] ++ back)).dropWhile isBlank = [] := by
      refine List.dropWhile_eq_nil_iff.mpr fun c hc => ?_
      exact (List.mem_append.mp hc).elim (hfront c) (hback c)
    rw [trimmed, hall]
    rfl
  | cons c kept =>
    have hstart : (front ++ (c :: kept ++ back)).dropWhile isBlank = c :: kept ++ back := by
      refine dropWhile_isBlank hfront fun d hd => h.first d ?_
      simpa using hd
    have hend : (back.reverse ++ (c :: kept).reverse).dropWhile isBlank = (c :: kept).reverse := by
      refine dropWhile_isBlank hbackReversed fun d hd => h.last d ?_
      rwa [← List.head?_reverse]
    rw [trimmed, dropBlankEnd, hstart, List.reverse_append, hend, List.reverse_reverse]

/-- What a message has as its tag: nothing if no opener is viable, and else the text from the end of the first
viable one to the last closing bracket of its line, without blank characters at either end. -/
theorem commitTag_meaning (message : String) :
    (CommitTag.ofMessage? message = none ↔ ∀ before opener rest, ¬IsViable message.toList before opener rest) ∧
      (∀ found, CommitTag.ofMessage? message = some found ↔ ∃ before opener text after,
        IsFirstViable message.toList before opener (text ++ ']' :: after) ∧ '\n' ∉ text ∧ ']' ∉ restOfLine after ∧
          IsTrimmedFrom text found.toList) ∧
      ∀ found ∈ CommitTag.ofMessage? message, '\n' ∉ found.toList := by
  have htag : ∀ found, CommitTag.ofMessage? message = some found ↔ ∃ before opener text after,
      IsFirstViable message.toList before opener (text ++ ']' :: after) ∧ '\n' ∉ text ∧ ']' ∉ restOfLine after ∧
        IsTrimmedFrom text found.toList := by
    intro found
    constructor
    · intro h
      have hviable : ∃ before opener rest, IsViable message.toList before opener rest := by
        by_contra hnone
        rw [CommitTag.ofMessage?, find?_eq_none.mpr (by simpa using hnone)] at h
        cases h
      obtain ⟨before, opener, rest, hviable⟩ := hviable
      obtain ⟨before, opener, rest, hfirst⟩ := exists_firstViable hviable
      obtain ⟨text, after, rfl, htext, hlast⟩ := exists_lastClosing hfirst.closed
      rw [CommitTag.ofMessage?, find?_of_firstViable hfirst htext hlast, Option.map_some, Option.some_inj] at h
      rw [← h, String.toList_ofList]
      exact ⟨before, opener, text, after, hfirst, htext, hlast, isTrimmedFrom_trimmed text⟩
    · rintro ⟨before, opener, text, after, hfirst, htext, hlast, htrimmed⟩
      rw [CommitTag.ofMessage?, find?_of_firstViable hfirst htext hlast, Option.map_some, htrimmed.eq_trimmed,
        String.ofList_toList]
  refine ⟨?_, htag, ?_⟩
  · rw [CommitTag.ofMessage?, Option.map_eq_none_iff, find?_eq_none]
  · intro found hfound hbreak
    obtain ⟨_, _, text, _, _, htext, _, htrimmed⟩ := (htag found).mp hfound
    obtain ⟨front, back, rfl, _⟩ := htrimmed.split
    exact htext (by simp [hbreak])

/-- An opener without a closing bracket on its line does not hide a later one, and the last bracket of the
line ends the tag. -/
example : CommitTag.ofMessage? "see [ci #7\n[  ci zed:linux ] [skip]\n[ci none]" = some "zed:linux ] [skip" := by
  decide +kernel

end Tags

end CrossBuild.Proofs
