import CrossBuild.Text.Wildcard
import Mathlib.Data.List.Infix
import Mathlib.Tactic.Lemma

/-!
# What glob patterns match

`Matches` says what a pattern means, one constructor for each kind of character. The test that runs
keeps a list of remainders, each a suffix of the one before; `isMatch_iff` shows that it decides
`Matches`, and the rest of the file takes patterns apart at their pieces.
-/

namespace CrossBuild.Proofs
open Text.Wildcard

/-- A star stands for any run of characters, a question mark for one, all else for itself. -/
inductive Matches : List Char → List Char → Prop where
  | nil : Matches [] []
  | star {pattern text : List Char} (run : List Char) (h : Matches pattern text) :
      Matches ('*' :: pattern) (run ++ text)
  | any {pattern text : List Char} (c : Char) (h : Matches pattern text) :
      Matches ('?' :: pattern) (c :: text)
  | char {pattern text : List Char} (c : Char) (hstar : c ≠ '*') (hany : c ≠ '?')
      (h : Matches pattern text) : Matches (c :: pattern) (c :: text)

/-- Texts of which each is a suffix of all before it. -/
def Narrowing (texts : List (List Char)) : Prop := texts.Pairwise (fun a b => b <:+ a)

lemma mem_suffixes (text rest : List Char) : rest ∈ suffixes text ↔ rest <:+ text := by
  induction text with
  | nil => simp [suffixes]
  | cons c text ih => rw [suffixes, List.mem_cons, ih, List.suffix_cons_iff]

lemma narrowing_suffixes (text : List Char) : Narrowing (suffixes text) := by
  induction text with
  | nil => simp [suffixes, Narrowing]
  | cons c text ih =>
    refine List.pairwise_cons.mpr ⟨fun rest hrest => ?_, ih⟩
    exact ((mem_suffixes text rest).mp hrest).trans (List.suffix_cons c text)

lemma narrowing_filterMap {texts : List (List Char)} (f : List Char → Option (List Char))
    (hf : ∀ a b a' b', b <:+ a → f a = some a' → f b = some b' → b' <:+ a') (h : Narrowing texts) :
    Narrowing (texts.filterMap f) := by
  unfold Narrowing at *
  rw [List.pairwise_filterMap]
  exact h.imp (fun hba a' ha b' hb => hf _ _ a' b' hba ha hb)

lemma dropChar?_eq_some (c : Char) (text rest : List Char) :
    dropChar? c text = some rest ↔ text = c :: rest := by
  cases text with
  | nil => simp [dropChar?]
  | cons d text =>
    by_cases hcd : c = d
    · simp [dropChar?, hcd]
    · simp [dropChar?, hcd, Ne.symm hcd]

/-- The sign stands for the character, unless it is a star. -/
def StandsFor (sign c : Char) : Prop := sign = '?' ∨ c = sign

/-- A text without its first character, if the sign stands for that. -/
def dropFor? (sign : Char) : List Char → Option (List Char) :=
  if sign = '?' then List.tail? else dropChar? sign

lemma dropFor?_eq_some (sign : Char) (text rest : List Char) :
    dropFor? sign text = some rest ↔ ∃ c, text = c :: rest ∧ StandsFor sign c := by
  by_cases hany : sign = '?'
  · cases text with
    | nil => simp [dropFor?, hany]
    | cons c text => simp [dropFor?, StandsFor, hany]
  · simp [dropFor?, StandsFor, hany, dropChar?_eq_some]

lemma dropFor?_suffix (sign : Char) (a b a' b' : List Char) (hba : b <:+ a)
    (ha : dropFor? sign a = some a') (hb : dropFor? sign b = some b') : b' <:+ a' := by
  obtain ⟨c, rfl, _⟩ := (dropFor?_eq_some _ _ _).mp ha
  obtain ⟨d, rfl, _⟩ := (dropFor?_eq_some _ _ _).mp hb
  rcases List.suffix_cons_iff.mp hba with heq | hsuf
  · rw [(List.cons.inj heq).2]
  · exact (List.suffix_cons d b').trans hsuf

/-! ### Patterns piece by piece -/

lemma matches_star {pattern text : List Char} :
    Matches ('*' :: pattern) text ↔ ∃ run rest, text = run ++ rest ∧ Matches pattern rest := by
  constructor
  · intro h
    cases h with
    | star run h => exact ⟨run, _, rfl, h⟩
    | char _ hstar => exact (hstar rfl).elim
  · rintro ⟨run, rest, rfl, h⟩
    exact .star run h

lemma matches_any {pattern text : List Char} :
    Matches ('?' :: pattern) text ↔ ∃ c rest, text = c :: rest ∧ Matches pattern rest := by
  constructor
  · intro h
    cases h with
    | any c h => exact ⟨c, _, rfl, h⟩
    | char _ _ hany => exact (hany rfl).elim
  · rintro ⟨c, rest, rfl, h⟩
    exact .any c h

lemma matches_char {c : Char} {pattern text : List Char} (hstar : c ≠ '*') (hany : c ≠ '?') :
    Matches (c :: pattern) text ↔ ∃ rest, text = c :: rest ∧ Matches pattern rest := by
  constructor
  · intro h
    cases h with
    | star => exact (hstar rfl).elim
    | any => exact (hany rfl).elim
    | char _ _ _ h => exact ⟨_, rfl, h⟩
  · rintro ⟨rest, rfl, h⟩
    exact .char c hstar hany h

lemma matches_one {sign : Char} {pattern text : List Char} (hstar : sign ≠ '*') :
    Matches (sign :: pattern) text ↔
      ∃ c rest, text = c :: rest ∧ StandsFor sign c ∧ Matches pattern rest := by
  by_cases hany : sign = '?'
  · subst hany
    simp [matches_any, StandsFor]
  · simp [matches_char hstar hany, StandsFor, hany]

lemma matches_append {pattern pattern' text : List Char} :
    Matches (pattern ++ pattern') text ↔
      ∃ front rest, text = front ++ rest ∧ Matches pattern front ∧ Matches pattern' rest := by
  induction pattern generalizing text with
  | nil =>
    constructor
    · exact fun h => ⟨[], text, rfl, .nil, h⟩
    · rintro ⟨front, rest, rfl, hfront, h⟩
      cases hfront
      exact h
  | cons sign pattern ih =>
    rw [List.cons_append]
    by_cases hstar : sign = '*'
    · subst hstar
      simp only [matches_star, ih]
      constructor
      · rintro ⟨run, _, rfl, front, rest, rfl, hfront, hrest⟩
        exact ⟨run ++ front, rest, by simp, ⟨run, front, rfl, hfront⟩, hrest⟩
      · rintro ⟨_, rest, rfl, ⟨run, front, rfl, hfront⟩, hrest⟩
        exact ⟨run, front ++ rest, by simp, front, rest, rfl, hfront, hrest⟩
    · simp only [matches_one hstar, ih]
      constructor
      · rintro ⟨c, _, rfl, hc, front, rest, rfl, hfront, hrest⟩
        exact ⟨c :: front, rest, rfl, ⟨c, front, rfl, hc, hfront⟩, hrest⟩
      · rintro ⟨_, rest, rfl, ⟨c, front, rfl, hc, hfront⟩, hrest⟩
        exact ⟨c, front ++ rest, rfl, hc, front, rest, rfl, hfront, hrest⟩

/-- Every text matches itself when it is read as a pattern, whatever characters it has. -/
lemma matches_self (text : List Char) : Matches text text := by
  induction text with
  | nil => exact .nil
  | cons c text ih =>
    by_cases hstar : c = '*'
    · subst hstar
      exact .star ['*'] ih
    · by_cases hany : c = '?'
      · subst hany
        exact .any '?' ih
      · exact .char c hstar hany ih

/-- A text in which no character is special to patterns. -/
def IsLiteral (text : List Char) : Prop := '*' ∉ text ∧ '?' ∉ text

instance (text : List Char) : Decidable (IsLiteral text) :=
  inferInstanceAs (Decidable ('*' ∉ text ∧ '?' ∉ text))

lemma matches_literal {pattern text : List Char} (hp : IsLiteral pattern) :
    Matches pattern text ↔ text = pattern := by
  induction pattern generalizing text with
  | nil =>
    constructor
    · intro h
      cases h
      rfl
    · rintro rfl
      exact .nil
  | cons c pattern ih =>
    obtain ⟨hstar, hany⟩ := hp
    simp only [List.mem_cons, not_or] at hstar hany
    rw [matches_char (Ne.symm hstar.1) (Ne.symm hany.1)]
    simp only [ih ⟨hstar.2, hany.2⟩]
    simp

/-! ### The test decides the meaning -/

/-- What a star leaves of the longest text is what it leaves of all of them, as the others are suffixes
of that one. -/
lemma exists_mem_suffixes {pattern longest : List Char} {texts : List (List Char)}
    (h : Narrowing (longest :: texts)) (rest : List Char) :
    (∃ text ∈ suffixes longest, ∃ front, text = front ++ rest ∧ Matches pattern front) ↔
      ∃ text ∈ longest :: texts, ∃ front, text = front ++ rest ∧ Matches ('*' :: pattern) front := by
  constructor
  · rintro ⟨text, htext, front, rfl, hfront⟩
    obtain ⟨run, hrun⟩ := (mem_suffixes longest _).mp htext
    exact ⟨longest, by simp, run ++ front, by simp [← hrun], .star run hfront⟩
  · rintro ⟨text, htext, front, rfl, hfront⟩
    obtain ⟨run, tail, rfl, htail⟩ := matches_star.mp hfront
    have hsuf : (run ++ tail) ++ rest <:+ longest := by
      rcases List.mem_cons.mp htext with rfl | hmem
      · exact List.suffix_refl _
      · exact (List.pairwise_cons.mp h).1 _ hmem
    have htail' : tail ++ rest <:+ (run ++ tail) ++ rest := ⟨run, by simp⟩
    exact ⟨tail ++ rest, (mem_suffixes _ _).mpr (htail'.trans hsuf), tail, rfl, htail⟩

lemma exists_mem_dropFor? {sign : Char} (hstar : sign ≠ '*') {pattern : List Char}
    {texts : List (List Char)} (rest : List Char) :
    (∃ text ∈ texts.filterMap (dropFor? sign), ∃ front, text = front ++ rest ∧ Matches pattern front) ↔
      ∃ text ∈ texts, ∃ front, text = front ++ rest ∧ Matches (sign :: pattern) front := by
  constructor
  · rintro ⟨text, htext, front, rfl, hfront⟩
    obtain ⟨whole, hwhole, hdrop⟩ := List.mem_filterMap.mp htext
    obtain ⟨c, rfl, hc⟩ := (dropFor?_eq_some _ _ _).mp hdrop
    exact ⟨_, hwhole, c :: front, rfl, (matches_one hstar).mpr ⟨c, front, rfl, hc, hfront⟩⟩
  · rintro ⟨text, htext, front, rfl, hfront⟩
    obtain ⟨c, tail, rfl, hc, htail⟩ := (matches_one hstar).mp hfront
    have hdrop := (dropFor?_eq_some sign (c :: tail ++ rest) (tail ++ rest)).mpr ⟨c, rfl, hc⟩
    exact ⟨tail ++ rest, List.mem_filterMap.mpr ⟨_, htext, hdrop⟩, tail, rfl, htail⟩

lemma remainders_one {sign : Char} (hstar : sign ≠ '*') (pattern : List Char) (texts : List (List Char)) :
    remainders (sign :: pattern) texts = remainders pattern (texts.filterMap (dropFor? sign)) := by
  by_cases hany : sign = '?'
  · simp [remainders, dropFor?, hany]
  · simp [remainders, dropFor?, hstar, hany]

lemma mem_remainders {pattern : List Char} {texts : List (List Char)} (h : Narrowing texts)
    (rest : List Char) :
    rest ∈ remainders pattern texts ↔
      ∃ text ∈ texts, ∃ front, text = front ++ rest ∧ Matches pattern front := by
  induction pattern generalizing texts with
  | nil =>
    simp only [remainders]
    constructor
    · exact fun hrest => ⟨rest, hrest, [], rfl, .nil⟩
    · rintro ⟨text, htext, front, rfl, hfront⟩
      cases hfront
      exact htext
  | cons sign pattern ih =>
    by_cases hstar : sign = '*'
    · subst hstar
      unfold remainders
      rw [if_pos rfl]
      cases texts with
      | nil =>
        rw [ih (by simp [Narrowing])]
        simp
      | cons longest texts =>
        rw [ih (narrowing_suffixes longest)]
        exact exists_mem_suffixes h rest
    · rw [remainders_one hstar, ih (narrowing_filterMap _ (dropFor?_suffix sign) h)]
      exact exists_mem_dropFor? hstar rest

theorem matchesChars_iff (pattern text : List Char) :
    matchesChars pattern text = true ↔ Matches pattern text := by
  unfold matchesChars
  rw [List.contains_iff_mem, mem_remainders (by simp [Narrowing])]
  simp

theorem isMatch_iff (pattern text : String) :
    isMatch pattern text = true ↔ Matches pattern.toList text.toList :=
  matchesChars_iff _ _

end CrossBuild.Proofs
