import CrossBuild.Command.Basic
import CrossBuild.Shell.Token
import Mathlib.Tactic.Lemma

/-!
# Words of a rendered shell line

`arguments?` splits a line as a shell does and refuses every line in which a shell would do more than
split: signs, parameters, and unquoted characters that it gives a meaning to. `arguments?_line` shows
that the words of a rendered line are the words that it was rendered from.
-/

namespace CrossBuild.Proofs
open Shell

/-- The characters that a fragment stands for, if a shell takes them as they are. -/
def fragmentText? : Fragment → Option (List Char)
  | .text cs quoted => if quoted || cs.all isHarmless then some cs else none
  | .parameter _ _ => none

def wordText? : Word → Option (List Char)
  | [] => some []
  | f :: w => do return (← fragmentText? f) ++ (← wordText? w)

def tokenText? : Token → Option String
  | .word w => (wordText? w).map String.ofList
  | _ => none

/-- The words of a line in which a shell finds nothing but words. -/
def arguments? (line : String) : Option (List String) :=
  (tokensOf line).bind (fun tokens => tokens.mapM tokenText?)

/-! ### Harmless characters -/

lemma isHarmless_ne {c d : Char} (hc : isHarmless c = true) (hd : isHarmless d = false) : c ≠ d := by
  intro h
  rw [h, hd] at hc
  exact Bool.false_ne_true hc

lemma endsWord_of_harmless {c : Char} (hc : isHarmless c = true) : endsWord c = false := by
  have hne : ∀ d, isHarmless d = false → c ≠ d := fun d hd => isHarmless_ne hc hd
  simp [endsWord, hne ' ' (by decide), hne '\t' (by decide), hne '\n' (by decide),
    hne ';' (by decide), hne '&' (by decide), hne '|' (by decide), hne '<' (by decide),
    hne '>' (by decide), hne '(' (by decide), hne ')' (by decide)]

/-- What may follow a word: nothing, a blank, or a sign that ends a command. -/
def AfterWord (rest : List Char) : Prop := rest = [] ∨ ∃ c ∈ [' ', ';', ')'], ∃ more, rest = c :: more

lemma afterWord_nil : AfterWord [] := .inl rfl

lemma afterWord_cons {c : Char} (hc : c ∈ [' ', ';', ')']) (more : List Char) : AfterWord (c :: more) :=
  .inr ⟨c, hc, more, rfl⟩

lemma AfterWord.head_mem {c : Char} {more : List Char} (h : AfterWord (c :: more)) :
    c ∈ [' ', ';', ')'] := by
  rcases h with h | ⟨d, hd, _, heq⟩
  · cases h
  · cases heq
    exact hd

lemma AfterWord.endsWord {c : Char} {more : List Char} (h : AfterWord (c :: more)) : endsWord c = true := by
  have hc := h.head_mem
  simp only [List.mem_cons, List.not_mem_nil, or_false] at hc
  rcases hc with rfl | rfl | rfl <;> decide

/-- No redirection follows a word at once, which would make a stream of a number. -/
lemma AfterWord.dropWhile_isDigit {rest : List Char} (h : AfterWord rest) :
    rest.dropWhile Char.isDigit = rest := by
  rcases h with rfl | ⟨c, hc, more, rfl⟩
  · rfl
  · simp only [List.mem_cons, List.not_mem_nil, or_false] at hc
    rcases hc with rfl | rfl | rfl <;> rfl

lemma wordFrom_afterWord {rest : List Char} (h : AfterWord rest) {fuel : Nat} (hf : 0 < fuel) :
    wordFrom fuel rest = some ([], rest) := by
  obtain ⟨fuel, rfl⟩ : ∃ n, fuel = n + 1 := ⟨fuel - 1, by omega⟩
  cases rest with
  | nil => simp [wordFrom]
  | cons c more => simp [wordFrom, h.endsWord]

lemma wordFrom_bare_cons {c : Char} (hc : endsWord c = false) (hq : c ∉ ['\'', '"', '\\', '$'])
    (cs : List Char) (fuel : Nat) :
    wordFrom (fuel + 1) (c :: cs) =
      (wordFrom fuel cs).map (fun (w, rest) => (.text [c] false :: w, rest)) := by
  rw [wordFrom.eq_def]
  simp only [hc, Bool.false_eq_true, if_false]
  split
  · exact (hq (by simp)).elim
  · exact (hq (by simp)).elim
  · exact (hq (by simp)).elim
  · exact (hq (by simp)).elim
  · rfl

lemma notMem_quotes {c : Char} (hc : isHarmless c = true) : c ∉ ['\'', '"', '\\', '$'] := by
  intro hmem
  simp only [List.mem_cons, List.not_mem_nil, or_false] at hmem
  rcases hmem with rfl | rfl | rfl | rfl <;> exact absurd hc (by decide)

/-- A word that stands in a line as it is. -/
def bareWord (cs : List Char) : Word := cs.map fun c => .text [c] false

lemma wordFrom_bareWord {cs rest : List Char}
    (hcs : ∀ c ∈ cs, endsWord c = false ∧ c ∉ ['\'', '"', '\\', '$']) (hr : AfterWord rest) {fuel : Nat}
    (hf : cs.length < fuel) : wordFrom fuel (cs ++ rest) = some (bareWord cs, rest) := by
  induction cs generalizing fuel with
  | nil => exact wordFrom_afterWord hr (by omega)
  | cons c cs ih =>
    obtain ⟨fuel, rfl⟩ : ∃ n, fuel = n + 1 := ⟨fuel - 1, by simp at hf; omega⟩
    obtain ⟨hc, hcs⟩ := List.forall_mem_cons.mp hcs
    rw [List.cons_append, wordFrom_bare_cons hc.1 hc.2, ih hcs (by simpa using hf)]
    rfl

lemma wordText?_bareWord {cs : List Char} (hcs : cs.all isHarmless = true) :
    wordText? (bareWord cs) = some cs := by
  induction cs with
  | nil => rfl
  | cons c cs ih =>
    simp only [List.all_cons, Bool.and_eq_true] at hcs
    have htail := ih hcs.2
    rw [bareWord] at htail
    simp [bareWord, wordText?, fragmentText?, hcs.1, htail]

/-! ### Quoted words -/

lemma wordFrom_quote {inside rest : List Char} (hi : '\'' ∉ inside) (fuel : Nat) :
    wordFrom (fuel + 1) ('\'' :: inside ++ '\'' :: rest) =
      (wordFrom fuel rest).map (fun (w, rest) => (.text inside true :: w, rest)) := by
  have htake : (inside ++ '\'' :: rest).takeWhile (· != '\'') = inside := by
    rw [List.takeWhile_append_of_pos (by intro c hc; simp; rintro rfl; exact hi hc)]
    simp
  rw [List.cons_append, wordFrom.eq_def]
  simp only [show endsWord '\'' = false from by decide, Bool.false_eq_true, if_false, htake,
    List.drop_left]
  rfl

lemma wordFrom_escape (d : Char) (hd : d ≠ '\n') (rest : List Char) (fuel : Nat) :
    wordFrom (fuel + 1) ('\\' :: d :: rest) =
      (wordFrom fuel rest).map (fun (w, rest) => (.text [d] true :: w, rest)) := by
  rw [wordFrom.eq_def]
  simp only [show endsWord '\\' = false from by decide, Bool.false_eq_true, if_false,
    beq_iff_eq, hd]
  rfl

/-- A quoted word reads back. The characters before the next quote are collected in `inside`, so that
the induction is on the word and not on the number of its quotes. -/
lemma wordFrom_quotedInside (cs : List Char) {inside rest : List Char} (hi : '\'' ∉ inside)
    (hr : AfterWord rest) :
    ∃ w, wordText? w = some (inside ++ cs) ∧
      ∀ fuel, (inside ++ quotedInside cs).length + 2 < fuel →
        wordFrom fuel ('\'' :: inside ++ quotedInside cs ++ '\'' :: rest) = some (w, rest) := by
  induction cs generalizing inside with
  | nil =>
    refine ⟨[.text inside true], by simp [wordText?, fragmentText?], fun fuel hf => ?_⟩
    obtain ⟨fuel, rfl⟩ : ∃ n, fuel = n + 1 := ⟨fuel - 1, by omega⟩
    rw [quotedInside, List.append_nil, wordFrom_quote hi, wordFrom_afterWord hr (by omega)]
    rfl
  | cons c cs ih =>
    by_cases hc : c = '\''
    · subst hc
      obtain ⟨w, htext, hw⟩ := ih List.not_mem_nil
      refine ⟨.text inside true :: .text ['\''] true :: w, ?_, fun fuel hf => ?_⟩
      · simp only [wordText?, htext, fragmentText?]
        simp
      · simp only [quotedInside, if_true, List.length_append, List.length_cons] at hf
        obtain ⟨fuel, rfl⟩ : ∃ n, fuel = n + 2 := ⟨fuel - 2, by omega⟩
        have hlen : ([] ++ quotedInside cs).length + 2 < fuel := by
          rw [List.nil_append]
          omega
        have hshape : '\'' :: inside ++ quotedInside ('\'' :: cs) ++ '\'' :: rest =
            '\'' :: inside ++ '\'' :: ('\\' :: '\'' :: ('\'' :: [] ++ quotedInside cs ++ '\'' :: rest)) := by
          simp [quotedInside]
        rw [hshape, wordFrom_quote hi, wordFrom_escape '\'' (by decide), hw fuel hlen]
        rfl
    · have hi' : '\'' ∉ inside ++ [c] := by simp [hi, Ne.symm hc]
      have hshape : quotedInside (c :: cs) = c :: quotedInside cs := by simp [quotedInside, hc]
      obtain ⟨w, htext, hw⟩ := ih hi'
      refine ⟨w, by simpa using htext, fun fuel hf => ?_⟩
      rw [hshape] at hf ⊢
      have hlen : ((inside ++ [c]) ++ quotedInside cs).length + 2 < fuel := by
        rw [List.append_assoc]
        exact hf
      simpa using hw fuel hlen

lemma quoteChars_ne_nil (cs : List Char) : quoteChars cs ≠ [] := by
  unfold quoteChars
  split
  · rename_i h
    simp only [Bool.and_eq_true, Bool.not_eq_true', List.isEmpty_eq_false_iff] at h
    exact h.1
  · simp

lemma wordFrom_quoteChars (cs : List Char) {rest : List Char} (hr : AfterWord rest) :
    ∃ w, wordText? w = some cs ∧ ∀ fuel, (quoteChars cs).length < fuel →
      wordFrom fuel (quoteChars cs ++ rest) = some (w, rest) := by
  unfold quoteChars
  split
  · rename_i h
    simp only [Bool.and_eq_true] at h
    refine ⟨bareWord cs, wordText?_bareWord h.2, fun fuel hf => wordFrom_bareWord ?_ hr hf⟩
    intro c hc
    have hharmless := List.all_eq_true.mp h.2 c hc
    exact ⟨endsWord_of_harmless hharmless, notMem_quotes hharmless⟩
  · obtain ⟨w, htext, hw⟩ := wordFrom_quotedInside cs List.not_mem_nil hr
    refine ⟨w, htext, fun fuel hf => ?_⟩
    have hlen : ([] ++ quotedInside cs).length + 2 < fuel := by
      simp only [List.length_cons, List.length_append, List.length_nil] at hf ⊢
      omega
    simpa using hw fuel hlen

/-! ### Whole lines -/

/-- What a rendered word starts with. -/
def StartsWord (c : Char) : Prop := isHarmless c = true ∨ c = '\''

lemma startsWord_quoteChars {cs : List Char} {c : Char} {tail : List Char}
    (h : quoteChars cs = c :: tail) : StartsWord c := by
  unfold quoteChars at h
  split at h
  · rename_i hcs
    subst h
    simp only [Bool.and_eq_true, List.all_cons] at hcs
    exact .inl hcs.2.1
  · exact .inr (List.cons.inj h).1.symm

lemma startsWord_ne {c : Char} (h : StartsWord c) (d : Char) (hd : isHarmless d = false) (hq : d ≠ '\'') :
    c ≠ d := by
  rcases h with h | rfl
  · exact isHarmless_ne h hd
  · exact hq.symm

lemma sign?_bare {c : Char} (hc : endsWord c = false) (rest : List Char) : sign? (c :: rest) = none := by
  unfold sign?
  rw [List.findSome?_eq_none_iff]
  intro s hs
  rw [Option.map_eq_none_iff]
  -- every sign begins with a character that ends a word
  have hfirst : ∃ d tail, s.toList = d :: tail ∧ endsWord d = true := by
    have hall : ∀ s ∈ signs, (s.toList.head?.any endsWord) = true := by decide
    have hany := hall s hs
    cases hlist : s.toList with
    | nil => simp [hlist] at hany
    | cons d tail => exact ⟨d, tail, rfl, by simpa [hlist] using hany⟩
  obtain ⟨d, tail, hlist, hd⟩ := hfirst
  have hne : d ≠ c := by
    rintro rfl
    rw [hc] at hd
    cases hd
  simp [hlist, Text.dropStart, hne]

lemma endsWord_of_startsWord {c : Char} (h : StartsWord c) : endsWord c = false := by
  rcases h with h | rfl
  · exact endsWord_of_harmless h
  · rfl

lemma dropWhile_isDigit_quoteChars (cs rest : List Char) (hr : AfterWord rest) :
    ∀ tail, (quoteChars cs ++ rest).dropWhile Char.isDigit ≠ '<' :: tail ∧
      (quoteChars cs ++ rest).dropWhile Char.isDigit ≠ '>' :: tail := by
  have hrest : ∀ tail, rest.dropWhile Char.isDigit ≠ '<' :: tail ∧
      rest.dropWhile Char.isDigit ≠ '>' :: tail := by
    intro tail
    rw [hr.dropWhile_isDigit]
    constructor
    · rintro rfl
      exact absurd hr.head_mem (by decide)
    · rintro rfl
      exact absurd hr.head_mem (by decide)
  have hharmless : ∀ word : List Char, word.all isHarmless = true → ∀ tail,
      (word ++ rest).dropWhile Char.isDigit ≠ '<' :: tail ∧
        (word ++ rest).dropWhile Char.isDigit ≠ '>' :: tail := by
    intro word hword
    induction word with
    | nil => simpa using hrest
    | cons c word ih =>
      intro tail
      simp only [List.all_cons, Bool.and_eq_true] at hword
      rw [List.cons_append, List.dropWhile_cons]
      split
      · exact ih hword.2 tail
      · constructor
        · exact fun h => isHarmless_ne hword.1 (by decide) (List.cons.inj h).1
        · exact fun h => isHarmless_ne hword.1 (by decide) (List.cons.inj h).1
  unfold quoteChars
  split
  · rename_i h
    simp only [Bool.and_eq_true] at h
    exact hharmless cs h.2
  · intro tail
    simp

lemma stream?_quoteChars (cs rest : List Char) (hr : AfterWord rest) :
    stream? (quoteChars cs ++ rest) = none := by
  unfold stream?
  have h := dropWhile_isDigit_quoteChars cs rest hr
  dsimp only
  split
  · rename_i tail heq
    exact ((h tail).1 heq).elim
  · rename_i tail heq
    exact ((h tail).2 heq).elim
  · rfl

lemma tokens_blank (rest : List Char) (fuel : Nat) :
    tokens (fuel + 1) (' ' :: rest) = tokens fuel rest := by
  rw [tokens.eq_def]
  simp

/-- The characters of a rendered line. -/
def lineChars : List (List Char) → List Char
  | [] => []
  | [w] => quoteChars w
  | w :: ws => quoteChars w ++ ' ' :: lineChars ws

/-- Some characters are read as some tokens, whatever the number of steps that there are for it, and
enough of them are left for the rest. -/
def ReadsAs (cs : List Char) (ts : List Token) (rest : List Char) : Prop :=
  ∀ fuel, (cs ++ rest).length + 2 ≤ fuel →
    ∃ left, rest.length + 2 ≤ left ∧ tokens fuel (cs ++ rest) = (tokens left rest).map (ts ++ ·)

lemma readsAs_nil (rest : List Char) : ReadsAs [] [] rest := by
  intro fuel hf
  exact ⟨fuel, hf, by simp⟩

lemma ReadsAs.append {cs cs' rest : List Char} {ts ts' : List Token} (h : ReadsAs cs ts (cs' ++ rest))
    (h' : ReadsAs cs' ts' rest) : ReadsAs (cs ++ cs') (ts ++ ts') rest := by
  intro fuel hf
  rw [List.append_assoc] at hf ⊢
  obtain ⟨between, hbetween, heq⟩ := h fuel hf
  obtain ⟨left, hleft, heq'⟩ := h' between hbetween
  refine ⟨left, hleft, ?_⟩
  rw [heq, heq', Option.map_map]
  congr 1
  funext tail
  simp

lemma ReadsAs.blank {cs rest : List Char} {ts : List Token} (h : ReadsAs cs ts rest) :
    ReadsAs (' ' :: cs) ts rest := by
  intro fuel hf
  obtain ⟨fuel, rfl⟩ : ∃ n, fuel = n + 1 := ⟨fuel - 1, by simp at hf; omega⟩
  obtain ⟨left, hleft, heq⟩ := h fuel (by simpa using hf)
  exact ⟨left, hleft, by rw [List.cons_append, tokens_blank, heq]⟩

lemma ReadsAs.tokensOf_eq {s : String} {ts : List Token} (h : ReadsAs s.toList ts []) :
    tokensOf s = some ts := by
  have hlength : (s.toList ++ []).length = s.length := by rw [List.append_nil, String.length_toList]
  have hfuel : (s.toList ++ []).length + 2 ≤ s.length + 2 := by omega
  obtain ⟨left, hleft, heq⟩ := h _ hfuel
  obtain ⟨left, rfl⟩ : ∃ n, left = n + 1 := ⟨left - 1, by omega⟩
  rw [List.append_nil] at heq
  rw [tokensOf, heq]
  simp [tokens]

lemma readsAs_of_wordFrom {c : Char} {tail rest : List Char} {w : Word} (hc : c ∉ [' ', '\t', '#', '\\'])
    (hsign : sign? (c :: tail ++ rest) = none) (hstream : stream? (c :: tail ++ rest) = none)
    (hw : ∀ fuel, (c :: tail).length < fuel → wordFrom fuel (c :: tail ++ rest) = some (w, rest)) :
    ReadsAs (c :: tail) [.word w] rest := by
  intro fuel hf
  obtain ⟨fuel, rfl⟩ : ∃ n, fuel = n + 1 := ⟨fuel - 1, by omega⟩
  simp only [List.length_append, List.length_cons] at hf
  refine ⟨fuel, by omega, ?_⟩
  have hword := hw fuel (by simp only [List.length_cons]; omega)
  simp only [List.mem_cons, List.not_mem_nil, or_false, not_or] at hc
  obtain ⟨hspace, htab, hhash, hback⟩ := hc
  rw [List.cons_append] at hsign hstream hword ⊢
  rw [tokens.eq_def]
  simp only [beq_iff_eq, hspace, htab, hhash, hback, if_false, false_and, or_self, Bool.or_eq_true,
    Bool.and_eq_true, hsign, hstream, hword, Option.bind_eq_bind, Option.bind_some]
  cases tokens fuel rest <;> rfl

lemma readsAs_word (cs : List Char) {rest : List Char} (hr : AfterWord rest) :
    ∃ w, ReadsAs (quoteChars cs) [.word w] rest ∧ wordText? w = some cs := by
  obtain ⟨w, htext, hw⟩ := wordFrom_quoteChars cs hr
  refine ⟨w, ?_, htext⟩
  have hstream := stream?_quoteChars cs rest hr
  obtain ⟨c, tail, heq⟩ := List.exists_cons_of_ne_nil (quoteChars_ne_nil cs)
  have hc := startsWord_quoteChars heq
  have hfirst : c ∉ [' ', '\t', '#', '\\'] := by
    simp [startsWord_ne hc ' ' (by decide) (by decide), startsWord_ne hc '\t' (by decide) (by decide),
      startsWord_ne hc '#' (by decide) (by decide), startsWord_ne hc '\\' (by decide) (by decide)]
  rw [heq] at hw hstream ⊢
  exact readsAs_of_wordFrom hfirst (sign?_bare (endsWord_of_startsWord hc) _) hstream hw

lemma readsAs_lineChars (ws : List (List Char)) {rest : List Char} (hr : AfterWord rest) :
    ∃ ts, ReadsAs (lineChars ws) ts rest ∧ ts.mapM tokenText? = some (ws.map String.ofList) := by
  induction ws with
  | nil => exact ⟨[], readsAs_nil rest, rfl⟩
  | cons w ws ih =>
    obtain ⟨ts, hts, hmap⟩ := ih
    cases ws with
    | nil =>
      obtain ⟨v, hv, htext⟩ := readsAs_word w hr
      exact ⟨[.word v], hv, by simp [tokenText?, htext]⟩
    | cons w' ws =>
      obtain ⟨v, hv, htext⟩ := readsAs_word w (afterWord_cons List.mem_cons_self (lineChars (w' :: ws) ++ rest))
      refine ⟨.word v :: ts, hv.append hts.blank, ?_⟩
      rw [List.mapM_cons, hmap]
      simp [tokenText?, htext]

lemma toList_line (ws : List String) : (line ws).toList = lineChars (ws.map String.toList) := by
  unfold line
  induction ws with
  | nil => rfl
  | cons w ws ih =>
    cases ws with
    | nil => simp [Text.join, lineChars, quote]
    | cons w' ws =>
      simp only [List.map_cons, Text.join, lineChars, String.toList_append] at ih ⊢
      rw [ih]
      simp [quote]

/-- A rendered line splits into the words that it was rendered from, whatever they are. -/
theorem arguments?_line (ws : List String) : arguments? (line ws) = some ws := by
  obtain ⟨ts, hts, hmap⟩ := readsAs_lineChars (ws.map String.toList) afterWord_nil
  rw [← toList_line] at hts
  rw [arguments?, hts.tokensOf_eq, Option.bind_some, hmap]
  simp

lemma arguments?_toShell {c : Command} (hc : c.cwd = none) : arguments? c.toShell = some c.argv := by
  unfold Command.toShell
  rw [hc]
  exact arguments?_line c.argv

end CrossBuild.Proofs
