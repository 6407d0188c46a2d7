import CrossBuild.JobScript
import CrossBuild.Proofs.ShellWords
import Mathlib.Data.List.Forall2

/-!
# Commands as a shell reads them

A command is a list of words, and a job's script is text. What a shell makes of that text has to be the
list of words again, whatever is in them: a stage, a platform or a path with a quote or a semicolon in
its name must not become a command of its own. `rendered_commands` says this of every command and of the
lines that are put around the command of a job.
-/

namespace CrossBuild.Proofs
open Shell Handoff

/-! ### Words and lines -/

/-- The characters that have a meaning to a shell somewhere in a word: they separate, redirect, expand,
match, quote or begin a comment. -/
def specialChars : List Char :=
  [' ', '\t', '\n', ';', '&', '|', '<', '>', '(', ')', '$', '\x60', '\\', '\'', '"', '*', '?', '[', ']',
    '!', '#', '~', '{', '}', '^']

/-- The text of a word is known without running anything, and what has a meaning in it is quoted. -/
structure Spells (w : Word) (text : String) : Prop where
  fragments : ∀ f ∈ w, ∃ cs quoted, f = .text cs quoted ∧ (quoted = false → ∀ c ∈ cs, c ∉ specialChars)
  text : w.flatMap Fragment.literal = text.toList

/-- Tokens that are words, one for each of some texts. -/
def SpellOut (tokens : List Token) (texts : List String) : Prop :=
  List.Forall₂ (fun token text => ∃ w, token = .word w ∧ Spells w text) tokens texts

/-- A line that splits into some words. -/
def SplitsInto (line : String) (words : List String) : Prop :=
  ∃ tokens, tokensOf line = some tokens ∧ SpellOut tokens words

/-- A line that runs a command: its words, or a subshell that changes the directory and goes on with
them. -/
def Renders (line : String) (c : Command) : Prop :=
  match c.cwd with
  | none => SplitsInto line c.argv
  | some dir => ∃ move words, SpellOut move ["cd", dir] ∧ SpellOut words c.argv ∧
      tokensOf line = some (.sign "(" :: move ++ .sign "&&" :: words ++ [.sign ")"])

lemma notMem_specialChars {c : Char} (hc : isHarmless c = true) : c ∉ specialChars := by
  intro hmem
  have hnone : specialChars.all (fun d => !isHarmless d) = true := by decide
  have hnot := List.all_eq_true.mp hnone c hmem
  rw [hc] at hnot
  cases hnot

lemma spells_of_wordText? {w : Word} {cs : List Char} (h : wordText? w = some cs) :
    Spells w (String.ofList cs) := by
  induction w generalizing cs with
  | nil =>
    cases h
    exact ⟨by simp, by simp⟩
  | cons f w ih =>
    simp only [wordText?, Option.bind_eq_bind, Option.bind_eq_some_iff, Option.pure_def,
      Option.some_inj] at h
    obtain ⟨first, hfirst, rest, hrest, rfl⟩ := h
    obtain ⟨hfragments, htext⟩ := ih hrest
    cases f with
    | parameter name quoted => cases hfirst
    | text chars quoted =>
      simp only [fragmentText?, Option.ite_none_right_eq_some, Option.some_inj] at hfirst
      obtain ⟨hplain, rfl⟩ := hfirst
      refine ⟨List.forall_mem_cons.mpr ⟨⟨chars, quoted, rfl, ?_⟩, hfragments⟩, ?_⟩
      · intro hquoted c hc
        rw [hquoted, Bool.false_or, List.all_eq_true] at hplain
        exact notMem_specialChars (hplain c hc)
      · simp only [String.toList_ofList] at htext ⊢
        rw [List.flatMap_cons, htext, Fragment.literal]

lemma spellOut_of_mapM {tokens : List Token} {texts : List String}
    (h : tokens.mapM tokenText? = some texts) : SpellOut tokens texts := by
  induction tokens generalizing texts with
  | nil =>
    cases h
    exact .nil
  | cons token tokens ih =>
    simp only [List.mapM_cons, Option.bind_eq_bind, Option.bind_eq_some_iff, Option.pure_def,
      Option.some_inj] at h
    obtain ⟨text, htext, rest, hrest, rfl⟩ := h
    refine .cons ?_ (ih hrest)
    cases token with
    | sign s => cases htext
    | stream n => cases htext
    | word w =>
      rw [tokenText?, Option.map_eq_some_iff] at htext
      obtain ⟨cs, hcs, rfl⟩ := htext
      exact ⟨w, rfl, spells_of_wordText? hcs⟩

/-- A rendered line is read as its words, also where a sign follows it. -/
lemma readsAs_line (words : List String) {rest : List Char} (hr : AfterWord rest) :
    ∃ tokens, ReadsAs (line words).toList tokens rest ∧ SpellOut tokens words := by
  obtain ⟨tokens, htokens, hmap⟩ := readsAs_lineChars (words.map String.toList) hr
  rw [← toList_line] at htokens
  refine ⟨tokens, htokens, spellOut_of_mapM ?_⟩
  rw [hmap]
  simp

lemma splitsInto_line (words : List String) : SplitsInto (line words) words := by
  obtain ⟨tokens, htokens, hwords⟩ := readsAs_line words afterWord_nil
  exact ⟨tokens, htokens.tokensOf_eq, hwords⟩

/-! ### Signs and words around commands -/

lemma readsAs_sign {c : Char} {tail rest : List Char} {s : String} (hc : c ∉ [' ', '\t', '#', '\\'])
    (hsign : sign? (c :: tail ++ rest) = some (s, rest)) (hs : s ≠ "<<") :
    ReadsAs (c :: tail) [.sign s] rest := by
  intro fuel hf
  obtain ⟨fuel, rfl⟩ : ∃ n, fuel = n + 1 := ⟨fuel - 1, by omega⟩
  simp only [List.length_append, List.length_cons] at hf
  refine ⟨fuel, by omega, ?_⟩
  simp only [List.mem_cons, List.not_mem_nil, or_false, not_or] at hc
  obtain ⟨hspace, htab, hhash, hback⟩ := hc
  rw [List.cons_append] at hsign ⊢
  rw [tokens.eq_def]
  simp only [beq_iff_eq, hspace, htab, hhash, hback, if_false, false_and, or_self, Bool.or_eq_true,
    Bool.and_eq_true, hsign]
  rfl

/-- The words of the format of a script, as they stand in it. -/
lemma readsAs_bare {c : Char} {tail rest : List Char} (hfirst : c ≠ '#' ∧ c.isDigit = false)
    (hcs : ∀ d ∈ c :: tail, endsWord d = false ∧ d ∉ ['\'', '"', '\\', '$']) (hr : AfterWord rest) :
    ReadsAs (c :: tail) [.word (bareWord (c :: tail))] rest := by
  obtain ⟨hc, hquote⟩ := hcs c List.mem_cons_self
  refine readsAs_of_wordFrom ?_ (sign?_bare hc _) ?_ fun fuel hf => wordFrom_bareWord hcs hr hf
  · intro hmem
    simp only [List.mem_cons, List.not_mem_nil, or_false] at hmem
    rcases hmem with rfl | rfl | rfl | rfl
    · cases hc
    · cases hc
    · exact hfirst.1 rfl
    · exact hquote (by simp)
  · have hstop : (c :: tail ++ rest).dropWhile Char.isDigit = c :: (tail ++ rest) := by
      rw [List.cons_append, List.dropWhile_cons_of_neg (by simp [hfirst.2])]
    unfold stream?
    rw [hstop]
    dsimp only
    split
    · rename_i heq
      cases heq
      cases hc
    · rename_i heq
      cases heq
      cases hc
    · rfl

/-- A word that can stand in a script as it is. -/
def isBare (text : String) : Bool :=
  match text.toList with
  | [] => false
  | c :: tail => c != '#' && !c.isDigit &&
      (c :: tail).all fun d => !endsWord d && !(['\'', '"', '\\', '$'].contains d)

def bareToken (text : String) : Token := .word (bareWord text.toList)

lemma readsAs_bareToken {text : String} {rest : List Char} (htext : isBare text = true)
    (hr : AfterWord rest) : ReadsAs text.toList [bareToken text] rest := by
  unfold isBare at htext
  unfold bareToken
  cases hlist : text.toList with
  | nil => simp [hlist] at htext
  | cons c tail =>
    rw [hlist] at htext
    simp only [Bool.and_eq_true, bne_iff_ne, ne_eq, Bool.not_eq_true', List.all_eq_true,
      List.contains_eq_mem, decide_eq_false_iff_not] at htext
    exact readsAs_bare htext.1 htext.2 hr

lemma readsAs_bareTokens {texts : List String} {rest : List Char} (htexts : texts.all isBare = true)
    (hr : AfterWord rest) : ReadsAs (Text.join " " texts).toList (texts.map bareToken) rest := by
  induction texts with
  | nil => exact readsAs_nil rest
  | cons text texts ih =>
    rw [List.all_cons, Bool.and_eq_true] at htexts
    cases texts with
    | nil => exact readsAs_bareToken htexts.1 hr
    | cons next texts =>
      have hblank : AfterWord (' ' :: (Text.join " " (next :: texts)).toList ++ rest) :=
        afterWord_cons (by simp) _
      have hall := (readsAs_bareToken htexts.1 hblank).append (ih htexts.2).blank
      simpa [Text.join] using hall

/-! ### Rendered commands -/

lemma renders_toShell (c : Command) : Renders c.toShell c := by
  unfold Renders Command.toShell
  cases c.cwd with
  | none => exact splitsInto_line c.argv
  | some dir =>
    dsimp only
    have hopen : ∀ rest, ReadsAs ['('] [.sign "("] rest :=
      fun rest => readsAs_sign (by decide) rfl (by decide)
    have hand : ∀ rest, ReadsAs ['&', '&'] [.sign "&&"] rest :=
      fun rest => readsAs_sign (by decide) rfl (by decide)
    have hclose : ReadsAs [')'] [.sign ")"] [] := readsAs_sign (by decide) rfl (by decide)
    obtain ⟨words, hread, hwords⟩ := readsAs_line c.argv (afterWord_cons (by simp) [] : AfterWord [')'])
    have hrun := (hand _).append (hread.append hclose).blank
    have hblank : AfterWord (' ' :: (['&', '&'] ++ ' ' :: ((line c.argv).toList ++ [')'])) ++ []) :=
      afterWord_cons (by simp) _
    obtain ⟨move, hread, hmove⟩ := readsAs_line ["cd", dir] hblank
    have hall := (hopen _).append (hread.append hrun.blank)
    refine ⟨move, words, hmove, hwords, ?_⟩
    have hmove : (line ["cd", dir]).toList = "cd ".toList ++ (quote dir).toList := by
      have hcd : quoteChars ['c', 'd'] = ['c', 'd'] := by decide
      simp [toList_line, lineChars, hcd, quote]
    have hshape : ("(cd " ++ quote dir ++ " && " ++ line c.argv ++ ")").toList =
        ['('] ++ ((line ["cd", dir]).toList ++
          ' ' :: (['&', '&'] ++ ' ' :: ((line c.argv).toList ++ [')']))) := by
      rw [hmove]
      simp
    rw [← hshape] at hall
    simpa using hall.tokensOf_eq

/-! ### The lines of a job's script -/

/-- What stands before and after the command that stores what a failed job left. -/
def openingTokens : List Token :=
  ["if", "[", "!", "-f", successMarker, "]"].map bareToken ++ [.sign ";", bareToken "then"]

def closingTokens : List Token := [.sign ";", bareToken "fi"]

/-- A command that runs only if the note of success is missing. -/
lemma tokensOf_guarded (words : List String) :
    ∃ tokens, SpellOut tokens words ∧
      tokensOf ("if [ ! -f " ++ quote successMarker ++ " ]; then " ++ line words ++ "; fi") =
        some (openingTokens ++ tokens ++ closingTokens) := by
  have hsign : ∀ rest, ReadsAs [';'] [.sign ";"] (' ' :: rest) :=
    fun rest => readsAs_sign (by decide) rfl (by decide)
  have hfi : ReadsAs "fi".toList [bareToken "fi"] [] := readsAs_bareToken (by decide) afterWord_nil
  have hclose := (hsign _).append hfi.blank
  have hafter : AfterWord ([';'] ++ ' ' :: "fi".toList ++ []) := afterWord_cons (by simp) _
  obtain ⟨tokens, hread, htokens⟩ := readsAs_line words hafter
  have hrest := hread.append hclose
  have hblank : AfterWord (' ' :: ((line words).toList ++ ([';'] ++ ' ' :: "fi".toList)) ++ []) :=
    afterWord_cons (by simp) _
  have hthen : isBare "then" = true := by decide
  have hbody := ((hsign _).append ((readsAs_bareToken hthen hblank).append hrest.blank).blank)
  have htest : ["if", "[", "!", "-f", successMarker, "]"].all isBare = true := by decide
  have hall := (readsAs_bareTokens htest (afterWord_cons (by simp) _)).append hbody
  refine ⟨tokens, htokens, ?_⟩
  have hshape : ("if [ ! -f " ++ quote successMarker ++ " ]; then " ++ line words ++ "; fi").toList =
      (Text.join " " ["if", "[", "!", "-f", successMarker, "]"]).toList ++ ([';'] ++ ' ' :: ("then".toList ++
        ' ' :: ((line words).toList ++ ([';'] ++ ' ' :: "fi".toList)))) := by
    have hmarker : quote successMarker = successMarker := by decide
    rw [hmarker]
    simp [Text.join]
  rw [← hshape] at hall
  rw [hall.tokensOf_eq]
  simp [openingTokens, closingTokens]

/-- A shell reads every command as the words that it was rendered from, with nothing in them to run,
and so it does in the script of a job, whatever its names and patterns are. -/
theorem rendered_commands :
    (∀ c : Command, Renders c.toShell c) ∧
      ∀ (s : Settings) (stage job : String) (includes laterStages : List String) (build : Command),
        let staged := s.stagedScript stage job includes laterStages build
        let excludes := laterStages.map KeyFilter.stageGlob
        (∃ download begun built done upload, staged.script = [download, begun, built, done, upload] ∧
          SplitsInto download (s.downloadCommand includes excludes).argv ∧
          SplitsInto begun ["touch", startMarker] ∧
          Renders built build ∧
          SplitsInto done ["touch", successMarker] ∧
          SplitsInto upload (s.uploadCommand stage job false).argv) ∧
        ∃ line words, staged.afterScript = [line] ∧
          SpellOut words (s.uploadCommand stage job true).argv ∧
          tokensOf line = some (openingTokens ++ words ++ closingTokens) := by
  refine ⟨renders_toShell, fun s stage job includes laterStages build => ?_⟩
  intro staged excludes
  refine ⟨⟨_, _, _, _, _, rfl, ?_, ?_, renders_toShell build, ?_, ?_⟩, ?_⟩
  · exact renders_toShell (s.downloadCommand includes excludes)
  · exact splitsInto_line ["touch", startMarker]
  · exact splitsInto_line ["touch", successMarker]
  · exact renders_toShell (s.uploadCommand stage job false)
  · obtain ⟨words, hwords, htokens⟩ := tokensOf_guarded (s.uploadCommand stage job true).argv
    exact ⟨_, words, rfl, hwords, htokens⟩

end CrossBuild.Proofs
