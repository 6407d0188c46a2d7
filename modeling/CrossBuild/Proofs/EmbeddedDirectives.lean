import CrossBuild.Proofs.CommitTags
import CrossBuild.Proofs.TextWords
import CrossBuild.Run

/-!
# Directives embedded in commit messages

A directive is put into a message between `[ci ` and a closing bracket. It comes back from there alone only
if no other closing bracket follows on the line: the tag goes on to the last one, so everything up to that
one, such as a reference in brackets, becomes part of the directive.
-/

namespace CrossBuild.Proofs
open Text

/-! ### Trimmed texts -/

lemma mem_trimmed {c : Char} (hc : isBlank c = false) {cs : List Char} : c ∈ trimmed cs ↔ c ∈ cs := by
  obtain ⟨front, back, hsplit, hfront, hback⟩ := (isTrimmedFrom_trimmed cs).split
  have hnot : ∀ blanks : List Char, (∀ d ∈ blanks, isBlank d = true) → c ∉ blanks := by
    intro blanks hblanks hmem
    rw [hblanks c hmem] at hc
    cases hc
  conv_rhs => rw [hsplit]
  simp [hnot front hfront, hnot back hback]

/-- A character that one text has and another one lacks tells them apart even when they are trimmed. -/
lemma trim_ne {c : Char} (hc : isBlank c = false) {s s' : String} (hs : c ∈ s.toList) (hs' : c ∉ s'.toList) :
    trim s ≠ trim s' := by
  intro heq
  rw [← mem_trimmed hc] at hs hs'
  have htrimmed := congrArg String.toList heq
  rw [trim, trim, String.toList_ofList, String.toList_ofList] at htrimmed
  rw [htrimmed] at hs
  exact hs' hs

lemma words_trim (s : String) : words (trim s) = words s := by
  obtain ⟨front, back, hsplit, hfront, hback⟩ := (isTrimmedFrom_trimmed s.toList).split
  have hruns : runs isBlank s.toList = runs isBlank (trimmed s.toList) := by
    conv_lhs => rw [hsplit]
    rw [runs_after_separators hfront, runs_before_separators hback]
  rw [words, words, trim, String.toList_ofList, hruns]

/-- Blank characters around a directive say nothing. -/
lemma parse_trim (rule : ColonlessRule) (s : String) : Directive.parse rule (trim s) = Directive.parse rule s := by
  rw [Directive.parse, Directive.parse, Directive.groups, Directive.groups, words_trim]

/-! ### Embedded tags -/

section Embedded

variable {before text after : List Char}

lemma length_le_of_free {c : Char} (hfree : c ∉ before) {before' rest rest' : List Char}
    (h : before ++ rest = before' ++ c :: rest') : before.length ≤ before'.length := by
  rcases List.append_eq_append_iff.mp h with ⟨more, rfl, _⟩ | ⟨more, rfl, hmore⟩
  · simp
  · cases more with
    | nil => simp
    | cons d more =>
      obtain ⟨rfl, _⟩ := List.cons.inj hmore
      exact absurd (by simp) hfree

/-- The first opener of a message begins where its first bracket is, so a tag that is put there is found. -/
lemma find?_embedded (hbefore : '[' ∉ before) (htext : '\n' ∉ text) (hlast : ']' ∉ restOfLine after) :
    CommitTag.find? (before ++ ("[ci ".toList ++ (text ++ ']' :: after))) = some text := by
  have hclosed : ']' ∈ restOfLine (text ++ ']' :: after) :=
    (mem_restOfLine (by decide)).mpr ⟨text, after, rfl, htext⟩
  have hfirst : IsFirstViable (before ++ ("[ci ".toList ++ (text ++ ']' :: after))) before "[ci ".toList
      (text ++ ']' :: after) := by
    refine ⟨⟨rfl, ⟨0, rfl⟩, hclosed⟩, ?_⟩
    intro before' opener' rest' hviable
    obtain ⟨spaces, hopener⟩ := hviable.opener
    have htext := hviable.text
    rw [hopener, List.cons_append] at htext
    exact length_le_of_free hbefore htext
  exact find?_of_firstViable hfirst htext hlast

end Embedded

/-- The message of a commit with a directive in it. -/
def messageWith (before directive after : String) : String := before ++ "[ci " ++ directive ++ "]" ++ after

section Runs

variable {run : Run} {before directive after : String}

/-- What of a message becomes the text of the directive: what stands between the opener and a closing bracket
after which the line has no other. -/
lemma directiveText_of_last (hpush : run.cause = .push) (hbefore : '[' ∉ before.toList)
    (hdirective : '\n' ∉ directive.toList) (hlast : ']' ∉ restOfLine after.toList)
    (hmessage : run.commitMessage = some (messageWith before directive after)) :
    run.directiveText = .ok (.commitMessage, trim directive) := by
  have hchars : (messageWith before directive after).toList =
      before.toList ++ ("[ci ".toList ++ (directive.toList ++ ']' :: after.toList)) := by
    simp [messageWith]
  have htag : CommitTag.ofMessage? (messageWith before directive after) = some (trim directive) := by
    rw [CommitTag.ofMessage?, hchars, find?_embedded hbefore hdirective hlast, Option.map_some, trim]
  rw [Run.directiveText, hpush, hmessage, Option.bind_some, htag]

lemma directive_of_text {var : RunVariable} (h : run.directiveText = .ok (var, trim directive)) (rule : ColonlessRule) :
    run.directive rule = (Directive.parse rule directive).mapError (.directive var) := by
  simp only [Run.directive, h, bind, Except.bind, parse_trim]
  cases Directive.parse rule directive with
  | ok d => rfl
  | error e => rfl

/-- A directive in a commit message comes back alone just if no other closing bracket follows it on its line. If
one does, the directive is all up to the last one of the line. -/
theorem embedded_directive (hpush : run.cause = .push) (hbefore : '[' ∉ before.toList)
    (hbrackets : ']' ∉ directive.toList) (hbreaks : '\n' ∉ directive.toList)
    (hmessage : run.commitMessage = some (messageWith before directive after)) (rule : ColonlessRule) :
    (run.directiveText = .ok (.commitMessage, trim directive) ↔ ']' ∉ restOfLine after.toList) ∧
      (']' ∉ restOfLine after.toList →
        run.directive rule = (Directive.parse rule directive).mapError (.directive .commitMessage)) ∧
      ∀ more rest, after = more ++ "]" ++ rest → '\n' ∉ more.toList → ']' ∉ restOfLine rest.toList →
        run.directiveText = .ok (.commitMessage, trim (directive ++ "]" ++ more)) ∧
          run.directive rule =
            (Directive.parse rule (directive ++ "]" ++ more)).mapError (.directive .commitMessage) := by
  have hlonger : ∀ more rest, after = more ++ "]" ++ rest → '\n' ∉ more.toList → ']' ∉ restOfLine rest.toList →
      run.directiveText = .ok (.commitMessage, trim (directive ++ "]" ++ more)) := by
    intro more rest hafter hmore hrest
    have htext : '\n' ∉ (directive ++ "]" ++ more).toList := by simp [hbreaks, hmore]
    apply directiveText_of_last hpush hbefore htext hrest
    rw [hmessage, hafter]
    simp only [messageWith, String.append_assoc]
  refine ⟨⟨?_, ?_⟩, ?_, ?_⟩
  · intro htext hclosing
    obtain ⟨more, rest, hsplit, hmore, hrest⟩ := exists_lastClosing hclosing
    have hafter : after = String.ofList more ++ "]" ++ String.ofList rest := by
      apply String.toList_injective
      simp [hsplit]
    have hother := hlonger _ _ hafter (by simpa using hmore) (by simpa using hrest)
    have hne : trim (directive ++ "]" ++ String.ofList more) ≠ trim directive :=
      trim_ne (by decide) (by simp) hbrackets
    rw [htext] at hother
    exact hne (Prod.mk.inj (Except.ok.inj hother)).2.symm
  · intro hlast
    exact directiveText_of_last hpush hbefore hbreaks hlast hmessage
  · intro hlast
    exact directive_of_text (directiveText_of_last hpush hbefore hbreaks hlast hmessage) rule
  · intro more rest hafter hmore hrest
    have htext := hlonger more rest hafter hmore hrest
    exact ⟨htext, directive_of_text htext rule⟩

end Runs

/-- A run for a push with a message. -/
def pushRun (message : String) : Run :=
  { (default : Run) with cause := .push, commitMessage := some message }

/-- A reference in brackets after a directive becomes part of it, up to its last character. -/
theorem embedded_directive_reference :
    ∃ (run : Run) (before directive after : String), run.cause = .push ∧ '[' ∉ before.toList ∧
      ']' ∉ directive.toList ∧ '\n' ∉ directive.toList ∧
      run.commitMessage = some (messageWith before directive after) ∧
      run.commitMessage = some "Fix timing [ci zed] as in [1]" ∧
      run.directiveText = .ok (.commitMessage, "zed] as in [1") ∧
      run.directiveText ≠ .ok (.commitMessage, trim directive) := by
  let run := pushRun "Fix timing [ci zed] as in [1]"
  have hbefore : '[' ∉ "Fix timing ".toList := by decide
  have hbrackets : ']' ∉ "zed".toList := by decide
  have hbreaks : '\n' ∉ "zed".toList := by decide
  have hmessage : run.commitMessage = some (messageWith "Fix timing " "zed" " as in [1]") := rfl
  obtain ⟨halone, _, hlonger⟩ := embedded_directive rfl hbefore hbrackets hbreaks hmessage .reset
  obtain ⟨htext, _⟩ := hlonger " as in [1" "" rfl (by decide) (by decide)
  refine ⟨run, _, _, _, rfl, hbefore, hbrackets, hbreaks, hmessage, rfl, htext.trans (by rfl), ?_⟩
  intro htag
  exact absurd (by decide) (halone.mp htag)

end CrossBuild.Proofs
