import CrossBuild.Proofs.MomentTexts
import CrossBuild.Proofs.Sequencing
import CrossBuild.Store.Directory

/-!
# Records that are written and read

A record is written as an object of texts with one of them on a line. Whatever characters a text has, it
is read back as it is, so a record is read back with the same tag and the same times.
-/

namespace CrossBuild.Proofs
open Json

/-! ### Texts -/

/-- What is written of a character is read as that character. -/
lemma readText_escape (acc : List Char) (c : Char) (rest : List Char) :
    readText acc (escape c ++ rest) = readText (c :: acc) rest := by
  have hcontrol : ∀ n < 0x20, unit? '0' '0' (Text.lowerHexDigit (n / 16)) (Text.lowerHexDigit (n % 16)) = some n := by
    decide
  unfold escape
  split
  · rfl
  · rfl
  · rfl
  · rfl
  · rfl
  · rfl
  · rfl
  · rename_i hquote hslash _ _ _ _ _
    dsimp only
    split
    · rename_i hsmall
      have hbelow : (decide (c.toNat < 0xD800) || decide (0xE000 ≤ c.toNat)) = true := by
        simp only [Bool.or_eq_true, decide_eq_true_eq]
        omega
      simp only [List.cons_append, List.nil_append, readText, hcontrol c.toNat hsmall, hbelow, if_true,
        Char.ofNat_toNat]
    · rename_i hlarge
      rw [List.singleton_append, readText.eq_def]
      split
      · rename_i heq
        cases heq
      · rename_i heq
        cases heq
        exact (hquote rfl).elim
      · rename_i heq
        cases heq
        exact (hslash rfl).elim
      · rename_i heq
        cases heq
        exact (hslash rfl).elim
      · rename_i heq
        cases heq
        exact if_neg hlarge

/-- A text is read up to its closing quote. -/
lemma readText_quoted (acc cs rest : List Char) :
    readText acc (cs.flatMap escape ++ '"' :: rest) = some (String.ofList (acc.reverse ++ cs), rest) := by
  induction cs generalizing acc with
  | nil => simp [readText]
  | cons c cs ih =>
    rw [List.flatMap_cons, List.append_assoc, readText_escape, ih]
    simp

lemma toList_quoted (s : String) : (quoted s).toList = '"' :: (s.toList.flatMap escape ++ ['"']) := by
  rw [quoted, String.toList_ofList, List.cons_append]

/-- The characters of a text or of null. -/
def valueText : Option String → List Char
  | none => "null".toList
  | some s => (quoted s).toList

lemma put_ofText? (layout : Layout) (depth : Nat) (out : String) (v : Option String) :
    (put layout depth out (.ofText? v)).toList = out.toList ++ valueText v := by
  cases v with
  | none => rw [ofText?, put, String.toList_append, valueText]
  | some s => rw [ofText?, put, String.toList_append, valueText]

lemma readValue_valueText (fuel depth : Nat) (v : Option String) (rest : List Char) :
    readValue (fuel + 1) depth (valueText v ++ rest) = some (.ofText? v, rest) := by
  cases v with
  | none => rfl
  | some s =>
    have hread := readText_quoted [] s.toList rest
    rw [List.reverse_nil, List.nil_append, String.ofList_toList] at hread
    have hskip : ∀ cs : List Char, skipSpace ('"' :: cs) = '"' :: cs := fun _ => rfl
    rw [valueText, toList_quoted, List.cons_append, List.append_assoc, List.singleton_append, readValue, hskip]
    simp only [hread, Option.map_some, ofText?]

/-! ### Objects of texts -/

/-- What an entry is written as, and what follows it. -/
def entriesText : String × Option String → List (String × Option String) → List Char
  | (key, v), [] => (quoted key).toList ++ ':' :: ' ' :: (valueText v ++ ['\n', '\x7d'])
  | (key, v), next :: rest =>
    (quoted key).toList ++ ':' :: ' ' :: (valueText v ++ ',' :: '\n' :: ' ' :: ' ' :: entriesText next rest)

lemma pretty_entries (e : String × Option String) (entries : List (String × Option String)) :
    (pretty (.object ((e :: entries).map fun e => (e.1, .ofText? e.2)))).toList =
      '\x7b' :: '\n' :: ' ' :: ' ' :: entriesText e entries := by
  have hbreak : (Layout.lineBreak ⟨true⟩ (0 + 1)).toList = ['\n', ' ', ' '] := rfl
  have hend : (Layout.lineBreak ⟨true⟩ 0).toList = ['\n'] := rfl
  have hopen : ("\x7b" : String).toList = ['\x7b'] := rfl
  have hclose : ("\x7d" : String).toList = ['\x7d'] := rfl
  have hcolon : (": " : String).toList = [':', ' '] := rfl
  have hcomma : ("," : String).toList = [','] := rfl
  have hrest : ∀ (out : String) (e : String × Option String) (entries : List (String × Option String)),
      (putEntries ⟨true⟩ 0 (put ⟨true⟩ (0 + 1) (out ++ quoted e.1 ++ ": ") (.ofText? e.2))
        (entries.map fun e => (e.1, .ofText? e.2))).toList = out.toList ++ entriesText e entries := by
    intro out e entries
    induction entries generalizing out e with
    | nil =>
      rw [List.map_nil, putEntries, entriesText]
      simp only [String.toList_append, put_ofText?, hend, hclose, hcolon, List.append_assoc, List.cons_append,
        List.nil_append]
    | cons next rest ih =>
      rw [List.map_cons, putEntries]
      simp only [if_true]
      rw [ih, entriesText]
      simp only [String.toList_append, put_ofText?, hbreak, hcomma, hcolon, List.append_assoc, List.cons_append,
        List.nil_append]
  rw [pretty, List.map_cons, put]
  simp only [if_true]
  rw [hrest]
  simp only [String.toList_append, hbreak, hopen, List.append_assoc, List.cons_append, List.nil_append]
  rfl

/-- After an entry either the next one is read or the object is at its end. -/
lemma readEntries_entry (fuel depth : Nat) (key : String) (v : Option String) {blanks : List Char}
    (hblanks : ∀ c ∈ blanks, isSpace c = true) (tail rest : List Char) :
    (skipSpace tail = ',' :: rest →
      readEntries (fuel + 1 + 1) depth (blanks ++ ((quoted key).toList ++ ':' :: ' ' :: (valueText v ++ tail))) =
        (readEntries (fuel + 1) depth rest).map fun (entries, rest) => ((key, .ofText? v) :: entries, rest)) ∧
    (skipSpace tail = '\x7d' :: rest →
      readEntries (fuel + 1 + 1) depth (blanks ++ ((quoted key).toList ++ ':' :: ' ' :: (valueText v ++ tail))) =
        some ([(key, .ofText? v)], rest)) := by
  have hskip : ∀ cs : List Char, skipSpace (blanks ++ '"' :: cs) = '"' :: cs := by
    intro cs
    rw [skipSpace, List.dropWhile_append_of_pos hblanks]
    rfl
  have hcolon : ∀ cs : List Char, skipSpace (':' :: cs) = ':' :: cs := fun _ => rfl
  have hkey := readText_quoted [] key.toList (':' :: ' ' :: (valueText v ++ tail))
  rw [List.reverse_nil, List.nil_append, String.ofList_toList] at hkey
  have hvalue : readValue (fuel + 1) depth (' ' :: (valueText v ++ tail)) = some (.ofText? v, tail) := by
    rw [← readValue_valueText fuel depth v tail, readValue, readValue]
    rfl
  rw [toList_quoted, List.cons_append, List.append_assoc, List.singleton_append, readEntries, hskip]
  refine ⟨fun hmore => ?_, fun hlast => ?_⟩
  · simp only [hkey, Option.bind_eq_bind, Option.bind_some, hcolon, hvalue, hmore]
    exact (Option.map_eq_bind ..).symm
  · simp only [hkey, Option.bind_eq_bind, Option.bind_some, hcolon, hvalue, hlast]
    rfl

lemma readEntries_entriesText {fuel : Nat} (depth : Nat) (e : String × Option String)
    {entries : List (String × Option String)} (hfuel : entries.length + 2 ≤ fuel) {blanks : List Char}
    (hblanks : ∀ c ∈ blanks, isSpace c = true) : readEntries fuel depth (blanks ++ entriesText e entries) =
    some ((e :: entries).map fun e => (e.1, .ofText? e.2), []) := by
  obtain ⟨fuel, rfl⟩ : ∃ n, fuel = n + 1 + 1 := ⟨fuel - 2, by omega⟩
  induction entries generalizing e fuel blanks with
  | nil =>
    rw [entriesText]
    exact (readEntries_entry fuel depth e.1 e.2 hblanks ['\n', '\x7d'] []).2 rfl
  | cons next rest ih =>
    rw [List.length_cons] at hfuel
    obtain ⟨fuel, rfl⟩ : ∃ n, fuel = n + 1 := ⟨fuel - 1, by omega⟩
    have hblanks' : ∀ c ∈ ['\n', ' ', ' '], isSpace c = true := by simp [isSpace]
    have hrest := ih next hblanks' fuel (by omega)
    rw [entriesText, (readEntries_entry (fuel + 1) depth e.1 e.2 hblanks _ _).1 rfl]
    simp only [List.cons_append, List.nil_append] at hrest
    simp only [hrest, Option.map_some, List.map_cons]

lemma length_entriesText (e : String × Option String) (entries : List (String × Option String)) :
    entries.length < (entriesText e entries).length := by
  induction entries generalizing e with
  | nil => simp [entriesText]
  | cons next rest ih =>
    have hrest := ih next
    simp only [entriesText, List.length_append, List.length_cons]
    omega

/-- An object of texts is read as it was written. -/
theorem ofString?_pretty (e : String × Option String) (entries : List (String × Option String)) :
    ofString? (pretty (.object ((e :: entries).map fun e => (e.1, .ofText? e.2)))) =
      some (.object ((e :: entries).map fun e => (e.1, .ofText? e.2))) := by
  have htext := pretty_entries e entries
  generalize pretty _ = text at htext
  have hfuel : entries.length + 2 ≤ 2 * text.toList.length + 1 := by
    have hlength := length_entriesText e entries
    simp only [htext, List.length_cons]
    omega
  have hread := readEntries_entriesText 126 e hfuel (List.forall_mem_nil _)
  obtain ⟨rest, hrest⟩ : ∃ rest, entriesText e entries = '"' :: rest := by
    cases entries <;> exact ⟨_, by rw [entriesText, toList_quoted, List.cons_append]⟩
  have hopen : skipSpace text.toList = '\x7b' :: '\n' :: ' ' :: ' ' :: '"' :: rest := by
    rw [htext, hrest]
    rfl
  have hskip : skipSpace ('\n' :: ' ' :: ' ' :: '"' :: rest) = '"' :: rest := rfl
  rw [List.nil_append, hrest] at hread
  have hvalue : readValue (2 * text.toList.length + 1 + 1) (126 + 1) text.toList =
      some (.object ((e :: entries).map fun e => (e.1, .ofText? e.2)), []) := by
    rw [readValue, hopen]
    simp only [hskip]
    exact (congrArg (Option.map _) hread).trans rfl
  unfold ofString?
  dsimp only
  rw [show depthLimit = 126 + 1 from rfl, hvalue]
  rfl

/-! ### Records -/

/-- The record of a bundle is read with the name of its tag and with its times. -/
theorem ofJson?_pretty (tag : Option BundleTag) {storedAt : Instant} {expiresAt : Option Instant}
    (hstored : IsMoment storedAt) (hexpires : ∀ moment ∈ expiresAt, IsMoment moment) :
    (ofString? (pretty (BundleRecord.toJson ⟨tag, storedAt, expiresAt⟩))).bind BundleRecord.ofJson? =
      some ⟨tag.map fun t => .ofName t.name, storedAt, expiresAt⟩ := by
  have hjson : BundleRecord.toJson ⟨tag, storedAt, expiresAt⟩ = .object ([("tag", tag.map (·.name)),
    ("stored_at", some storedAt.text), ("expires_at", expiresAt.map (·.text))].map fun e => (e.1, .ofText? e.2)) := rfl
  have hread := ofString?_pretty ("tag", tag.map (·.name)) [("stored_at", some storedAt.text),
    ("expires_at", expiresAt.map (·.text))]
  rw [← hjson] at hread
  obtain ⟨htag, hstoredAt, hexpiresAt⟩ :
      (BundleRecord.toJson ⟨tag, storedAt, expiresAt⟩).get? "tag" = some (.ofText? (tag.map (·.name))) ∧
      (BundleRecord.toJson ⟨tag, storedAt, expiresAt⟩).get? "stored_at" = some (.text storedAt.text) ∧
      (BundleRecord.toJson ⟨tag, storedAt, expiresAt⟩).get? "expires_at" =
        some (.ofText? (expiresAt.map (·.text))) := ⟨rfl, rfl, rfl⟩
  have hmoment : ∀ {i : Instant}, IsMoment i → BundleRecord.instant? (.text i.text) = some i := by
    intro i hi
    rw [BundleRecord.instant?, text?, Option.bind_some, ofText?_text hi]
  rw [hread, Option.bind_some, BundleRecord.ofJson?]
  generalize BundleRecord.toJson ⟨tag, storedAt, expiresAt⟩ = j at htag hstoredAt hexpiresAt ⊢
  have hreadTag : j.optional? "tag" text? = some (tag.map (·.name)) := by
    unfold optional?
    rw [htag]
    cases tag <;> rfl
  have hreadStored : j.field? "stored_at" BundleRecord.instant? = some storedAt := by
    rw [field?, hstoredAt, Option.bind_some, hmoment hstored]
  have hreadExpires : j.optional? "expires_at" BundleRecord.instant? = some expiresAt := by
    unfold optional?
    rw [hexpiresAt]
    cases expiresAt with
    | none => rfl
    | some moment =>
      simp only [Option.map_some, ofText?, hmoment (hexpires moment rfl)]
  simp only [hreadTag, hreadStored, hreadExpires, Option.bind_eq_bind, Option.bind_some, Option.pure_def, Option.map_map]
  rfl

lemma name_ofName (name : String) : (BundleTag.ofName name).name = name := by
  unfold BundleTag.ofName
  split
  · rename_i h
    exact (beq_iff_eq.mp h).symm
  · split
    · rename_i h
      exact (beq_iff_eq.mp h).symm
    · rfl

/-- A bundle stored at a moment expires then, or never. -/
def ExpiresAs (r : Retention) (tag : Option BundleTag) (storedAt : Instant) (expiresAt : Option Instant) : Prop :=
  r.expiry tag storedAt = match expiresAt with
    | none => .never
    | some moment => .at moment

section Expiry

variable {r : Retention} {tag : Option BundleTag} {storedAt : Instant} {expiresAt : Option Instant}

lemma ExpiresAs.days (h : ExpiresAs r tag storedAt expiresAt) :
    expiresAt.map storedAt.daysUntil = (r.days? tag).map Int.ofNat := by
  unfold ExpiresAs Retention.expiry at h
  cases hdays : r.days? tag with
  | none =>
    rw [hdays] at h
    cases expiresAt with
    | none => rfl
    | some moment => cases h
  | some days =>
    rw [hdays] at h
    dsimp only at h
    split at h
    · rename_i later hlater
      cases expiresAt with
      | none => cases h
      | some moment =>
        obtain rfl : later = moment := Retention.Expiry.at.inj h
        unfold Instant.plusDays? at hlater
        dsimp only at hlater
        split at hlater
        · cases hlater
          simp [Instant.daysUntil, Instant.secondsPerDay]
        · cases hlater
    · cases expiresAt with
      | none => cases h
      | some moment => cases h

lemma exists_expiresAs (h : r.expiry tag storedAt ≠ .beyond) : ∃ expiresAt, ExpiresAs r tag storedAt expiresAt := by
  unfold ExpiresAs
  cases hexpiry : r.expiry tag storedAt with
  | never => exact ⟨none, rfl⟩
  | «at» moment => exact ⟨some moment, rfl⟩
  | beyond => exact (h hexpiry).elim

lemma ExpiresAs.isMoment (h : ExpiresAs r tag storedAt expiresAt) (hstored : IsMoment storedAt) :
    ∀ moment ∈ expiresAt, IsMoment moment := by
  rintro moment hmoment
  cases hmoment
  unfold ExpiresAs Retention.expiry at h
  dsimp only at h
  split at h
  · cases h
  · split at h
    · rename_i later hlater
      obtain rfl : later = moment := Retention.Expiry.at.inj h
      exact hstored.plusDays hlater
    · cases h

lemma expiration_run_eq {σ : Type} (m : Machine σ) :
    (Store.expiration r tag : Task σ StoreError _) m = match r.expiry tag m.now with
      | .never => (.ok none, m)
      | .at moment => (.ok (some moment), m)
      | .beyond => (.error .beyondCalendar, m) := by
  have hrun : (Store.expiration r tag : Task σ StoreError _) m = (match r.expiry tag m.now with
      | .never => pure none
      | .at moment => pure (some moment)
      | .beyond => throw .beyondCalendar : Task σ StoreError _) m := rfl
  rw [hrun]
  cases r.expiry tag m.now <;> rfl

lemma ExpiresAs.gives {σ : Type} {m : Machine σ} (h : ExpiresAs r tag m.now expiresAt) :
    Gives (Store.expiration r tag) m expiresAt m := by
  unfold Gives
  rw [expiration_run_eq, h]
  cases expiresAt <;> rfl

end Expiry

end CrossBuild.Proofs
