import CrossBuild.Proofs.Unpacking

/-!
# Which paths of entries are safe

The path of an entry is safe just if its components are the archive's base and plain names after it. What
is left of the path without the base is a path whose components are these names.
-/

namespace CrossBuild.Proofs
open Archive CrossBuild.Path

/-! ### Components -/

lemma filter_cut (path : String) :
    (cut path).pieces.filter (fun piece => !isIdle piece) = activePieces path := by
  unfold activePieces cut
  split
  · rename_i body h
    rw [h]
    simp [Text.pieces, isIdle]
  · rename_i h
    rw [h]
    rfl
  · rename_i body h
    rw [h]
    simp [Text.pieces, isIdle]
  · rfl

lemma components_eq (path : String) :
    components path = leadComponents (cut path).lead ++ (activePieces path).map ofPiece := by
  rw [components, filter_cut]

/-- A path whose first component is a name has nothing before it. -/
lemma lead_of_components {path : String} {name : String} {tail : List Component}
    (h : components path = .name name :: tail) : (cut path).lead = [] := by
  rw [components_eq] at h
  rcases cut_lead path with hlead | hlead | hlead
  · simp [hlead, leadComponents] at h
  · simp [hlead, leadComponents] at h
  · exact hlead

lemma ofPiece_eq_name {piece : List Char} {name : String} (h : ofPiece piece = .name name) :
    String.ofList piece = name := by
  unfold ofPiece at h
  split at h
  · cases h
  · exact Component.name.inj h

/-- A path of names alone leads through just these. -/
lemma namesOf_of_components {path : String} {names : Place} (h : components path = names.map .name) :
    namesOf path = names := by
  have hlead : leadComponents (cut path).lead = [] := by
    cases names with
    | nil =>
      rw [components_eq, List.map_nil, List.append_eq_nil_iff] at h
      exact h.1
    | cons name names =>
      rw [lead_of_components h]
      rfl
  rw [components_eq, hlead, List.nil_append] at h
  have hnames : ∀ (pieces : List (List Char)) (names : Place),
      pieces.map ofPiece = names.map .name → pieces.map String.ofList = names := by
    intro pieces
    induction pieces with
    | nil => intro names h; simpa [eq_comm] using h
    | cons piece pieces ih =>
      intro names h
      cases names with
      | nil => simp at h
      | cons name names =>
        rw [List.map_cons, List.map_cons, List.cons.injEq] at h
        rw [List.map_cons, ofPiece_eq_name h.1, ih names h.2]
  exact hnames _ _ h

lemma isPlain_iff_names {path : String} : isPlain path = true ↔ ∃ names : Place, components path = names.map .name := by
  unfold isPlain
  generalize components path = cs
  induction cs with
  | nil => exact ⟨fun _ => ⟨[], rfl⟩, fun _ => rfl⟩
  | cons c cs ih =>
    rw [List.all_cons, Bool.and_eq_true, ih]
    constructor
    · rintro ⟨hc, names, rfl⟩
      cases c with
      | name name => exact ⟨name :: names, rfl⟩
      | root | here | up => cases hc
    · rintro ⟨names, hnames⟩
      obtain ⟨name, others, _, rfl, hothers⟩ := List.map_eq_cons_iff.mp hnames.symm
      exact ⟨rfl, others, hothers.symm⟩

/-! ### What is left of a path -/

lemma filter_dropWhile_isIdle (pieces : List (List Char)) :
    (pieces.dropWhile isIdle).filter (fun piece => !isIdle piece) =
      pieces.filter (fun piece => !isIdle piece) := by
  induction pieces with
  | nil => rfl
  | cons piece pieces ih =>
    by_cases hidle : isIdle piece = true
    · rw [List.dropWhile_cons_of_pos hidle, ih, List.filter_cons_of_neg (by simp [hidle])]
    · rw [List.dropWhile_cons_of_neg hidle]

lemma filter_trimEnd (c : Cut) : c.trimEnd.pieces.filter (fun piece => !isIdle piece) =
    c.pieces.filter (fun piece => !isIdle piece) := by
  rw [Cut.trimEnd, List.filter_reverse, filter_dropWhile_isIdle, List.filter_reverse, List.reverse_reverse]

lemma filter_dropPieces_one (pieces : List (List Char)) :
    (dropPieces 1 pieces).filter (fun piece => !isIdle piece) =
      (pieces.filter (fun piece => !isIdle piece)).tail := by
  rw [dropPieces, dropPieces, filter_dropWhile_isIdle, ← filter_dropWhile_isIdle pieces]
  cases hdrop : pieces.dropWhile isIdle with
  | nil => rfl
  | cons piece rest =>
    have hactive : isIdle piece = false := by
      have hhead := List.head?_dropWhile_not isIdle pieces
      simpa [hdrop] using hhead
    simp [hactive]

/-- A text that is joined from pieces without slashes, of which the first counts, is cut into these. -/
lemma cut_cutText {first : List Char} {others : List (List Char)} (hfree : ∀ piece ∈ first :: others, '/' ∉ piece)
    (hactive : isIdle first = false) : cut (Cut.text ⟨[], first :: others⟩) = ⟨[], first :: others⟩ := by
  have hpieces : Text.pieces (· == '/') (Cut.text ⟨[], first :: others⟩).toList = first :: others := by
    have hsplit : Text.splitAt '/' (Text.join "/" ((first :: others).map String.ofList)) =
        (first :: others).map String.ofList := splitAt_join (by simp) (by simpa using hfree)
    have hinjective : Function.Injective String.ofList := fun _ _ h => String.ofList_injective h
    exact List.map_injective_iff.mpr hinjective hsplit
  generalize Cut.text ⟨[], first :: others⟩ = path at hpieces
  -- each lead but none would make the first piece an idle one
  unfold cut
  split
  · rename_i body h
    rw [h] at hpieces
    obtain rfl : [] = first := (List.cons.inj hpieces).1
    cases hactive
  · rename_i h
    rw [h] at hpieces
    obtain rfl : ['.'] = first := (List.cons.inj hpieces).1
    cases hactive
  · rename_i body h
    rw [h] at hpieces
    obtain rfl : ['.'] = first := (List.cons.inj hpieces).1
    cases hactive
  · rw [hpieces]

lemma components_cutText {pieces : List (List Char)} (hfree : ∀ piece ∈ pieces, '/' ∉ piece)
    (hfirst : ∀ piece, pieces.head? = some piece → isIdle piece = false) :
    components (Cut.text ⟨[], pieces⟩) = (pieces.filter fun piece => !isIdle piece).map ofPiece := by
  cases pieces with
  | nil => decide
  | cons first others =>
    rw [components, cut_cutText hfree (hfirst first rfl)]
    rfl

lemma cut_free {path : String} {piece : List Char} (h : piece ∈ (cut path).pieces) : '/' ∉ piece := by
  have hpieces : ∀ {cs}, piece ∈ Text.pieces (· == '/') cs → '/' ∉ piece := by
    intro cs hpiece hslash
    have hsep := (mem_piece hpiece hslash).2
    cases hsep
  unfold cut at h
  split at h
  · exact hpieces h
  · cases h
  · exact hpieces h
  · exact hpieces h

lemma dropPieces_sublist (n : Nat) (pieces : List (List Char)) : (dropPieces n pieces).Sublist pieces := by
  induction n generalizing pieces with
  | zero => exact List.dropWhile_sublist isIdle
  | succ n ih =>
    rw [dropPieces]
    exact (ih _).trans ((List.drop_sublist 1 _).trans (List.dropWhile_sublist isIdle))

/-- Below its first component, a path is what its other components say. -/
lemma relativePath_of_components {path : String} {tail : List Component}
    (h : components path = .name base :: tail) : ∃ rest, components rest = tail ∧
      relativePath path = if isPlain rest then .ok rest else .error (.unsafeEntry path) := by
  have hbase : components base = [.name base] := by decide
  have hlead := lead_of_components h
  refine ⟨Cut.text ⟨[], dropPieces 1 (cut path).trimEnd.pieces⟩, ?_, ?_⟩
  · rw [components_cutText, filter_dropPieces_one, filter_trimEnd, filter_cut]
    · rw [components_eq, hlead] at h
      rw [List.map_tail]
      exact congrArg List.tail h
    · intro piece hpiece
      exact cut_free ((trimEnd_pieces _).subset ((dropPieces_sublist 1 _).subset hpiece))
    · intro piece hpiece
      have hhead := List.head?_dropWhile_not isIdle (((cut path).trimEnd.pieces.dropWhile isIdle).drop 1)
      rw [show List.dropWhile isIdle _ = dropPieces 1 (cut path).trimEnd.pieces from rfl, hpiece] at hhead
      exact hhead
  · have hbelow : below? base path = some (Cut.text ⟨[], dropPieces 1 (cut path).trimEnd.pieces⟩) := by
      have htrim : leadComponents (cut path).trimEnd.lead = [] := by
        rw [show (cut path).trimEnd.lead = [] from hlead]
        rfl
      unfold below?
      rw [hbase, h]
      simp [htrim]
    rw [relativePath, hbelow]

lemma relativePath_of_other {path : String} (h : ∀ tail, components path ≠ .name base :: tail) :
    relativePath path = .error (.unsafeEntry path) := by
  have hbase : components base = [.name base] := by decide
  have hnot : [Component.name base].isPrefixOf (components path) = false := by
    rw [Bool.eq_false_iff, ne_eq, List.isPrefixOf_iff_prefix]
    rintro ⟨tail, htail⟩
    exact h tail htail.symm
  have hbelow : below? base path = none := by
    unfold below?
    rw [hbase]
    simp [hnot]
  rw [relativePath, hbelow]

/-! ### Safe entries -/

lemma relativePath_of_names {e : Entry} {names : Place} (h : entryNames? e = some names) :
    ∃ rest, relativePath e.path = .ok rest ∧ namesOf rest = names := by
  obtain ⟨rest, hrest, hnames⟩ := Option.map_eq_some_iff.mp h
  refine ⟨rest, ?_, hnames⟩
  cases hcase : relativePath e.path with
  | ok path =>
    rw [hcase] at hrest
    exact congrArg Except.ok (Option.some.inj hrest)
  | error err =>
    rw [hcase] at hrest
    cases hrest

/-- An entry has names to be unpacked at just if the base and these names make up its path. -/
theorem entryNames?_eq_some_iff {e : Entry} {names : Place} :
    entryNames? e = some names ↔ components e.path = .name base :: names.map .name := by
  constructor
  · intro h
    obtain ⟨rest, hpath, rfl⟩ := relativePath_of_names h
    by_cases hother : ∀ tail, components e.path ≠ .name base :: tail
    · rw [relativePath_of_other hother] at hpath
      cases hpath
    · simp only [not_forall, not_not] at hother
      obtain ⟨tail, htail⟩ := hother
      obtain ⟨rest', rfl, hrelative⟩ := relativePath_of_components htail
      rw [hrelative] at hpath
      split at hpath
      · rename_i hplain
        cases hpath
        obtain ⟨names, hnames⟩ := isPlain_iff_names.mp hplain
        rw [htail, hnames, namesOf_of_components hnames]
      · cases hpath
  · intro h
    obtain ⟨rest, hnames, hrelative⟩ := relativePath_of_components h
    rw [if_pos (isPlain_iff_names.mpr ⟨names, hnames⟩)] at hrelative
    rw [entryNames?_of_ok hrelative, namesOf_of_components hnames]

lemma relativePath_of_none {e : Entry} (h : entryNames? e = none) :
    relativePath e.path = .error (.unsafeEntry e.path) := by
  by_cases hother : ∀ tail, components e.path ≠ .name base :: tail
  · exact relativePath_of_other hother
  · simp only [not_forall, not_not] at hother
    obtain ⟨tail, htail⟩ := hother
    obtain ⟨rest, _, hrelative⟩ := relativePath_of_components htail
    rw [hrelative]
    split
    · rename_i hplain
      rw [if_pos hplain] at hrelative
      rw [entryNames?_of_ok hrelative] at h
      cases h
    · rfl

end CrossBuild.Proofs
