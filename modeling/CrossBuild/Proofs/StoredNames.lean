import CrossBuild.Proofs.SelectedPaths

/-!
# Names that an archive stores

A name that is too long for a header is stored as it is, any other one in its shortest form, and of a long
name only a first part is looked at. Whichever way a plain path is taken into an archive, it is stored as a
path with the same names, and the same names are read from it.
-/

namespace CrossBuild.Proofs
open Archive CrossBuild.Path

/-! ### Parts of texts -/

/-- What bytes of characters begin other ones, the characters do as well. -/
lemma prefix_of_bytes {cs ds : List Char} (more : List UInt8)
    (h : ds.flatMap String.utf8EncodeChar = cs.flatMap String.utf8EncodeChar ++ more) : cs <+: ds := by
  induction cs generalizing ds with
  | nil => exact List.nil_prefix
  | cons c cs ih =>
    rw [List.flatMap_cons, List.append_assoc] at h
    cases ds with
    | nil =>
      have hlength := congrArg List.length h
      have hpos := c.utf8Size_pos
      rw [List.length_append, String.length_utf8EncodeChar] at hlength
      simp only [List.flatMap_nil, List.length_nil] at hlength
      omega
    | cons d ds =>
      rw [List.flatMap_cons] at h
      have hdecode : ∀ (c : Char) (bytes : List UInt8),
          (String.utf8EncodeChar c ++ bytes).toByteArray.utf8DecodeChar? 0 = some c := by
        intro c bytes
        rw [List.toByteArray_append]
        exact ByteArray.utf8DecodeChar?_utf8EncodeChar_append
      have hsame := hdecode d (ds.flatMap String.utf8EncodeChar)
      rw [h, hdecode] at hsame
      obtain rfl : c = d := Option.some.inj hsame
      exact List.cons_prefix_cons.mpr ⟨rfl, ih (List.append_cancel_left h)⟩

lemma toUTF8_of_fromUTF8? {bytes : ByteArray} {text : String} (h : String.fromUTF8? bytes = some text) :
    text.toUTF8 = bytes := by
  unfold String.fromUTF8? at h
  split at h
  · cases h
    rfl
  · cases h

lemma fittingStart_isPrefix (name : String) : (fittingStart name).toList <+: name.toList := by
  have hstart : ∀ n, ((String.fromUTF8? (name.toUTF8.extract 0 n)).getD "").toList <+: name.toList := by
    intro n
    cases hstart : String.fromUTF8? (name.toUTF8.extract 0 n) with
    | none => exact List.nil_prefix
    | some start =>
      refine prefix_of_bytes (name.toUTF8.toList.drop n) ?_
      rw [← toUTF8_toList, Option.getD_some, ← toUTF8_toList, toUTF8_of_fromUTF8? hstart, toList_eq, toList_eq]
      simp
  unfold fittingStart
  exact hstart _

lemma pieces_isPrefix {cs ds : List Char} (h : cs <+: ds) :
    (Text.pieces (· == '/') cs).dropLast <+: Text.pieces (· == '/') ds := by
  obtain ⟨more, rfl⟩ := h
  induction cs with
  | nil => exact List.nil_prefix
  | cons c cs ih =>
    rw [List.cons_append, Text.pieces, Text.pieces]
    split
    · rw [List.dropLast_cons_of_ne_nil (pieces_ne_nil _ cs)]
      exact List.cons_prefix_cons.mpr ⟨rfl, ih⟩
    · obtain ⟨first, others, hpieces⟩ := List.exists_cons_of_ne_nil (pieces_ne_nil (· == '/') cs)
      obtain ⟨first', others', hpieces'⟩ := List.exists_cons_of_ne_nil (pieces_ne_nil (· == '/') (cs ++ more))
      rw [hpieces, hpieces'] at ih ⊢
      dsimp only
      cases others with
      | nil => exact List.nil_prefix
      | cons next others =>
        rw [List.dropLast_cons_of_ne_nil (by simp)] at ih ⊢
        obtain ⟨rfl, hothers⟩ := List.cons_prefix_cons.mp ih
        exact List.cons_prefix_cons.mpr ⟨rfl, hothers⟩

lemma join_sublist {parts parts' : List String} (h : parts.Sublist parts') :
    (Text.join "/" parts).toList.Sublist (Text.join "/" parts').toList := by
  have hcons : ∀ (part : String) {rest : List String}, rest ≠ [] →
      (Text.join "/" (part :: rest)).toList = part.toList ++ '/' :: (Text.join "/" rest).toList := by
    intro part rest hrest
    rw [Text.join]
    · simp
    · exact hrest
  induction h with
  | slnil => exact List.Sublist.refl _
  | @cons parts parts' part h ih =>
    by_cases hrest : parts' = []
    · subst hrest
      rw [List.sublist_nil.mp h]
      exact List.nil_sublist _
    · rw [hcons part hrest]
      exact ih.trans ((List.sublist_cons_self _ _).trans (List.sublist_append_right _ _))
  | @cons_cons parts parts' part h ih =>
    by_cases hparts : parts = []
    · by_cases hrest : parts' = []
      · rw [hparts, hrest]
      · rw [hparts, hcons part hrest]
        exact List.sublist_append_left _ _
    · have hrest : parts' ≠ [] := by
        rintro rfl
        exact hparts (List.sublist_nil.mp h)
      rw [hcons part hparts, hcons part hrest]
      exact (ih.cons_cons '/').append_left _

lemma utf8ByteSize_le {text text' : String} (h : text.toList.Sublist text'.toList) :
    text.utf8ByteSize ≤ text'.utf8ByteSize := by
  have hbytes : ∀ {cs ds : List Char}, cs.Sublist ds →
      (cs.flatMap String.utf8EncodeChar).length ≤ (ds.flatMap String.utf8EncodeChar).length := by
    intro cs ds hsublist
    induction hsublist with
    | slnil => exact le_rfl
    | cons c _ ih =>
      rw [List.flatMap_cons, List.length_append]
      omega
    | cons_cons c _ ih =>
      rw [List.flatMap_cons, List.flatMap_cons, List.length_append, List.length_append]
      omega
  rw [← length_toUTF8, ← length_toUTF8, toUTF8_toList, toUTF8_toList]
  exact hbytes h

/-! ### Forms of a path -/

/-- One path leads through the same names as another one, and all that it is written with stands in that. -/
structure Shortens (path rest : String) : Prop where
  plain : isPlain rest = true
  names : namesOf rest = namesOf path
  ends : EndsActive rest
  text : rest.toList.Sublist path.toList

section Forms

variable {path rest : String} (hplain : isPlain path = true) (hends : EndsActive path)

include hplain

lemma isFileName_of_plain {name : String} (h : name ∈ namesOf path) : IsFileName name := by
  refine isFileName_of_mem_stepsOf (?_ : Step.into name ∈ FileTree.stepsOf path)
  have hstep : Step.into name ∈ (activePieces path).map FileTree.stepOf := by
    rw [(isPlain_names hplain).2.1]
    exact List.mem_map_of_mem h
  rcases stepsOf_eq path with hsteps | hsteps
  · rwa [hsteps]
  · rw [hsteps]
    exact List.mem_append_left _ hstep

include hends

lemma namesOf_ne_nil : namesOf path ≠ [] := by
  refine (isPlain_names hplain).2.2 ?_
  rintro rfl
  cases hends

lemma shortens_refl : Shortens path path := ⟨hplain, rfl, hends, .refl _⟩

lemma shortens_names : Shortens path (pathOfNames (namesOf path)) := by
  have hnames : ∀ name ∈ namesOf path, IsFileName name := fun name => isFileName_of_plain hplain
  have hne := namesOf_ne_nil hplain hends
  refine ⟨isPlain_pathOfNames hnames hne, namesOf_pathOfNames hnames hne, endsActive_pathOfNames hnames hne, ?_⟩
  have htext := join_pieces '/' path.toList
  rw [String.ofList_toList] at htext
  have hsublist := join_sublist ((List.filter_sublist (p := fun piece => !isIdle piece)
    (l := Text.pieces (· == '/') path.toList)).map String.ofList)
  rwa [show Text.join "/" ((Text.pieces (· == '/') path.toList).map String.ofList) = path from htext] at hsublist

end Forms

/-! ### Stored names -/

/-- No part of a path without steps up leads up, but for what may have been cut off at its end. -/
lemma up_free_of_prefix {start name : String} (h : start.toList <+: name.toList)
    (hup : ∀ c ∈ components name, isUp c = false) : (components start).dropLast.any isUp = false := by
  have hpieces : ∀ piece ∈ (Text.pieces (· == '/') start.toList).dropLast, isIdle piece = false →
      isUp (ofPiece piece) = false := by
    intro piece hpiece hactive
    refine hup _ ?_
    rw [components_eq]
    refine List.mem_append_right _ (List.mem_map_of_mem (List.mem_filter.mpr ⟨?_, by simpa using hactive⟩))
    exact (pieces_isPrefix h).subset hpiece
  have hlead : ∀ c ∈ leadComponents (cut start).lead, isUp c = false := by
    rcases cut_lead start with hlead | hlead | hlead <;> rw [hlead] <;> decide
  obtain ⟨front, last, hsplit⟩ := List.eq_nil_or_concat (Text.pieces (· == '/') start.toList)
    |>.resolve_left (pieces_ne_nil _ _)
  rw [List.concat_eq_append] at hsplit
  rw [hsplit, List.dropLast_concat] at hpieces
  have hfront : ∀ c ∈ leadComponents (cut start).lead ++ (front.filter fun piece => !isIdle piece).map ofPiece,
      isUp c = false := by
    intro c hc
    rcases List.mem_append.mp hc with hc | hc
    · exact hlead c hc
    · obtain ⟨piece, hpiece, rfl⟩ := List.mem_map.mp hc
      obtain ⟨hmem, hactive⟩ := List.mem_filter.mp hpiece
      exact hpieces piece hmem (by simpa using hactive)
  rw [List.any_eq_false]
  intro c hc
  rw [Bool.not_eq_true]
  refine hfront c ?_
  rw [components_eq, activePieces, hsplit, List.filter_append, List.map_append, ← List.append_assoc] at hc
  by_cases hidle : isIdle last = true
  · rw [List.filter_cons_of_neg (by simpa using hidle), List.filter_nil, List.map_nil, List.append_nil] at hc
    exact List.mem_of_mem_dropLast hc
  · rw [List.filter_cons_of_pos (by simpa using hidle), List.filter_nil, List.map_singleton, List.dropLast_concat] at hc
    exact hc

/-- The name starts at no root, has no step up and no zeros. -/
structure IsSafeName (name : String) : Prop where
  relative : isAbsolute name = false
  upless : ∀ c ∈ components name, isUp c = false
  zeroless : '\x00' ∉ name.toList

/-- Such a name is stored in its shortest form if this one is short enough for a header, and else as it is. -/
lemma IsSafeName.storedName {name : String} (h : IsSafeName name)
    (hsize : (plainName name).utf8ByteSize ≤ name.utf8ByteSize) : Archive.storedName name =
      .ok (if (plainName name).utf8ByteSize ≤ headerNameSize then plainName name else name) := by
  have hup : (components name).any isUp = false := by
    rw [List.any_eq_false]
    exact fun c hc => by simp [h.upless c hc]
  unfold Archive.storedName
  by_cases hshort : (plainName name).utf8ByteSize ≤ headerNameSize
  · rw [if_pos hshort]
    exact if_pos (by simp [h.relative, hup, h.zeroless, hshort])
  · have hbegins := fittingStart_isPrefix name
    have hrelative : isAbsolute (fittingStart name) = false := by
      have hname := h.relative
      unfold isAbsolute at hname ⊢
      rw [beq_eq_false_iff_ne] at hname ⊢
      obtain ⟨more, hmore⟩ := hbegins
      intro hhead
      rw [← hmore, List.head?_append, hhead] at hname
      exact hname rfl
    have hzero : '\x00' ∉ (fittingStart name).toList := fun hmem => h.zeroless (hbegins.subset hmem)
    dsimp only
    rw [if_neg hshort, if_neg (by simp [hshort]), if_neg (by omega)]
    exact if_neg (by simp [hrelative, up_free_of_prefix hbegins h.upless, hzero])

section Stored

variable {path rest : String}

lemma components_join_base (hplain : isPlain path = true) :
    components (Path.join base path) = .name base :: (namesOf path).map .name := by
  obtain ⟨names, hnames⟩ := isPlain_iff_names.mp hplain
  rw [components_join base (lead_of_plain hplain), hnames, namesOf_of_components hnames]
  rfl

lemma plainName_join (hplain : isPlain path = true) (hends : EndsActive path) :
    plainName (Path.join base path) = Path.join base (pathOfNames (namesOf path)) := by
  have hlast : ((Path.join base path).toList.getLast? == some '/') = false := by
    rw [beq_eq_false_iff_ne]
    exact (hends.join base (isPlain_names hplain).1).last_ne
  have hnames := shortens_names hplain hends
  rw [plainName, hlast, components_join_base hplain, List.filterMap_cons, List.filterMap_map,
    base_join (isPlain_names hnames.plain).1]
  have hjoin := join_append "/" (List.cons_ne_nil base []) (namesOf_ne_nil hplain hends)
  simpa [pathOfNames, Text.join] using hjoin

lemma isSafeName_join (hplain : isPlain path = true) (hzero : '\x00' ∉ path.toList) :
    IsSafeName (Path.join base path) := by
  have hrelative := (isPlain_names hplain).1
  constructor
  case relative =>
    rw [isAbsolute_join base hrelative]
    decide
  case upless =>
    rw [components_join_base hplain]
    intro c hc
    rcases List.mem_cons.mp hc with rfl | hc
    · rfl
    · obtain ⟨name, _, rfl⟩ := List.mem_map.mp hc
      rfl
  case zeroless =>
    have hbase : '\x00' ∉ (base ++ "/").toList := by decide
    rw [base_join hrelative, String.toList_append, List.mem_append, not_or]
    exact ⟨hbase, hzero⟩

/-- A plain path is taken into an archive below the base, in a form of its own. -/
theorem storedName_of_plain (hplain : isPlain path = true) (hends : EndsActive path) (hzero : '\x00' ∉ path.toList) :
    ∃ rest, Shortens path rest ∧ storedName (Path.join base path) = .ok (Path.join base rest) := by
  have hnames := shortens_names hplain hends
  have hsize : (Path.join base (pathOfNames (namesOf path))).utf8ByteSize ≤ (Path.join base path).utf8ByteSize := by
    rw [base_join (isPlain_names hnames.plain).1, base_join (isPlain_names hplain).1]
    simp only [String.utf8ByteSize_append]
    exact Nat.add_le_add_left (utf8ByteSize_le hnames.text) _
  have hstored := (isSafeName_join hplain hzero).storedName (by rwa [plainName_join hplain hends])
  rw [plainName_join hplain hends] at hstored
  rw [hstored]
  split
  · exact ⟨_, hnames, rfl⟩
  · exact ⟨path, shortens_refl hplain hends, rfl⟩

/-- From such a name the form of the path is read. -/
lemma relativePath_stored (h : Shortens path rest) : relativePath (Path.join base rest) = .ok rest := by
  rw [relativePath, below?_join_of_active base (lead_of_plain h.plain) h.ends]
  exact if_pos h.plain

end Stored

end CrossBuild.Proofs
