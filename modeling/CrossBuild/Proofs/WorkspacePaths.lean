import CrossBuild.Handoff.Upload
import CrossBuild.Proofs.StepsUp

/-!
# Paths of files in a workspace

The path of a file that a walk comes by is the workspace's with the names of the file after it. Taken
relative to the workspace these names are left, and in an archive they stand after its base.
-/

namespace CrossBuild.Proofs
open CrossBuild.Path

/-! ### Joined paths -/

lemma pieces_of_lead {path : String} (h : (cut path).lead = []) :
    (cut path).pieces = Text.pieces (· == '/') path.toList := by
  unfold cut at h ⊢
  split
  · rename_i body heq
    rw [heq] at h
    cases h
  · rename_i heq
    rw [heq] at h
    cases h
  · rename_i body heq
    rw [heq] at h
    cases h
  · rfl

lemma isAbsolute_of_lead {path : String} (h : (cut path).lead = []) : isAbsolute path = false := by
  unfold cut at h
  unfold isAbsolute
  cases hcs : path.toList with
  | nil => rfl
  | cons c cs =>
    rw [hcs] at h
    by_cases hc : c = '/'
    · subst hc
      cases h
    · simpa using hc

lemma join_empty {rest : String} (hrest : isAbsolute rest = false) : Path.join "" rest = rest := by
  rw [Path.join, hrest]
  simp

/-- The text of a path that goes on from another one, which ends with a slash or gets one. -/
lemma join_text {base rest : String} (hrest : isAbsolute rest = false) (hbase : base ≠ "") :
    ∃ cs, (Path.join base rest).toList = cs ++ '/' :: rest.toList ∧
      (base.toList = cs ∨ base.toList = cs ++ ['/']) := by
  unfold Path.join
  rw [hrest, if_neg Bool.false_ne_true]
  split
  · exact ⟨base.toList, by simp, .inl rfl⟩
  · rename_i hend
    cases hlast : base.toList.getLast? with
    | none =>
      rw [List.getLast?_eq_none_iff] at hlast
      exact (hbase (by simpa using hlast)).elim
    | some c =>
      obtain ⟨front, hfront⟩ := List.getLast?_eq_some_iff.mp hlast
      obtain rfl : c = '/' := by simpa [hlast] using hend
      exact ⟨front, by simp [hfront], .inr hfront⟩

lemma pieces_of_name {name : String} (h : IsFileName name) : Text.pieces (· == '/') name.toList = [name.toList] := by
  refine pieces_of_free fun c hc => ?_
  rw [beq_eq_false_iff_ne]
  rintro rfl
  exact h.slashless hc

lemma isIdle_toList {name : String} (h : IsFileName name) : isIdle name.toList = false := by
  have hne : name.toList ≠ [] := fun hnil => h.nonempty (by simpa using hnil)
  have hdot : name.toList ≠ ['.'] := fun heq => h.notHere (String.toList_inj.mp heq)
  simp [isIdle, hne, hdot]

/-- The last step to a name in a directory is that name, and nothing asks for a directory there. -/
lemma stepsOf_join_name (base : String) {name : String} (h : IsFileName name) :
    FileTree.stepsOf (Path.join base name) = (activePieces base).map FileTree.stepOf ++ [.into name] := by
  have hlead : isAbsolute name = false := by
    unfold isAbsolute
    rw [beq_eq_false_iff_ne]
    exact fun hhead => h.slashless (List.mem_of_head? hhead)
  have hactive : activePieces name = [name.toList] := by
    rw [activePieces, pieces_of_name h]
    simp [isIdle_toList h]
  have hup : name.toList ≠ ['.', '.'] := fun heq => h.notUp (String.toList_inj.mp heq)
  have hlast : (Text.pieces (· == '/') (Path.join base name).toList).getLast? = some name.toList := by
    by_cases hbase : base = ""
    · rw [hbase, join_empty hlead, pieces_of_name h]
      rfl
    · obtain ⟨cs, htext, _⟩ := join_text hlead hbase
      rw [htext, pieces_append (· == '/') rfl, pieces_of_name h, List.getLast?_concat]
  unfold FileTree.stepsOf
  dsimp only
  rw [hlast, Option.any_some, isIdle_toList h, if_neg Bool.false_ne_true]
  change (activePieces (Path.join base name)).map FileTree.stepOf = _
  rw [activePieces_join base hlead, hactive, List.map_append, List.map_singleton, stepOf_eq_into hup,
    String.ofList_toList]

section Cuts

variable {path base : String} {cs body rest : List Char}

lemma cut_root (h : path.toList = '/' :: body) : cut path = ⟨['/'], Text.pieces (· == '/') body⟩ := by
  unfold cut
  rw [h]
  rfl

lemma cut_dot (h : path.toList = ['.']) : cut path = ⟨['.'], []⟩ := by
  unfold cut
  rw [h]
  rfl

lemma cut_here (h : path.toList = '.' :: '/' :: body) :
    cut path = ⟨['.'], Text.pieces (· == '/') ('/' :: body)⟩ := by
  unfold cut
  rw [h]
  rfl

lemma cut_plain (hroot : ∀ body, path.toList ≠ '/' :: body) (hdot : path.toList ≠ ['.'])
    (hhere : ∀ body, path.toList ≠ '.' :: '/' :: body) :
    cut path = ⟨[], Text.pieces (· == '/') path.toList⟩ := by
  unfold cut
  split
  · rename_i body h
    exact (hroot body h).elim
  · rename_i h
    exact (hdot h).elim
  · rename_i body h
    exact (hhere body h).elim
  · rfl

/-- What a path begins with, by what stands before one of its slashes. -/
def leadBefore : List Char → List Char
  | [] | '/' :: _ => ['/']
  | ['.'] | '.' :: '/' :: _ => ['.']
  | _ => []

/-- A path is cut at any of its slashes, and what stands before it decides what the path begins with. -/
lemma cut_slash (htext : path.toList = cs ++ '/' :: rest) :
    ∃ front, cut path = ⟨leadBefore cs, front ++ Text.pieces (· == '/') rest⟩ ∧
      front.filter (fun piece => !isIdle piece) =
        (Text.pieces (· == '/') cs).filter (fun piece => !isIdle piece) := by
  have happend : ∀ front, Text.pieces (· == '/') (front ++ '/' :: rest) =
      Text.pieces (· == '/') front ++ Text.pieces (· == '/') rest :=
    fun front => pieces_append (· == '/') rfl front rest
  unfold leadBefore
  split
  · exact ⟨[], cut_root htext, rfl⟩
  · rename_i body
    exact ⟨Text.pieces (· == '/') body, by rw [cut_root (htext.trans (List.cons_append ..)), happend], rfl⟩
  · exact ⟨[[]], by rw [cut_here htext]; rfl, rfl⟩
  · rename_i body
    exact ⟨Text.pieces (· == '/') ('/' :: body), by rw [cut_here htext, ← happend]; rfl, rfl⟩
  · rename_i hempty hroot hdot hhere
    refine ⟨Text.pieces (· == '/') cs, ?_, rfl⟩
    obtain ⟨c, more, rfl⟩ := List.exists_cons_of_ne_nil hempty
    rw [List.cons_append] at htext
    rw [cut_plain, htext, ← List.cons_append, happend]
    · rintro body hbody
      rw [htext, List.cons.injEq] at hbody
      exact hroot more (by rw [hbody.1])
    · rintro hbody
      rw [htext] at hbody
      simp at hbody
    · rintro body hbody
      rw [htext, List.cons.injEq] at hbody
      cases more with
      | nil => exact hdot (by rw [hbody.1])
      | cons d more => exact hhere more (by rw [hbody.1, (List.cons.inj hbody.2).1])

lemma lead_of_text (htext : path.toList = cs) (hne : cs ≠ []) : (cut path).lead = leadBefore cs := by
  unfold leadBefore
  split
  · contradiction
  · rw [cut_root htext]
  · rw [cut_dot htext]
  · rw [cut_here htext]
  · rename_i _ hroot hdot hhere
    rw [cut_plain]
    · exact fun body hbody => hroot body (htext.symm.trans hbody)
    · exact fun hbody => hdot (htext.symm.trans hbody)
    · exact fun body hbody => hhere body (htext.symm.trans hbody)

/-- What stands before a slash is cut as it would be alone, with or without that slash. -/
lemma cut_before_slash (hpath : path.toList = cs ++ '/' :: rest)
    (hbase : base.toList = cs ∨ base.toList = cs ++ ['/']) (hne : base ≠ "") :
    ∃ front, cut path = ⟨(cut base).lead, front ++ Text.pieces (· == '/') rest⟩ ∧
      front.filter (fun piece => !isIdle piece) = activePieces base := by
  obtain ⟨front, hcut, hfront⟩ := cut_slash hpath
  rcases hbase with hbase | hbase
  · have hcs : cs ≠ [] := fun hnil => hne (by simpa [hnil] using hbase)
    refine ⟨front, by rw [hcut, lead_of_text hbase hcs], ?_⟩
    rw [hfront, activePieces, hbase]
  · obtain ⟨_, hcut', _⟩ := cut_slash hbase
    refine ⟨front, by rw [hcut, hcut'], ?_⟩
    rw [hfront, activePieces, hbase, pieces_append (· == '/') rfl, List.filter_append]
    exact (List.append_nil _).symm

end Cuts

/-- A path that goes on from another one is cut as that one is, and then at its own slashes. -/
lemma cut_join (base : String) {rest : String} (hrest : (cut rest).lead = []) :
    ∃ front, cut (Path.join base rest) = ⟨(cut base).lead, front ++ (cut rest).pieces⟩ ∧
      front.filter (fun piece => !isIdle piece) = activePieces base := by
  have habsolute := isAbsolute_of_lead hrest
  by_cases hbase : base = ""
  · subst hbase
    rw [join_empty habsolute]
    refine ⟨[], ?_, by decide⟩
    rw [List.nil_append, show (cut "").lead = [] by decide, ← hrest]
  · obtain ⟨cs, htext, hcs⟩ := join_text habsolute hbase
    rw [pieces_of_lead hrest]
    exact cut_before_slash htext hcs hbase

lemma components_join (base : String) {rest : String} (hrest : (cut rest).lead = []) :
    components (Path.join base rest) = components base ++ components rest := by
  obtain ⟨front, hcut, hfront⟩ := cut_join base hrest
  rw [components_eq base, components, components, hcut, hrest, List.filter_append, hfront, List.map_append,
    List.append_assoc]
  rfl

/-! ### Paths of names -/

/-- The path that leads through names. -/
def pathOfNames (names : Place) : String := Text.join "/" names

lemma pathOfNames_singleton (name : String) : pathOfNames [name] = name := rfl

section Names

variable {names : Place} (hnames : ∀ name ∈ names, IsFileName name)

include hnames

lemma cut_pathOfNames (hne : names ≠ []) : cut (pathOfNames names) = ⟨[], names.map String.toList⟩ := by
  obtain ⟨first, others, rfl⟩ := List.exists_cons_of_ne_nil hne
  have hfree : ∀ piece ∈ first.toList :: others.map String.toList, '/' ∉ piece := by
    rw [← List.map_cons]
    intro piece hpiece
    obtain ⟨name, hname, rfl⟩ := List.mem_map.mp hpiece
    exact (hnames name hname).slashless
  have htext : Cut.text ⟨[], first.toList :: others.map String.toList⟩ = pathOfNames (first :: others) := by
    rw [← List.map_cons, Cut.text, List.map_map, pathOfNames]
    simp [Function.comp_def]
  rw [← htext]
  exact cut_cutText hfree (isIdle_toList (hnames _ List.mem_cons_self))

lemma filter_toList : (names.map String.toList).filter (fun piece => !isIdle piece) = names.map String.toList := by
  rw [List.filter_eq_self]
  intro piece hpiece
  obtain ⟨name, hname, rfl⟩ := List.mem_map.mp hpiece
  simp [isIdle_toList (hnames name hname)]

lemma components_pathOfNames (hne : names ≠ []) : components (pathOfNames names) = names.map .name := by
  rw [components, cut_pathOfNames hnames hne]
  dsimp only
  rw [filter_toList hnames, show leadComponents [] = [] from rfl, List.nil_append, List.map_map]
  refine List.map_congr_left fun name hname => ?_
  have hup : name.toList ≠ ['.', '.'] := fun heq => (hnames name hname).notUp (String.toList_inj.mp heq)
  simp [ofPiece, hup]

lemma isPlain_pathOfNames (hne : names ≠ []) : isPlain (pathOfNames names) = true :=
  isPlain_iff_names.mpr ⟨names, components_pathOfNames hnames hne⟩

lemma namesOf_pathOfNames (hne : names ≠ []) : namesOf (pathOfNames names) = names :=
  namesOf_of_components (components_pathOfNames hnames hne)

end Names

/-! ### Paths relative to a workspace -/

lemma dropPieces_cons_idle {piece : List Char} (hidle : isIdle piece = true) (n : Nat) (pieces : List (List Char)) :
    dropPieces n (piece :: pieces) = dropPieces n pieces := by
  cases n with
  | zero => rw [dropPieces, dropPieces, List.dropWhile_cons_of_pos hidle]
  | succ n => rw [dropPieces, dropPieces, List.dropWhile_cons_of_pos hidle]

/-- Dropping as many pieces as count in a front part leaves the back part, if its first piece counts. -/
lemma dropPieces_append {back : List (List Char)}
    (hback : ∀ piece, back.head? = some piece → isIdle piece = false) (front : List (List Char)) :
    dropPieces (front.filter fun piece => !isIdle piece).length (front ++ back) = back := by
  induction front with
  | nil =>
    cases back with
    | nil => rfl
    | cons piece back => exact List.dropWhile_cons_of_neg (by simp [hback piece rfl])
  | cons piece front ih =>
    by_cases hidle : isIdle piece = true
    · rw [List.filter_cons_of_neg (by simp [hidle]), List.cons_append, dropPieces_cons_idle hidle, ih]
    · rw [List.filter_cons_of_pos (by simpa using hidle), List.length_cons, List.cons_append, dropPieces,
        List.dropWhile_cons_of_neg hidle]
      exact ih

lemma trimEnd_of_last (lead : List Char) {pieces : List (List Char)}
    (hlast : ∀ piece, pieces.getLast? = some piece → isIdle piece = false) :
    Cut.trimEnd ⟨lead, pieces⟩ = ⟨lead, pieces⟩ := by
  rcases List.eq_nil_or_concat pieces with rfl | ⟨init, last, rfl⟩
  · rfl
  · have hactive : isIdle last = false := hlast last (by simp)
    simp [Cut.trimEnd, hactive]

/-- The first piece of a path that begins with a name is that name. -/
lemma head_of_lead {path : String} (hlead : (cut path).lead = []) (hne : path ≠ "") {piece : List Char}
    (hpiece : (Text.pieces (· == '/') path.toList).head? = some piece) : isIdle piece = false := by
  have htext := cut_text path
  rw [Cut.text, hlead, pieces_of_lead hlead] at htext
  obtain ⟨others, hpieces⟩ := List.head?_eq_some_iff.mp hpiece
  rw [hpieces, List.map_cons] at htext
  have hbegin : path.toList = piece ∨ ∃ rest, path.toList = piece ++ '/' :: rest := by
    cases others with
    | nil => exact .inl (by rw [← htext]; simp [Text.join])
    | cons next others =>
      refine .inr ⟨(Text.join "/" ((next :: others).map String.ofList)).toList, ?_⟩
      rw [← htext]
      simp [Text.join]
  rw [Bool.eq_false_iff]
  intro hidle
  simp only [isIdle, Bool.or_eq_true, beq_iff_eq] at hidle
  rcases hidle with rfl | rfl
  · rcases hbegin with hbegin | ⟨rest, hbegin⟩
    · exact hne (by simpa using hbegin)
    · rw [cut_root hbegin] at hlead
      cases hlead
  · rcases hbegin with hbegin | ⟨rest, hbegin⟩
    · rw [cut_dot hbegin] at hlead
      cases hlead
    · rw [cut_here hbegin] at hlead
      cases hlead

/-- Relative to a base, a path that goes on from it is what it goes on with. -/
lemma below?_join_of_active (base : String) {rest : String} (hlead : (cut rest).lead = []) (hends : EndsActive rest) :
    below? base (Path.join base rest) = some rest := by
  have hne : rest ≠ "" := by
    rintro rfl
    cases hends
  have hpieces := pieces_of_lead hlead
  have hlast : ∀ (front : List (List Char)) piece, (front ++ (cut rest).pieces).getLast? = some piece →
      isIdle piece = false := by
    intro front piece hpiece
    rw [hpieces, List.getLast?_append_of_ne_nil _ (pieces_ne_nil _ _)] at hpiece
    unfold EndsActive at hends
    simpa [hpiece] using hends
  have hhead : ∀ piece, (cut rest).pieces.head? = some piece → isIdle piece = false := by
    rw [hpieces]
    exact fun piece => head_of_lead hlead hne
  have htext : Cut.text ⟨[], (cut rest).pieces⟩ = rest := by
    rw [← hlead]
    exact cut_text rest
  obtain ⟨front, hcut, hfront⟩ := cut_join base hlead
  have hbegins : (components base).isPrefixOf (components (Path.join base rest)) = true := by
    rw [components_join base hlead, List.isPrefixOf_iff_prefix]
    exact List.prefix_append _ _
  unfold below?
  simp only [hbegins, Bool.not_true, Bool.false_eq_true, if_false]
  by_cases hempty : components base = []
  · obtain rfl : base = "" := by
      by_contra hbase
      have hplain : isPlain base = true := isPlain_iff_names.mpr ⟨[], hempty⟩
      exact (isPlain_names hplain).2.2 hbase (namesOf_of_components hempty)
    rw [join_empty (isAbsolute_of_lead hlead), hempty, if_pos List.isEmpty_nil]
    have htrim := trimEnd_of_last (cut rest).lead (fun piece => hlast [] piece)
    exact congrArg some ((congrArg Cut.text htrim).trans (cut_text rest))
  · have hlength : (components base).length - (leadComponents (cut base).lead).length =
        (front.filter fun piece => !isIdle piece).length := by
      rw [components_eq, hfront]
      simp
    rw [hcut, trimEnd_of_last _ (hlast front), if_neg (by simpa using hempty)]
    dsimp only
    rw [hlength, dropPieces_append hhead, htext]

lemma endsActive_pathOfNames {names : Place} (hnames : ∀ name ∈ names, IsFileName name) (hne : names ≠ []) :
    EndsActive (pathOfNames names) := by
  have hcut := cut_pathOfNames hnames hne
  have hpieces := pieces_of_lead (show (cut (pathOfNames names)).lead = [] by rw [hcut])
  rw [hcut] at hpieces
  obtain ⟨front, last, rfl⟩ := List.eq_nil_or_concat names |>.resolve_left hne
  unfold EndsActive
  rw [← hpieces]
  simpa using isIdle_toList (hnames last (by simp))

/-- Paths that go on from one workspace are the same only if they go on with the same names. -/
lemma same_join (workspace : String) {names names' : Place} (hnames : ∀ name ∈ names, IsFileName name)
    (hne : names ≠ []) (hnames' : ∀ name ∈ names', IsFileName name) (hne' : names' ≠ []) :
    Path.same (Path.join workspace (pathOfNames names)) (Path.join workspace (pathOfNames names')) = true ↔
      names = names' := by
  have hlead : ∀ {names : Place}, (∀ name ∈ names, IsFileName name) → names ≠ [] →
      (cut (pathOfNames names)).lead = [] := by
    intro names hnames hne
    rw [cut_pathOfNames hnames hne]
  rw [Path.same, beq_iff_eq, components_join workspace (hlead hnames hne),
    components_join workspace (hlead hnames' hne'), List.append_cancel_left_eq,
    components_pathOfNames hnames hne, components_pathOfNames hnames' hne']
  have hinjective : Function.Injective Component.name := fun _ _ h => Component.name.inj h
  exact (List.map_injective_iff.mpr hinjective).eq_iff

/-! ### Paths joined twice -/

lemma lead_of_plain {path : String} (h : isPlain path = true) : (cut path).lead = [] := by
  obtain ⟨names, hnames⟩ := isPlain_iff_names.mp h
  rw [components_eq] at hnames
  rcases cut_lead path with hlead | hlead | hlead
  · cases names <;> simp [hlead, leadComponents] at hnames
  · cases names <;> simp [hlead, leadComponents] at hnames
  · exact hlead

/-- The slash that a path needs before another one can go on from it. -/
def joint (base : String) : String := if base.toList.getLast?.any (· != '/') then "/" else ""

lemma join_eq (base : String) {rest : String} (h : isAbsolute rest = false) : Path.join base rest = base ++ joint base ++ rest := by
  unfold Path.join joint
  rw [h, if_neg Bool.false_ne_true]
  split
  · rfl
  · rw [String.append_empty]

lemma joint_append (base : String) {rest : String} (hne : rest ≠ "") : joint (base ++ rest) = joint rest := by
  have hchars : rest.toList ≠ [] := by simpa using hne
  rw [joint, joint, String.toList_append, List.getLast?_append_of_ne_nil _ hchars]

lemma joint_joint (base : String) : joint (base ++ joint base) = "" := by
  by_cases hlast : base.toList.getLast?.any (· != '/') = true
  · rw [show joint base = "/" from if_pos hlast, joint_append base (by decide)]
    decide
  · rw [show joint base = "" from if_neg hlast, String.append_empty]
    exact if_neg hlast

/-- It does not matter which two of three paths are joined first. -/
lemma join_assoc (base : String) {rest more : String} (hrest : isAbsolute rest = false)
    (hmore : isAbsolute more = false) : Path.join (Path.join base rest) more = Path.join base (Path.join rest more) := by
  have hjoined : isAbsolute (Path.join rest more) = false := by rw [isAbsolute_join rest hmore, hrest]
  rw [join_eq _ hmore, join_eq base hrest, join_eq base hjoined]
  by_cases hne : rest = ""
  · rw [hne, String.append_empty, joint_joint, String.append_empty, join_empty hmore]
  · rw [joint_append _ hne, join_eq rest hmore]
    simp only [String.append_assoc]

lemma lead_join {rest more : String} (hrest : (cut rest).lead = []) (hmore : (cut more).lead = []) :
    (cut (Path.join rest more)).lead = [] := by
  obtain ⟨front, hcut, _⟩ := cut_join rest hmore
  rw [hcut, hrest]

lemma EndsActive.join (base : String) {rest : String} (hrest : isAbsolute rest = false) (h : EndsActive rest) :
    EndsActive (Path.join base rest) := by
  by_cases hbase : base = ""
  · rwa [hbase, join_empty hrest]
  · obtain ⟨cs, htext, _⟩ := join_text hrest hbase
    unfold EndsActive
    rwa [htext, pieces_append (· == '/') rfl, List.getLast?_append_of_ne_nil _ (pieces_ne_nil _ _)]

/-- A path that goes on from another one ends as it does itself. -/
lemma endsActive_of_join {base rest : String} (hrest : isAbsolute rest = false) (h : EndsActive (Path.join base rest)) :
    EndsActive rest := by
  by_cases hbase : base = ""
  · rwa [hbase, join_empty hrest] at h
  · obtain ⟨cs, htext, _⟩ := join_text hrest hbase
    unfold EndsActive at h
    rwa [htext, pieces_append (· == '/') rfl, List.getLast?_append_of_ne_nil _ (pieces_ne_nil _ _)] at h

/-- A walk of the whole workspace goes on from nothing below it. -/
lemma joined_empty (workspace : String) {more : String} (hmore : isAbsolute more = false) :
    Path.join workspace more = Path.join workspace (Path.join "" more) := by rw [join_empty hmore]

/-! ### Names in an archive -/

lemma base_join {rest : String} (h : isAbsolute rest = false) :
    Path.join Archive.base rest = Archive.base ++ "/" ++ rest := by
  rw [join_eq Archive.base h, show joint Archive.base = "/" by decide]

section Stored

variable {names : Place} (hnames : ∀ name ∈ names, IsFileName name) (hne : names ≠ [])

include hnames hne

lemma base_join_names : Path.join Archive.base (pathOfNames names) = pathOfNames (Archive.base :: names) := by
  rw [base_join (isAbsolute_of_lead (by rw [cut_pathOfNames hnames hne]))]
  exact (join_append "/" (List.cons_ne_nil Archive.base []) hne).symm

/-- The name that an archive stores for a file is the base and the names of the file. -/
lemma storedName_eq {stored : String}
    (h : Archive.storedName (Path.join Archive.base (pathOfNames names)) = .ok stored) :
    stored = pathOfNames (Archive.base :: names) := by
  have hbase : IsFileName Archive.base := by decide
  have hall : ∀ name ∈ Archive.base :: names, IsFileName name := List.forall_mem_cons.mpr ⟨hbase, hnames⟩
  have hplain : Archive.plainName (pathOfNames (Archive.base :: names)) = pathOfNames (Archive.base :: names) := by
    have hend : ((pathOfNames (Archive.base :: names)).toList.getLast? == some '/') = false := by
      simpa using (endsActive_pathOfNames hall (by simp)).last_ne
    rw [Archive.plainName, hend, components_pathOfNames hall (by simp), List.filterMap_map]
    simp [pathOfNames]
  rw [base_join_names hnames hne] at h
  unfold Archive.storedName at h
  dsimp only at h
  rw [hplain] at h
  split at h
  · exact (Except.ok.inj h).symm
  · split at h
    · cases h
    · split at h
      · cases h
      · exact (Except.ok.inj h).symm

end Stored

end CrossBuild.Proofs
