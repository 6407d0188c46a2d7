import CrossBuild.Directive.Basic
import CrossBuild.Proofs.MapLookup
import CrossBuild.Proofs.Sequencing
import CrossBuild.Proofs.TextPieces

/-!
# What a directive means

The reader of directives folds one group after another into a map of links. Here a directive is given a
meaning on its text alone: a group joins the names on the two sides of its colon, both ways, and a later
group without a colon takes away what its names link to if the rule says so. `parse_meaning` shows that
the reader finds this meaning, and which group it blames where there is none.
-/

namespace CrossBuild.Proofs
open Directive Text

/-! ### The meaning of groups -/

/-- A group with one colon at most and no empty name. -/
structure IsWellFormed (group : String) : Prop where
  colons : group.toList.count ':' ≤ 1
  names : ∀ side ∈ splitAt ':' group, "" ∉ splitAt ',' side

instance (group : String) : Decidable (IsWellFormed group) :=
  decidable_of_iff
    (group.toList.count ':' ≤ 1 ∧ ∀ side ∈ splitAt ':' group, "" ∉ splitAt ',' side)
    ⟨fun h => ⟨h.1, h.2⟩, fun h => ⟨h.1, h.2⟩⟩

/-- What is wrong with a group that is not well formed. -/
def faultOf (group : String) : DirectiveError :=
  if 2 ≤ group.toList.count ':' then .tooManyColons group else .emptyItem group

def HasName (group name : String) : Prop := ∃ side ∈ splitAt ':' group, name ∈ splitAt ',' side

/-- The names stand on different sides of the group's colon. -/
def Joins (group p q : String) : Prop :=
  ∃ left right, splitAt ':' group = [left, right] ∧
    (p ∈ splitAt ',' left ∧ q ∈ splitAt ',' right ∨ q ∈ splitAt ',' left ∧ p ∈ splitAt ',' right)

instance (group name : String) : Decidable (HasName group name) :=
  inferInstanceAs (Decidable (∃ side ∈ splitAt ':' group, name ∈ splitAt ',' side))

instance (group p q : String) : Decidable (Joins group p q) :=
  match h : splitAt ':' group with
  | [left, right] =>
    decidable_of_iff
      (p ∈ splitAt ',' left ∧ q ∈ splitAt ',' right ∨ q ∈ splitAt ',' left ∧ p ∈ splitAt ',' right)
      (by simp [Joins, h])
  | [] => isFalse (by simp [Joins, h])
  | [_] => isFalse (by simp [Joins, h])
  | _ :: _ :: _ :: _ => isFalse (by simp [Joins, h])

/-- The group makes a name forget its links. -/
def Clears (rule : ColonlessRule) (group name : String) : Prop :=
  rule = .reset ∧ ':' ∉ group.toList ∧ HasName group name

instance (rule : ColonlessRule) (group name : String) : Decidable (Clears rule group name) :=
  inferInstanceAs (Decidable (rule = .reset ∧ ':' ∉ group.toList ∧ HasName group name))

/-- Some group joins the names, and no group after it makes the first one forget that. -/
def Linked (rule : ColonlessRule) (groups : List String) (p q : String) : Prop :=
  ∃ before group after, groups = before ++ group :: after ∧ Joins group p q ∧
    ∀ later ∈ after, ¬Clears rule later p

lemma joins_comm {group p q : String} : Joins group p q ↔ Joins group q p := by
  unfold Joins
  constructor
  · rintro ⟨left, right, hsides, h⟩
    exact ⟨left, right, hsides, h.symm⟩
  · rintro ⟨left, right, hsides, h⟩
    exact ⟨left, right, hsides, h.symm⟩

lemma linked_nil (rule : ColonlessRule) (p q : String) : ¬Linked rule [] p q := by
  rintro ⟨before, group, after, heq, _⟩
  simp at heq

lemma linked_cons {rule : ColonlessRule} {group : String} {groups : List String} {p q : String} :
    Linked rule (group :: groups) p q ↔
      Linked rule groups p q ∨ Joins group p q ∧ ∀ later ∈ groups, ¬Clears rule later p := by
  constructor
  · rintro ⟨before, chosen, after, heq, hjoins, hkept⟩
    cases before with
    | nil =>
      cases heq
      exact .inr ⟨hjoins, hkept⟩
    | cons first before =>
      cases heq
      exact .inl ⟨before, chosen, after, rfl, hjoins, hkept⟩
  · rintro (⟨before, chosen, after, rfl, hjoins, hkept⟩ | ⟨hjoins, hkept⟩)
    · exact ⟨group :: before, chosen, after, rfl, hjoins, hkept⟩
    · exact ⟨[], group, groups, rfl, hjoins, hkept⟩

instance decidableLinked (rule : ColonlessRule) (p q : String) : DecidablePred (Linked rule · p q)
  | [] => isFalse (linked_nil rule p q)
  | _ :: groups =>
    have := decidableLinked rule p q groups
    decidable_of_iff _ linked_cons.symm

/-- Where nothing is forgotten, it does not matter in which group names are joined. -/
lemma linked_merge {groups : List String} {p q : String} :
    Linked .merge groups p q ↔ ∃ group ∈ groups, Joins group p q := by
  have hkept : ∀ later, ¬Clears .merge later p := by
    rintro later ⟨hrule, _⟩
    cases hrule
  constructor
  · rintro ⟨before, group, after, rfl, hjoins, _⟩
    exact ⟨group, by simp, hjoins⟩
  · rintro ⟨group, hgroup, hjoins⟩
    obtain ⟨before, after, rfl⟩ := List.append_of_mem hgroup
    exact ⟨before, group, after, rfl, hjoins, fun later _ => hkept later⟩

/-! ### Reading one group -/

lemma names?_eq (side : List Char) :
    names? side = if "" ∈ splitAt ',' (String.ofList side) then none
      else some (splitAt ',' (String.ofList side)) := by
  have hempty : (pieces (· == ',') side).any (·.isEmpty) = true ↔
      "" ∈ splitAt ',' (String.ofList side) := by
    simp only [splitAt, List.any_eq_true, List.isEmpty_iff, List.mem_map, String.toList_ofList]
    constructor
    · rintro ⟨piece, hpiece, rfl⟩
      exact ⟨[], hpiece, rfl⟩
    · rintro ⟨piece, hpiece, heq⟩
      refine ⟨piece, hpiece, ?_⟩
      simpa using congrArg String.toList heq
  simp only [names?, hempty]
  simp only [splitAt, String.toList_ofList]

/-- A group is read as what its sides say. -/
lemma ofText_eq (group : String) :
    Group.ofText group =
      match splitAt ':' group with
      | [side] =>
        if "" ∈ splitAt ',' side then .error (.emptyItem group) else .ok (.alone (splitAt ',' side))
      | [left, right] =>
        if "" ∈ splitAt ',' left ∨ "" ∈ splitAt ',' right then .error (.emptyItem group)
        else .ok (.linked (splitAt ',' left) (splitAt ',' right))
      | _ => .error (.tooManyColons group) := by
  unfold Group.ofText
  conv_rhs => rw [splitAt]
  rcases pieces (· == ':') group.toList with _ | ⟨left, _ | ⟨right, _ | ⟨third, more⟩⟩⟩
  · rfl
  · simp only [List.map_cons, List.map_nil, names?_eq]
    by_cases hleft : "" ∈ splitAt ',' (String.ofList left)
    · simp [hleft]
    · simp [hleft]
  · simp only [List.map_cons, List.map_nil, names?_eq]
    by_cases hleft : "" ∈ splitAt ',' (String.ofList left)
    · simp [hleft]
    · by_cases hright : "" ∈ splitAt ',' (String.ofList right)
      · simp [hleft, hright]
      · simp [hleft, hright]
  · rfl

/-- What reading a group gives, in each of the ways in which it can end. -/
lemma ofText_cases (group : String) :
    (∃ side, splitAt ':' group = [side] ∧ IsWellFormed group ∧
      Group.ofText group = .ok (.alone (splitAt ',' side))) ∨
    (∃ left right, splitAt ':' group = [left, right] ∧ IsWellFormed group ∧
      Group.ofText group = .ok (.linked (splitAt ',' left) (splitAt ',' right))) ∨
    (¬IsWellFormed group ∧ Group.ofText group = .error (faultOf group)) := by
  have hlength := length_splitAt ':' group
  have hread := ofText_eq group
  rcases hsides : splitAt ':' group with _ | ⟨left, _ | ⟨right, _ | ⟨third, more⟩⟩⟩
  · exact (splitAt_ne_nil ':' group hsides).elim
  · rw [hsides] at hlength hread
    have hcount : group.toList.count ':' = 0 := by simpa using hlength.symm
    by_cases hleft : "" ∈ splitAt ',' left
    · refine .inr (.inr ⟨fun h => ?_, ?_⟩)
      · exact h.names left (by simp [hsides]) hleft
      · simpa [faultOf, hcount, hleft] using hread
    · refine .inl ⟨left, rfl, ⟨by omega, ?_⟩, by simpa [hleft] using hread⟩
      simpa [hsides] using hleft
  · rw [hsides] at hlength hread
    have hcount : group.toList.count ':' = 1 := by simpa using hlength.symm
    by_cases hempty : "" ∈ splitAt ',' left ∨ "" ∈ splitAt ',' right
    · refine .inr (.inr ⟨fun h => ?_, ?_⟩)
      · have hnames := h.names
        simp only [hsides, List.mem_cons, List.not_mem_nil, or_false, forall_eq_or_imp,
          forall_eq] at hnames
        exact hempty.elim hnames.1 hnames.2
      · simpa [faultOf, hcount, hempty] using hread
    · refine .inr (.inl ⟨left, right, rfl, ⟨by omega, ?_⟩, by simpa only [if_neg hempty] using hread⟩)
      rw [not_or] at hempty
      simpa [hsides] using hempty
  · rw [hsides] at hlength hread
    have hcount : 2 ≤ group.toList.count ':' := by
      simp only [List.length_cons] at hlength
      omega
    refine .inr (.inr ⟨fun h => ?_, ?_⟩)
    · have hcolons := h.colons
      omega
    · simpa [faultOf, hcount] using hread

lemma ofText_succeeds_iff (group : String) :
    (∃ g, Group.ofText group = .ok g) ↔ IsWellFormed group := by
  rcases ofText_cases group with ⟨_, _, hwf, hread⟩ | ⟨_, _, _, hwf, hread⟩ | ⟨hnot, hread⟩
  · exact iff_of_true ⟨_, hread⟩ hwf
  · exact iff_of_true ⟨_, hread⟩ hwf
  · refine iff_of_false ?_ hnot
    rintro ⟨g, hg⟩
    rw [hread] at hg
    cases hg

lemma ofText_eq_error {group : String} {e : DirectiveError} :
    Group.ofText group = .error e ↔ ¬IsWellFormed group ∧ e = faultOf group := by
  rcases ofText_cases group with ⟨_, _, hwf, hread⟩ | ⟨_, _, _, hwf, hread⟩ | ⟨hnot, hread⟩
  · simp [hread, hwf]
  · simp [hread, hwf]
  · simp [hread, hnot, eq_comm]

/-! ### What one group changes -/

/-- The directive links one name to another. -/
def LinksTo (d : Directive) (p q : String) : Prop :=
  ∃ linked, d.links? p = some linked ∧ linked.contains q = true

instance (d : Directive) (p q : String) : Decidable (LinksTo d p q) :=
  decidable_of_iff (((d.links? p).any fun linked => linked.contains q) = true) (by
    simp [LinksTo, Option.any_eq_true])

lemma foldl_or {α β : Type} {f : α → β → α} {P : α → Prop} {R : β → Prop}
    (h : ∀ a b, P (f a b) ↔ P a ∨ R b) (bs : List β) (a : α) :
    P (bs.foldl f a) ↔ P a ∨ ∃ b ∈ bs, R b := by
  induction bs generalizing a with
  | nil => simp
  | cons b bs ih => simp only [List.foldl_cons, ih, h, List.exists_mem_cons_iff, or_assoc]

lemma foldl_and {α β : Type} {f : α → β → α} {P : α → Prop} {R : β → Prop}
    (h : ∀ a b, P (f a b) ↔ P a ∧ R b) (bs : List β) (a : α) :
    P (bs.foldl f a) ↔ P a ∧ ∀ b ∈ bs, R b := by
  induction bs generalizing a with
  | nil => simp
  | cons b bs ih => simp only [List.foldl_cons, ih, h, List.forall_mem_cons, and_assoc]

lemma contains_addName (rule : ColonlessRule) (d : Directive) (name k : String) :
    (d.addName rule name).contains k = true ↔ d.contains k = true ∨ k = name := by
  cases rule with
  | reset => exact (contains_update d.links k name (fun _ => ∅)).trans or_comm
  | merge => exact (contains_update d.links k name _).trans or_comm

lemma linksTo_addName (rule : ColonlessRule) (d : Directive) (name p q : String) :
    LinksTo (d.addName rule name) p q ↔ LinksTo d p q ∧ ¬(rule = .reset ∧ p = name) := by
  have hnothing : (∅ : NameSet).contains q = false := rfl
  by_cases hp : p = name
  · subst hp
    cases rule with
    | reset => simp [LinksTo, addName, links?, get?_insert, hnothing]
    | merge =>
      cases hget : d.links.get? p with
      | none => simp [LinksTo, addName, links?, get?_update, hget, hnothing]
      | some linked => simp [LinksTo, addName, links?, get?_update, hget]
  · cases rule with
    | reset => simp [LinksTo, addName, links?, get?_insert, hp]
    | merge => simp [LinksTo, addName, links?, get?_update, hp]

lemma contains_addEdge (d : Directive) (a b k : String) :
    (d.addEdge a b).contains k = true ↔ d.contains k = true ∨ k = a :=
  (contains_update d.links k a _).trans or_comm

lemma linksTo_addEdge (d : Directive) (a b p q : String) :
    LinksTo (d.addEdge a b) p q ↔ LinksTo d p q ∨ p = a ∧ q = b := by
  by_cases hp : p = a
  · subst hp
    have hnothing : (∅ : NameSet).contains q = false := rfl
    cases hget : d.links.get? p with
    | none => simp [LinksTo, addEdge, links?, get?_update, hget, contains_add, hnothing]
    | some linked => simp [LinksTo, addEdge, links?, get?_update, hget, contains_add, or_comm]
  · simp [LinksTo, addEdge, links?, get?_update, hp]

lemma contains_addLink (d : Directive) (a b k : String) :
    (d.addLink a b).contains k = true ↔ d.contains k = true ∨ k = a ∨ k = b := by
  rw [addLink, contains_addEdge, contains_addEdge, or_assoc]

lemma linksTo_addLink (d : Directive) (a b p q : String) :
    LinksTo (d.addLink a b) p q ↔ LinksTo d p q ∨ p = a ∧ q = b ∨ q = a ∧ p = b := by
  rw [addLink, linksTo_addEdge, linksTo_addEdge, or_assoc, and_comm (a := p = b)]

/-- Every pair of sides is linked both ways. -/
lemma linksTo_addLinks (left right : List String) (d : Directive) (p q : String) :
    LinksTo (left.foldl (fun d l => right.foldl (fun d r => d.addLink l r) d) d) p q ↔
      LinksTo d p q ∨ p ∈ left ∧ q ∈ right ∨ q ∈ left ∧ p ∈ right := by
  have hinner : ∀ d l, LinksTo (right.foldl (fun d r => d.addLink l r) d) p q ↔
      LinksTo d p q ∨ ∃ r ∈ right, p = l ∧ q = r ∨ q = l ∧ p = r := fun d l =>
    foldl_or (P := fun d => LinksTo d p q) (fun d r => linksTo_addLink d l r p q) right d
  refine (foldl_or (P := fun d => LinksTo d p q) hinner left d).trans (or_congr_right ?_)
  constructor
  · rintro ⟨l, hl, r, hr, ⟨rfl, rfl⟩ | ⟨rfl, rfl⟩⟩
    · exact .inl ⟨hl, hr⟩
    · exact .inr ⟨hl, hr⟩
  · rintro (⟨hl, hr⟩ | ⟨hl, hr⟩)
    · exact ⟨p, hl, q, hr, .inl ⟨rfl, rfl⟩⟩
    · exact ⟨q, hl, p, hr, .inr ⟨rfl, rfl⟩⟩

lemma contains_addLinks {left right : List String} (hleft : left ≠ []) (hright : right ≠ [])
    (d : Directive) (k : String) :
    (left.foldl (fun d l => right.foldl (fun d r => d.addLink l r) d) d).contains k = true ↔
      d.contains k = true ∨ k ∈ left ∨ k ∈ right := by
  have hinner : ∀ (d : Directive) (l : String),
      (right.foldl (fun d r => d.addLink l r) d).contains k = true ↔
        d.contains k = true ∨ ∃ r ∈ right, k = l ∨ k = r := fun d l =>
    foldl_or (P := fun d => d.contains k = true) (fun d r => contains_addLink d l r k) right d
  -- a name of one side becomes a key where it meets a name of the other, and there is one
  refine (foldl_or (P := fun d => d.contains k = true) hinner left d).trans (or_congr_right ?_)
  constructor
  · rintro ⟨l, hl, r, hr, rfl | rfl⟩
    · exact .inl hl
    · exact .inr hr
  · rintro (hl | hr)
    · obtain ⟨r, hr⟩ := List.exists_mem_of_ne_nil right hright
      exact ⟨k, hl, r, hr, .inl rfl⟩
    · obtain ⟨l, hl⟩ := List.exists_mem_of_ne_nil left hleft
      exact ⟨l, hl, k, hr, .inr rfl⟩

lemma contains_addGroup {group : String} {g : Group} (h : Group.ofText group = .ok g)
    (rule : ColonlessRule) (d : Directive) (k : String) :
    (d.addGroup rule g).contains k = true ↔ d.contains k = true ∨ HasName group k := by
  rcases ofText_cases group with
    ⟨side, hsides, _, hread⟩ | ⟨left, right, hsides, _, hread⟩ | ⟨_, hread⟩
  · cases hread.symm.trans h
    have hnames : HasName group k ↔ ∃ name ∈ splitAt ',' side, k = name := by simp [HasName, hsides]
    rw [hnames]
    exact foldl_or (P := fun d => d.contains k = true) (fun d name => contains_addName rule d name k) _ d
  · cases hread.symm.trans h
    have hnames : HasName group k ↔ k ∈ splitAt ',' left ∨ k ∈ splitAt ',' right := by
      simp [HasName, hsides]
    rw [hnames]
    exact contains_addLinks (splitAt_ne_nil ',' left) (splitAt_ne_nil ',' right) d k
  · cases hread.symm.trans h

lemma linksTo_addGroup {group : String} {g : Group} (h : Group.ofText group = .ok g)
    (rule : ColonlessRule) (d : Directive) (p q : String) :
    LinksTo (d.addGroup rule g) p q ↔ Joins group p q ∨ LinksTo d p q ∧ ¬Clears rule group p := by
  have hlength := length_splitAt ':' group
  rcases ofText_cases group with
    ⟨side, hsides, _, hread⟩ | ⟨left, right, hsides, _, hread⟩ | ⟨_, hread⟩
  · cases hread.symm.trans h
    have hcolon : ':' ∉ group.toList := by
      rw [hsides] at hlength
      exact List.count_eq_zero.mp (by simpa using hlength.symm)
    have hjoins : ¬Joins group p q := by simp [Joins, hsides]
    have hclears : Clears rule group p ↔ ∃ name ∈ splitAt ',' side, rule = .reset ∧ p = name := by
      simp [Clears, HasName, hsides, hcolon, and_comm]
    have hfold := foldl_and (P := fun d => LinksTo d p q)
      (fun d name => linksTo_addName rule d name p q) (splitAt ',' side) d
    simp only [addGroup, hfold, hjoins, hclears, false_or, not_exists, not_and]
  · cases hread.symm.trans h
    have hcolon : ':' ∈ group.toList := by
      rw [hsides] at hlength
      exact List.count_pos_iff.mp (by simp at hlength; omega)
    have hclears : ¬Clears rule group p := fun hc => hc.2.1 hcolon
    have hjoins : Joins group p q ↔
        p ∈ splitAt ',' left ∧ q ∈ splitAt ',' right ∨ q ∈ splitAt ',' left ∧ p ∈ splitAt ',' right := by
      simp [Joins, hsides]
    simp only [addGroup, linksTo_addLinks, hjoins, hclears, not_false_iff, and_true]
    rw [or_comm]
  · cases hread.symm.trans h

/-! ### What all groups make -/

lemma contains_addGroups {texts : List String} {gs : List Group}
    (h : List.Forall₂ (fun text g => Group.ofText text = .ok g) texts gs) (rule : ColonlessRule)
    (d : Directive) (k : String) :
    (gs.foldl (addGroup rule) d).contains k = true ↔
      d.contains k = true ∨ ∃ group ∈ texts, HasName group k := by
  induction h generalizing d with
  | nil => simp
  | cons hread _ ih =>
    rw [List.foldl_cons, ih, contains_addGroup hread, List.exists_mem_cons_iff, or_assoc]

/-- The links are those of before that no group clears, and those that the groups make and leave. -/
lemma linksTo_addGroups {texts : List String} {gs : List Group}
    (h : List.Forall₂ (fun text g => Group.ofText text = .ok g) texts gs) (rule : ColonlessRule)
    (d : Directive) (p q : String) :
    LinksTo (gs.foldl (addGroup rule) d) p q ↔
      Linked rule texts p q ∨ LinksTo d p q ∧ ∀ group ∈ texts, ¬Clears rule group p := by
  -- the directive so far is general, as every group changes it for those that follow
  induction h generalizing d with
  | nil => simp [linked_nil]
  | cons hread _ ih =>
    rw [List.foldl_cons, ih, linksTo_addGroup hread, linked_cons, List.forall_mem_cons, or_and_right,
      and_assoc, or_assoc]

lemma parse_eq_ok {rule : ColonlessRule} {text : String} {d : Directive} :
    parse rule text = .ok d ↔
      ∃ gs, List.Forall₂ (fun group g => Group.ofText group = .ok g) (words text) gs ∧
        gs.foldl (addGroup rule) ⟨∅⟩ = d := by
  simp only [parse, groups, bind_eq_ok, pure_eq_ok, mapM_eq_ok]

/-- Reading succeeds just when each group is well formed. -/
lemma parse_succeeds_iff (rule : ColonlessRule) (text : String) :
    (∃ d, parse rule text = .ok d) ↔ ∀ group ∈ words text, IsWellFormed group := by
  simp only [← ofText_succeeds_iff, ← mapM_succeeds_iff, parse, groups, bind_eq_ok, pure_eq_ok]
  constructor
  · rintro ⟨_, gs, hgs, _⟩
    exact ⟨gs, hgs⟩
  · rintro ⟨gs, hgs⟩
    exact ⟨_, gs, hgs, rfl⟩

/-- The first group that is not well formed is the one to blame. -/
lemma parse_eq_error {rule : ColonlessRule} {text : String} {e : DirectiveError} :
    parse rule text = .error e ↔ ∃ before group after, words text = before ++ group :: after ∧
      (∀ earlier ∈ before, IsWellFormed earlier) ∧ ¬IsWellFormed group ∧ e = faultOf group := by
  have hpure : ∀ d : Directive, (pure d : Except DirectiveError Directive) ≠ .error e := by
    simp [pure, Except.pure]
  simp only [parse, groups, bind_eq_error, hpure, and_false, exists_false, or_false, mapM_eq_error,
    ofText_succeeds_iff, ofText_eq_error]

section Meaning

variable {rule : ColonlessRule} {text : String} {d : Directive} (h : parse rule text = .ok d)

include h

lemma contains_parse (k : String) : d.contains k = true ↔ ∃ group ∈ words text, HasName group k := by
  obtain ⟨gs, hgs, rfl⟩ := parse_eq_ok.mp h
  have hnone : (⟨∅⟩ : Directive).contains k = false := rfl
  simp [contains_addGroups hgs, hnone]

lemma linksTo_parse (p q : String) : LinksTo d p q ↔ Linked rule (words text) p q := by
  obtain ⟨gs, hgs, rfl⟩ := parse_eq_ok.mp h
  have hnone : ¬LinksTo ⟨∅⟩ p q := by
    rintro ⟨linked, hlinked, _⟩
    cases hlinked
  simp [linksTo_addGroups hgs, hnone]

end Meaning

/-- Directives with the same names and the same links are the same. -/
lemma directive_ext {d d' : Directive} (hnames : ∀ k, d.contains k = true ↔ d'.contains k = true)
    (hlinks : ∀ p q, LinksTo d p q ↔ LinksTo d' p q) : d = d' := by
  obtain ⟨links⟩ := d
  obtain ⟨links'⟩ := d'
  congr 1
  refine eq_of_get?_eq fun k => ?_
  have hk := hnames k
  simp only [Directive.contains, contains_eq_true] at hk
  cases hget : links.get? k with
  | none =>
    cases hget' : links'.get? k with
    | none => rfl
    | some linked' => simp [hget, hget'] at hk
  | some linked =>
    obtain ⟨linked', hget'⟩ := hk.mp ⟨linked, hget⟩
    rw [hget']
    congr 1
    refine eq_of_contains_eq fun q => ?_
    simpa [LinksTo, links?, hget, hget'] using hlinks k q

/-- With the groups in another order the merged directive is the same. -/
lemma parse_merge_perm {text text' : String} {d : Directive} (h : parse .merge text = .ok d)
    (hperm : (words text').Perm (words text)) : parse .merge text' = .ok d := by
  have hwf := (parse_succeeds_iff .merge text).mp ⟨d, h⟩
  obtain ⟨d', h'⟩ := (parse_succeeds_iff .merge text').mpr fun group hgroup => hwf group (hperm.subset hgroup)
  have hsame : d' = d := by
    refine directive_ext (fun k => ?_) (fun p q => ?_)
    · simp only [contains_parse h', contains_parse h, hperm.mem_iff]
    · simp only [linksTo_parse h', linksTo_parse h, linked_merge, hperm.mem_iff]
  rw [h', hsame]

/-- One more group without a colon adds its names and, if it resets them, takes away the links from
them; the links to them and all others stay. -/
lemma parse_colonless {rule : ColonlessRule} {text text' group : String} {d : Directive}
    (h : parse rule text = .ok d) (hwords : words text' = words text ++ [group])
    (hcolon : ':' ∉ group.toList) (hnames : "" ∉ splitAt ',' group) :
    ∃ d', parse rule text' = .ok d' ∧
      (∀ k, d'.contains k = true ↔ d.contains k = true ∨ k ∈ splitAt ',' group) ∧
      ∀ p q, LinksTo d' p q ↔ LinksTo d p q ∧ ¬(rule = .reset ∧ p ∈ splitAt ',' group) := by
  have hside : splitAt ':' group = [group] := splitAt_of_free hcolon
  have hwf : IsWellFormed group := by
    refine ⟨?_, by simpa [hside] using hnames⟩
    rw [List.count_eq_zero.mpr hcolon]
    exact Nat.zero_le 1
  obtain ⟨gs, hgs, rfl⟩ := parse_eq_ok.mp h
  obtain ⟨g, hg⟩ := (ofText_succeeds_iff group).mpr hwf
  have hread : parse rule text' = .ok ((gs.foldl (addGroup rule) ⟨∅⟩).addGroup rule g) := by
    refine parse_eq_ok.mpr ⟨gs ++ [g], ?_, by rw [List.foldl_append]; rfl⟩
    rw [hwords]
    exact List.rel_append hgs (.cons hg .nil)
  refine ⟨_, hread, fun k => ?_, fun p q => ?_⟩
  · simp [contains_addGroup hg, HasName, hside]
  · simp [linksTo_addGroup hg, Joins, Clears, HasName, hside, hcolon]

/-- What reading a directive gives. It succeeds just on texts of well-formed groups and blames the first
other group; the keys are the names of the groups, and one name links to another just when some group
joins them and no later group clears the first. If nothing is ever cleared, links go both ways and the
order of the groups does not matter; in any case a group without a colon takes away no other links than
those from its own names. -/
theorem parse_meaning (rule : ColonlessRule) (text : String) :
    ((∃ d, parse rule text = .ok d) ↔ ∀ group ∈ words text, IsWellFormed group) ∧
    (∀ e, parse rule text = .error e ↔ ∃ before group after, words text = before ++ group :: after ∧
      (∀ earlier ∈ before, IsWellFormed earlier) ∧ ¬IsWellFormed group ∧ e = faultOf group) ∧
    ∀ d, parse rule text = .ok d →
      (∀ k, d.contains k = true ↔ ∃ group ∈ words text, HasName group k) ∧
      (∀ p q, LinksTo d p q ↔ Linked rule (words text) p q) ∧
      (rule = .merge → (∀ p q, LinksTo d p q → LinksTo d q p) ∧
        ∀ text', (words text').Perm (words text) → parse rule text' = .ok d) ∧
      ∀ text' group, words text' = words text ++ [group] → ':' ∉ group.toList →
        "" ∉ splitAt ',' group → ∃ d', parse rule text' = .ok d' ∧
          (∀ k, d'.contains k = true ↔ d.contains k = true ∨ k ∈ splitAt ',' group) ∧
          ∀ p q, LinksTo d' p q ↔ LinksTo d p q ∧ ¬(rule = .reset ∧ p ∈ splitAt ',' group) := by
  refine ⟨parse_succeeds_iff rule text, fun e => parse_eq_error, fun d h => ?_⟩
  refine ⟨contains_parse h, linksTo_parse h, ?_, fun text' group => parse_colonless h⟩
  rintro rfl
  refine ⟨fun p q hlinks => ?_, fun text' hperm => parse_merge_perm h hperm⟩
  rw [linksTo_parse h, linked_merge] at hlinks ⊢
  obtain ⟨group, hgroup, hjoins⟩ := hlinks
  exact ⟨group, hgroup, joins_comm.mp hjoins⟩

/-- The last group clears `zed`, while what links to it stays. -/
theorem parse_meaning_zed :
    ∃ d, parse .reset "zed:xsim,x13 zed" = .ok d ∧ ¬LinksTo d "zed" "x13" ∧ LinksTo d "x13" "zed" ∧
      parse .reset "zed, a:b:c" = .error (.emptyItem "zed,") := by
  have hwords : words "zed:xsim,x13 zed" = ["zed:xsim,x13", "zed"] := by decide
  obtain ⟨hok, _, hmeaning⟩ := parse_meaning .reset "zed:xsim,x13 zed"
  obtain ⟨_, herror, _⟩ := parse_meaning .reset "zed, a:b:c"
  obtain ⟨d, hd⟩ := hok.mpr (by rw [hwords]; decide)
  obtain ⟨_, hlinks, _⟩ := hmeaning d hd
  rw [hwords] at hlinks
  have hfault : parse .reset "zed, a:b:c" = .error (.emptyItem "zed,") :=
    (herror _).mpr ⟨[], "zed,", ["a:b:c"], by decide, by decide⟩
  exact ⟨d, hd, (hlinks _ _).not.mpr (by decide), (hlinks _ _).mpr (by decide), hfault⟩

end CrossBuild.Proofs
