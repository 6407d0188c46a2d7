import CrossBuild.SortedMap
import Mathlib.Data.List.Nodup
import Mathlib.Tactic.Lemma

/-!
# What a map gives after a change

Looking up, setting and removing entries of sorted maps, for keys that are equal whenever comparing
them says so; and looking up by name in a list where names differ.
-/

namespace CrossBuild.Proofs
open SortedMap

variable {κ ν : Type} [Ord κ]

lemma contains_eq_true (m : SortedMap κ ν) (k : κ) : m.contains k = true ↔ ∃ v, m.get? k = some v := by
  rw [SortedMap.contains, Option.isSome_iff_exists]

lemma increasing_keys (m : SortedMap κ ν) : m.keys.Pairwise (fun a b => compare a b = .lt) :=
  List.pairwise_map.mpr m.increasing

variable [Std.LawfulEqOrd κ]

lemma lookup_insertEntry (k k' : κ) (v : ν) (es : List (κ × ν)) [DecidableEq κ] :
    lookup k (insertEntry k' v es) = if k = k' then some v else lookup k es := by
  induction es with
  | nil => simp [insertEntry, lookup]
  | cons e es ih =>
    obtain ⟨head, w⟩ := e
    unfold insertEntry
    split
    · simp [lookup]
    · rename_i h
      rw [Std.compare_eq_iff_eq] at h
      subst h
      by_cases hk : k = k'
      · simp [lookup, hk]
      · simp [lookup, hk]
    · rename_i h
      have hne : k' ≠ head := by
        rintro rfl
        simp at h
      by_cases hk : k = head
      · simp [lookup, hk, Ne.symm hne]
      · simp [lookup, hk, ih]

lemma lookup_filter (k : κ) (p : κ → Bool) (es : List (κ × ν)) :
    lookup k (es.filter (fun e => p e.1)) = if p k then lookup k es else none := by
  induction es with
  | nil => simp [lookup]
  | cons e es ih =>
    obtain ⟨head, w⟩ := e
    by_cases hk : k = head
    · subst hk
      by_cases hp : p k
      · simp [lookup, hp]
      · simp [ih, hp]
    · by_cases hp : p head
      · simp [lookup, hk, hp, ih]
      · simp [lookup, hk, hp, ih]

lemma get?_insert [Std.TransOrd κ] [DecidableEq κ] (m : SortedMap κ ν) (k k' : κ) (v : ν) :
    (m.insert k' v).get? k = if k = k' then some v else m.get? k :=
  lookup_insertEntry k k' v m.entries

lemma get?_erase [DecidableEq κ] (m : SortedMap κ ν) (k k' : κ) :
    (m.erase k').get? k = if k = k' then none else m.get? k := by
  have h := lookup_filter k (fun k'' => compare k' k'' != .eq) m.entries
  unfold SortedMap.erase SortedMap.filter SortedMap.get?
  rw [h]
  by_cases hk : k = k'
  · simp [hk]
  · have hne : compare k' k ≠ .eq := by
      rw [ne_eq, Std.compare_eq_iff_eq]
      exact Ne.symm hk
    simp [hk, hne]

/-- The entries of a map are what it gives. -/
lemma get?_eq_some [Std.TransOrd κ] (m : SortedMap κ ν) (k : κ) (v : ν) :
    m.get? k = some v ↔ (k, v) ∈ m.entries := by
  obtain ⟨es, hes⟩ := m
  unfold SortedMap.get?
  dsimp only
  induction es with
  | nil => simp [lookup]
  | cons e es ih =>
    obtain ⟨head, w⟩ := e
    obtain ⟨hhead, hrest⟩ := List.pairwise_cons.mp hes
    by_cases hk : k = head
    · subst hk
      have hnot : ∀ v, (k, v) ∉ es := by
        intro v hv
        have hlt := hhead (k, v) hv
        simp at hlt
      simp [lookup, hnot, eq_comm]
    · simp [lookup, hk, ih hrest]

lemma get?_update [Std.TransOrd κ] [DecidableEq κ] (m : SortedMap κ ν) (k k' : κ) (f : Option ν → ν) :
    (m.update k' f).get? k = if k = k' then some (f (m.get? k')) else m.get? k :=
  get?_insert m k k' _

lemma get?_filter (m : SortedMap κ ν) (p : κ → Bool) (k : κ) :
    (m.filter (fun k' _ => p k')).get? k = if p k then m.get? k else none :=
  lookup_filter k p m.entries

/-! ### Keys -/

lemma contains_update [Std.TransOrd κ] [DecidableEq κ] (m : SortedMap κ ν) (k k' : κ)
    (f : Option ν → ν) : (m.update k' f).contains k = true ↔ k = k' ∨ m.contains k = true := by
  rw [contains_eq_true, contains_eq_true, get?_update]
  by_cases hk : k = k'
  · simp [hk]
  · simp [hk]

lemma contains_insert [Std.TransOrd κ] [DecidableEq κ] (m : SortedMap κ ν) (k k' : κ) (v : ν) :
    (m.insert k' v).contains k = true ↔ k = k' ∨ m.contains k = true :=
  contains_update m k k' (fun _ => v)

lemma contains_ofList [Std.TransOrd κ] [DecidableEq κ] (pairs : List (κ × ν)) (k : κ) :
    (ofList pairs).contains k = true ↔ k ∈ pairs.map (·.1) := by
  have hfold : ∀ m : SortedMap κ ν, (pairs.foldl (fun m e => m.insert e.1 e.2) m).contains k = true ↔
      k ∈ pairs.map (·.1) ∨ m.contains k = true := by
    induction pairs with
    | nil => simp
    | cons e pairs ih =>
      intro m
      rw [List.foldl_cons, ih, contains_insert, List.map_cons, List.mem_cons, ← or_assoc,
        or_comm (b := k = e.1)]
  have hnone : ¬(empty : SortedMap κ ν).contains k = true := Bool.false_ne_true
  exact (hfold empty).trans (or_iff_left hnone)

/-- What a map made of pairs gives is one of them. -/
lemma mem_of_get?_ofList [Std.TransOrd κ] [DecidableEq κ] {pairs : List (κ × ν)} {k : κ} {v : ν}
    (h : (ofList pairs).get? k = some v) : (k, v) ∈ pairs := by
  have hfold : ∀ m : SortedMap κ ν, (pairs.foldl (fun m e => m.insert e.1 e.2) m).get? k = some v →
      (k, v) ∈ pairs ∨ m.get? k = some v := by
    clear h
    induction pairs with
    | nil => simp
    | cons e pairs ih =>
      intro m hget
      rcases ih _ hget with hmem | hget
      · exact .inl (List.mem_cons_of_mem e hmem)
      · rw [get?_insert] at hget
        by_cases hk : k = e.1
        · rw [if_pos hk, Option.some_inj] at hget
          exact .inl (by simp [hk, ← hget])
        · exact .inr (by simpa [hk] using hget)
  rcases hfold empty h with hmem | hnone
  · exact hmem
  · cases hnone

lemma mem_keys [Std.TransOrd κ] (m : SortedMap κ ν) (k : κ) : k ∈ m.keys ↔ m.contains k = true := by
  simp [SortedMap.keys, contains_eq_true, get?_eq_some]

lemma nodup_keys (m : SortedMap κ ν) : m.keys.Nodup := by
  refine (increasing_keys m).imp ?_
  rintro a _ hlt rfl
  simp at hlt

/-- Things in increasing order are in the only order that they can be in. -/
lemma eq_of_increasing {α : Type} [Std.OrientedOrd κ] {f : α → κ} {as bs : List α}
    (has : as.Pairwise fun a b => compare (f a) (f b) = .lt) (hbs : bs.Pairwise fun a b => compare (f a) (f b) = .lt)
    (hmem : ∀ a, a ∈ as ↔ a ∈ bs) : as = bs := by
  have hnodup : ∀ {cs : List α}, cs.Pairwise (fun a b => compare (f a) (f b) = .lt) → cs.Nodup := by
    intro cs hcs
    refine hcs.imp ?_
    rintro a _ hlt rfl
    simp at hlt
  refine ((List.perm_ext_iff_of_nodup (hnodup has) (hnodup hbs)).mpr hmem).eq_of_pairwise ?_ has hbs
  intro a b _ _ hab hba
  rw [Std.OrientedCmp.gt_of_lt hab] at hba
  cases hba

/-- Maps with the same keys list them in the same order. -/
lemma keys_eq_of_contains {μ : Type} [Std.TransOrd κ] {m : SortedMap κ ν} {m' : SortedMap κ μ}
    (h : ∀ k, m.contains k = m'.contains k) : m.keys = m'.keys :=
  eq_of_increasing (f := id) (increasing_keys m) (increasing_keys m') fun k => by rw [mem_keys, mem_keys, h]

lemma eq_of_get?_eq [Std.TransOrd κ] {m m' : SortedMap κ ν} (h : ∀ k, m.get? k = m'.get? k) :
    m = m' := by
  have heq : m.entries = m'.entries := by
    refine eq_of_increasing m.increasing m'.increasing ?_
    rintro ⟨k, v⟩
    rw [← get?_eq_some, ← get?_eq_some, h k]
  cases m
  cases m'
  simpa using heq

/-- A map is made of its entries. -/
lemma ofList_entries [Std.TransOrd κ] [DecidableEq κ] (m : SortedMap κ ν) : ofList m.entries = m := by
  refine eq_of_get?_eq fun k => Option.ext fun v => ?_
  constructor
  · intro h
    exact (get?_eq_some m k v).mpr (mem_of_get?_ofList h)
  · intro h
    have hkey : (ofList m.entries).contains k = true := by
      rw [contains_ofList]
      exact List.mem_map_of_mem (f := Prod.fst) ((get?_eq_some m k v).mp h)
    obtain ⟨v', hv'⟩ := (contains_eq_true _ k).mp hkey
    have hsame := (get?_eq_some m k v').mpr (mem_of_get?_ofList hv')
    rw [h, Option.some_inj] at hsame
    rw [hv', hsame]

/-! ### Lists with names -/

lemma find?_name_eq_some {α : Type} {name : α → String} {as : List α} (h : (as.map name).Nodup)
    {key : String} {a : α} : as.find? (name · == key) = some a ↔ a ∈ as ∧ name a = key := by
  constructor
  · intro hfind
    exact ⟨List.mem_of_find?_eq_some hfind, by simpa using List.find?_some hfind⟩
  · rintro ⟨hmem, rfl⟩
    cases hfind : as.find? (name · == name a) with
    | none => simpa using List.find?_eq_none.mp hfind a hmem
    | some found =>
      have hname : name found = name a := by simpa using List.find?_some hfind
      rw [List.inj_on_of_nodup_map h (List.mem_of_find?_eq_some hfind) hmem hname]

/-! ### Sets of names -/

lemma contains_add (s : NameSet) (name other : String) :
    (s.add name).contains other = true ↔ other = name ∨ s.contains other = true := by
  simp only [contains_eq_true, NameSet.add, get?_insert]
  by_cases h : other = name
  · simp [h]
  · simp [h]

lemma contains_names (names : List String) (name : String) :
    (NameSet.ofList names).contains name = true ↔ name ∈ names := by
  rw [NameSet.ofList, contains_ofList, List.map_map]
  simp

lemma contains_inter (s t : NameSet) (name : String) :
    (s.inter t).contains name = true ↔ s.contains name = true ∧ t.contains name = true := by
  rw [contains_eq_true, contains_eq_true s, NameSet.inter, get?_filter s t.contains]
  by_cases h : t.contains name = true
  · simp [h]
  · simp [h]

lemma eq_of_contains_eq {s t : NameSet} (h : ∀ name, s.contains name = true ↔ t.contains name = true) :
    s = t := by
  refine eq_of_get?_eq fun name => ?_
  have hname := h name
  simp only [SortedMap.contains] at hname
  cases hs : s.get? name <;> cases ht : t.get? name <;> simp_all

end CrossBuild.Proofs
