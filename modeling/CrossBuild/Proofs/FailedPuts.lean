import CrossBuild.Proofs.PutOutcomes

/-!
# Puts that fail

A put that finds no room for the data of its bundle changes nothing. If there is room for the data and none for
the record, the put fails as well, but the data has been stored by then: from then on the key is listed and the
data is handed out.
-/

namespace CrossBuild.Proofs
open FileTree Directory

variable {σ : Type}

/-! ### What the store answers -/

/-- Two machines give the same answers to all that a store in a directory is asked. -/
structure SameAnswers (d : Directory) (m m' : Machine σ) : Prop where
  list : ∀ start, (d.list start m').1 = (d.list start m).1
  fetch : ∀ key, (d.fetch key m').1 = (d.fetch key m).1
  record : ∀ key, (d.record? key m').1 = (d.record? key m).1

/-- The key is among all those that are listed. -/
def IsListed (d : Directory) (m : Machine σ) (key : String) : Prop := ∃ keys, (d.list "" m).1 = .ok keys ∧ key ∈ keys

/-- The times of files do not count. -/
def timeless : FileView := ⟨fun _ f => ⟨f.data, ⟨0, 0⟩, f.mode⟩, fun _ _ => rfl⟩

section Congruence

variable {d : Directory} {m m' : Machine σ} {key : String}

lemma readOr_congr {α : Type} {path : String} {found : ByteArray → Task σ StoreError α} {missing : Task σ StoreError α}
    (hread : m.files.read path = m'.files.read path) (hfound : ∀ data, (found data m).1 = (found data m').1)
    (hmissing : (missing m).1 = (missing m').1) : (readOr path found missing m).1 = (readOr path found missing m').1 := by
  rw [readOr_run, readOr_run, hread]
  cases m'.files.read path with
  | ok data => exact hfound data
  | error fault =>
    cases fault with
    | notFound => exact hmissing
    | notDirectory | isDirectory | denied | occupied | tooManyLinks | nameTooLong | badName | notText => rfl

lemma fetch_congr (hread : isUsableKey key = true →
    m.files.read (d.objectPath key) = m'.files.read (d.objectPath key)) : (d.fetch key m).1 = (d.fetch key m').1 := by
  by_cases husable : isUsableKey key = true
  · rw [fetch_run d husable, fetch_run d husable]
    exact readOr_congr (hread husable) (fun _ => rfl) rfl
  · rw [Directory.fetch, checkKey, if_neg husable]
    rfl

lemma record?_congr (hread : isUsableKey key = true →
    m.files.read (d.recordPath key) = m'.files.read (d.recordPath key)) : (d.record? key m).1 = (d.record? key m').1 := by
  rw [Directory.record?, checkKey]
  by_cases husable : isUsableKey key = true
  · rw [if_pos husable, pure_bind]
    refine readOr_congr (hread husable) (fun data => ?_) rfl
    cases (String.fromUTF8? data).bind fun text => (Json.ofString? text).bind BundleRecord.ofJson? with
    | some record => rfl
    | none => rfl
  · rw [if_neg husable]
    rfl

lemma sameAnswers_of_alike (h : Alike timeless m'.files m.files) : SameAnswers d m m' where
  list := by
    intro start
    rw [list_run, list_run, h.place]
    simp only [h.keysBelow]
    cases m.files.place d.objectsDir with
    | error fault => rfl
    | ok place => rfl
  fetch := fun key => fetch_congr fun _ => h.read fun _ _ _ _ _ _ hsee => (File.mk.inj hsee).1
  record := fun key => record?_congr fun _ => h.read fun _ _ _ _ _ _ hsee => (File.mk.inj hsee).1

/-- A file that is put in place of one with the same data cannot be told from it. -/
lemma Filed.alike {t t' : FileTree} {place : Place} {f old : File} (h : Filed t t' place f) (ht : Rooted t)
    (hold : t.get? place = some (.file old)) (hdata : old.data = f.data) (hmode : old.mode = f.mode) :
    Alike timeless t' t where
  current := h.current
  nodes := by
    intro q
    rw [h.nodes]
    by_cases hq : q = place
    · rw [if_pos hq, hq, hold]
      apply SameNode.file
      simp only [timeless, hdata, hmode]
    · have hnot : ¬(t.get? q = none ∧ q <+: place) := fun hmade =>
        ht.get?_of_prefix (by simp [hold]) hmade.2 hmade.1
      rw [if_neg hq, if_neg hnot]
      exact sameNode_refl q _

end Congruence

section Answers

variable {d : Directory} {start : FileTree} {o p : Place} {files : Place → Option File} {m : Machine σ} {key : String}
  (hstart : IsEmptyStore d start o p) (h : HoldsFiles d start o p files m.files)

include hstart h

/-- What is in the way of the data of a bundle is the data of other ones. -/
lemma HoldsFiles.standsApart_iff (husable : isUsableKey key = true) : StandsApart files (o ++ namesOf key) ↔
    ∀ k, IsStorableKey d k → files (o ++ namesOf k) ≠ none → ¬InTheWay k key := by
  have hpath := isKeyPath_object d husable
  constructor
  · intro hapart k hk hthere hway
    obtain ⟨f, hfile⟩ := Option.ne_none_iff_exists'.mp hthere
    obtain ⟨hbegins, hne⟩ := (inTheWay_iff (isKeyPath_object d hk.usable) hpath).mp hway
    refine hne (List.append_cancel_left (hapart _ f hfile ?_))
    rwa [List.prefix_append_right_inj, List.prefix_append_right_inj]
  · intro hfree other f hfile hbegins
    obtain ⟨_, k, hk, rfl | ⟨rfl, _⟩⟩ := h.only hfile
    · by_contra hne
      rw [List.prefix_append_right_inj, List.prefix_append_right_inj] at hbegins
      refine hfree k hk (by simp [hfile]) ((inTheWay_iff (isKeyPath_object d hk.usable) hpath).mpr ⟨hbegins, ?_⟩)
      exact fun hnames => hne (by rw [hnames])
    · exact (hbegins.elim (hstart.apart.append _ _).2 (hstart.apart.append _ _).1).elim

/-- What is in the way of a record is the record of another bundle. -/
lemma HoldsFiles.exists_inTheWay (husable : isUsableKey key = true)
    (hapart : ¬StandsApart files (p ++ namesOf (key ++ ".json"))) :
    ∃ k, IsStorableKey d k ∧ files (o ++ namesOf k) ≠ none ∧ InTheWay (k ++ ".json") (key ++ ".json") := by
  unfold StandsApart at hapart
  push Not at hapart
  obtain ⟨other, f, hfile, hbegins, hne⟩ := hapart
  obtain ⟨_, k, hk, rfl | ⟨rfl, hthere⟩⟩ := h.only hfile
  · exact (hbegins.elim (hstart.apart.append _ _).1 (hstart.apart.append _ _).2).elim
  · rw [List.prefix_append_right_inj, List.prefix_append_right_inj] at hbegins
    refine ⟨k, hk, hthere, (inTheWay_iff (isKeyPath_record d hk.usable) (isKeyPath_record d husable)).mpr ⟨hbegins, ?_⟩⟩
    exact fun hnames => hne (by rw [hnames])

lemma HoldsFiles.isListed_iff : IsListed d m key ↔ IsStorableKey d key ∧ files (o ++ namesOf key) ≠ none := by
  have hlisted : IsListed d m key ↔ key ∈ keysBelow m.files o := by
    rw [IsListed, list_run, (hstart.opens h.filed).1.place_eq (checkPath_of_place hstart.objects)]
    constructor
    · rintro ⟨_, ⟨⟩, hkey⟩
      exact List.mem_of_mem_filter (List.mem_mergeSort.mp hkey)
    · intro hkey
      exact ⟨_, rfl, List.mem_mergeSort.mpr (List.mem_filter.mpr ⟨hkey, rfl⟩)⟩
  rw [hlisted]
  constructor
  · intro hkey
    obtain ⟨⟨names, node⟩, hmem, hkey⟩ := List.mem_filterMap.mp hkey
    cases node with
    | directory | link => cases hkey
    | file f =>
      obtain ⟨hne, hnode⟩ := mem_below.mp hmem
      have hfile := (hstart.file_iff h.filed (.inl rfl) hne).mp hnode
      obtain ⟨_, k, hk, hplace | ⟨hplace, _⟩⟩ := h.only hfile
      · obtain rfl := List.append_cancel_left hplace
        have htext : key = k := (Option.some.inj hkey).symm.trans (isKeyPath_object d hk.usable).text
        rw [htext]
        exact ⟨hk, by simp [hfile]⟩
      · exact ((hstart.apart.append _ _).ne hplace).elim
  · rintro ⟨hkey, hthere⟩
    obtain ⟨f, hfile⟩ := Option.ne_none_iff_exists'.mp hthere
    have hpath := isKeyPath_object d hkey.usable
    refine List.mem_filterMap.mpr ⟨(namesOf key, .file f), mem_below.mpr ⟨hpath.ne_nil, ?_⟩, congrArg some hpath.text⟩
    exact (hstart.file_iff h.filed (.inl rfl) hpath.ne_nil).mpr hfile

/-- Where nothing is in the way of its data, a bundle is handed out if it is there. -/
lemma HoldsFiles.fetch (hkey : IsStorableKey d key) (hapart : StandsApart files (o ++ namesOf key)) :
    d.fetch key m = match files (o ++ namesOf key) with
      | some f => (.ok f.data, m)
      | none => (.error (.notFound key), m) := by
  have hpath := isKeyPath_object d hkey.usable
  have hroom := hstart.admits h.filed (.inl rfl) hpath.ne_nil hkey.objectSizes hapart
  obtain ⟨hmissing, hfound⟩ := hroom.read_eq h.rooted (hstart.opens h.filed).1 hpath.below hpath.ne_nil hpath.ends hkey.object
  rw [fetch_run d hkey.usable, readOr_run]
  cases hfile : files (o ++ namesOf key) with
  | some f =>
    have hnode := (hstart.file_iff h.filed (.inl rfl) hpath.ne_nil).mpr hfile
    have hallowed : allows f.mode readBit = true := by
      rw [(h.only hfile).1]
      decide
    rw [show m.files.read (d.objectPath key) = _ from hfound f hnode hallowed]
    rfl
  | none =>
    have hnone : m.files.get? (o ++ namesOf key) = none := by
      refine hroom.free.resolve_right ?_
      rintro ⟨f, hnode⟩
      rw [(hstart.file_iff h.filed (.inl rfl) hpath.ne_nil).mp hnode] at hfile
      cases hfile
    rw [show m.files.read (d.objectPath key) = _ from hmissing hnone]
    rfl

end Answers

/-! ### Puts one after another -/

/-- What is put, and when. -/
structure BundlePut where
  now : Instant
  key : String
  data : ByteArray
  tag : Option BundleTag

def BundlePut.run (b : BundlePut) (d : Directory) (m : Machine σ) : Except StoreError (Option Instant) × Machine σ :=
  d.put b.key b.data b.tag { m with now := b.now }

/-- The machine after puts, whether they fail or not. -/
def afterPuts (d : Directory) : List BundlePut → Machine σ → Machine σ
  | [], m => m
  | b :: puts, m => afterPuts d puts (b.run d m).2

/-- The put is not refused for its key or its time, and none of the keys that are listed is in its way. -/
structure LeavesData (d : Directory) (b : BundlePut) (m : Machine σ) : Prop where
  usable : isUsableKey b.key = true
  expires : d.retention.expiry b.tag b.now ≠ .beyond
  free : ∀ key, IsListed d m key → ¬InTheWay key b.key

/-- What a put leaves when there was room for the data of its bundle and none for the record. -/
structure IsLeftBehind (d : Directory) (b : BundlePut) (m m' : Machine σ) : Prop where
  inTheWay : ∃ key, IsListed d m key ∧ InTheWay (key ++ ".json") (b.key ++ ".json")
  fetch : (d.fetch b.key m').1 = .ok b.data
  listed : ∀ key, IsListed d m' key ↔ IsListed d m key ∨ key = b.key
  others : ∀ key, IsListed d m key → key ≠ b.key → (d.fetch key m').1 = (d.fetch key m).1
  records : ∀ key, (d.record? key m').1 = (d.record? key m).1

section Puts

variable {d : Directory} {start : FileTree} {o p : Place} {files : Place → Option File} {m m₁ m' : Machine σ}
  {puts : List BundlePut} {b : BundlePut}

lemma exists_holdsFiles (hstart : IsEmptyStore d start o p) (h : HoldsFiles d start o p files m.files)
    (hkeys : ∀ b ∈ puts, isUsableKey b.key = true → IsStorableKey d b.key) :
    ∃ files, HoldsFiles d start o p files (afterPuts d puts m).files := by
  induction puts generalizing files m with
  | nil => exact ⟨files, h⟩
  | cons b puts ih =>
    rw [List.forall_mem_cons] at hkeys
    have hends : PutEnds d start o p files b.key b.data b.tag { m with now := b.now } (b.run d m) :=
      h.put (m := { m with now := b.now }) hstart hkeys.1 b.data b.tag
    rw [afterPuts]
    generalize b.run d m = result at hends
    cases hends with
    | refused => exact ih (m := { m with now := b.now }) h hkeys.2
    | halved _ _ hholds _ => exact ih hholds hkeys.2
    | whole hholds => exact ih hholds hkeys.2

lemma leavesData_iff (hstart : IsEmptyStore d start o p) (h : HoldsFiles d start o p files m.files) :
    LeavesData d b m ↔ HasRoom d o files b.key b.tag b.now := by
  have hfree : isUsableKey b.key = true →
      ((∀ key, IsListed d m key → ¬InTheWay key b.key) ↔ StandsApart files (o ++ namesOf b.key)) := by
    intro husable
    rw [h.standsApart_iff hstart husable]
    simp only [h.isListed_iff hstart, and_imp]
  constructor
  · rintro ⟨husable, hexpires, hlisted⟩
    exact ⟨husable, hexpires, (hfree husable).mp hlisted⟩
  · rintro ⟨husable, hexpires, hapart⟩
    exact ⟨husable, hexpires, (hfree husable).mpr hapart⟩

section Halved

variable {f : File} (hstart : IsEmptyStore d start o p) (h : HoldsFiles d start o p files m.files)
  (h' : HoldsFiles d start o p (Function.update files (o ++ namesOf b.key) (some f)) m'.files)
  (hkey : IsStorableKey d b.key) (hdata : f.data = b.data) (hfiled : Filed m.files m'.files (o ++ namesOf b.key) f)

include hstart h'

lemma fetch_of_halved (hkey : IsStorableKey d b.key) (hdata : f.data = b.data) : (d.fetch b.key m').1 = .ok b.data := by
  rw [h'.fetch hstart hkey (h'.apart (Function.update_self ..)), Function.update_self, ← hdata]

include h hkey hdata hfiled

lemma isLeftBehind (hother : ¬StandsApart (Function.update files (o ++ namesOf b.key) (some f))
    (p ++ namesOf (b.key ++ ".json"))) : IsLeftBehind d b m m' := by
  have hkept : ∀ {key}, IsStorableKey d key → key ≠ b.key →
      Function.update files (o ++ namesOf b.key) (some f) (o ++ namesOf key) = files (o ++ namesOf key) := by
    intro key hother hne
    apply Function.update_of_ne
    intro hplace
    have hnames := List.append_cancel_left hplace
    exact hne (((isKeyPath_object d hother.usable).names_inj (isKeyPath_object d hkey.usable)).mp hnames)
  constructor
  case inTheWay =>
    obtain ⟨key, hother, hthere, hway⟩ := h'.exists_inTheWay hstart hkey.usable hother
    have hne : key ≠ b.key := by
      rintro rfl
      exact ((inTheWay_iff (isKeyPath_record d hother.usable) (isKeyPath_record d hkey.usable)).mp hway).2 rfl
    rw [hkept hother hne] at hthere
    exact ⟨key, (h.isListed_iff hstart).mpr ⟨hother, hthere⟩, hway⟩
  case fetch => exact fetch_of_halved hstart h' hkey hdata
  case listed =>
    intro key
    rw [h'.isListed_iff hstart, h.isListed_iff hstart]
    by_cases hne : key = b.key
    · rw [hne, Function.update_self]
      exact iff_of_true ⟨hkey, by simp⟩ (.inr rfl)
    · rw [or_iff_left hne]
      exact and_congr_right fun hother => by rw [hkept hother hne]
  case others =>
    intro key hthere hne
    obtain ⟨hother, hthere⟩ := (h.isListed_iff hstart).mp hthere
    obtain ⟨g, hfile⟩ := Option.ne_none_iff_exists'.mp hthere
    have hfile' := (hkept hother hne).trans hfile
    rw [h.fetch hstart hother (h.apart hfile), hfile, h'.fetch hstart hother (h'.apart hfile'), hfile']
  case records =>
    have hsame : ∀ names, m'.files.get? (p ++ names) = m.files.get? (p ++ names) := by
      intro names
      have hbeside := hstart.apart.append (namesOf b.key) names
      rw [hfiled.nodes, if_neg hbeside.ne.symm, if_neg fun hmade => hbeside.2 hmade.2]
    intro key
    refine record?_congr fun husable => ?_
    have hpath := isKeyPath_record d husable
    exact (hstart.opens h'.filed).2.read_congr (hstart.opens h.filed).2 hpath.below hpath.ne_nil hpath.ends
      (hstart.linkFree h'.filed (.inr rfl)) hsame

/-- Data that is left behind is seen, unless it was there before. -/
lemma sameAnswers_of_halved (hmode : f.mode = privateMode) (hapart : StandsApart files (o ++ namesOf b.key)) :
    SameAnswers d m m' ↔ (d.fetch b.key m).1 = .ok b.data := by
  constructor
  · intro hsame
    rw [← hsame.fetch, fetch_of_halved hstart h' hkey hdata]
  · intro hfetch
    rw [h.fetch hstart hkey hapart] at hfetch
    cases hfile : files (o ++ namesOf b.key) with
    | none =>
      rw [hfile] at hfetch
      cases hfetch
    | some old =>
      rw [hfile] at hfetch
      have hnode := (hstart.file_iff h.filed (.inl rfl) (isKeyPath_object d hkey.usable).ne_nil).mpr hfile
      have hold : old.data = f.data := (Except.ok.inj hfetch).trans hdata.symm
      exact sameAnswers_of_alike (hfiled.alike h.rooted hnode hold ((h.only hfile).1.trans hmode.symm))

end Halved

/-- A put that fails changes no answer, unless there was room for its data: then there is none for its record, and
the data is left behind. No record is changed even so, and no other bundle. -/
theorem failed_put (hempty : IsEmptyStore d m.files o p)
    (hkeys : ∀ c ∈ b :: puts, isUsableKey c.key = true → IsStorableKey d c.key) (hbefore : afterPuts d puts m = m₁)
    {e : StoreError} (hfails : b.run d m₁ = (.error e, m')) :
    (SameAnswers d m₁ m' ↔ ¬LeavesData d b m₁ ∨ (d.fetch b.key m₁).1 = .ok b.data) ∧
      (¬LeavesData d b m₁ → m'.files = m₁.files) ∧ (LeavesData d b m₁ → IsLeftBehind d b m₁ m') := by
  rw [List.forall_mem_cons] at hkeys
  obtain ⟨files, h⟩ := exists_holdsFiles hempty (holdsFiles_empty hempty) hkeys.2
  rw [hbefore] at h
  have hroom_iff : LeavesData d b m₁ ↔ HasRoom d o files b.key b.tag b.now := leavesData_iff hempty h
  have hends : PutEnds d m.files o p files b.key b.data b.tag { m₁ with now := b.now } (b.run d m₁) :=
    h.put (m := { m₁ with now := b.now }) hempty hkeys.1 b.data b.tag
  rw [hfails] at hends
  cases hends with
  | refused hnot =>
    have hnot : ¬LeavesData d b m₁ := fun hleaves => hnot (hroom_iff.mp hleaves)
    refine ⟨iff_of_true ?_ (.inl hnot), fun _ => rfl, fun hleaves => absurd hleaves hnot⟩
    exact sameAnswers_of_alike (alike_refl m₁.files)
  | halved hroom hfiled hholds hother =>
    have hleaves : LeavesData d b m₁ := hroom_iff.mpr hroom
    have hkey := hkeys.1 hroom.usable
    refine ⟨?_, fun hnot => absurd hleaves hnot, fun _ => isLeftBehind hempty h hholds hkey rfl hfiled hother⟩
    rw [or_iff_right (not_not_intro hleaves)]
    exact sameAnswers_of_halved hempty h hholds hkey rfl hfiled rfl hroom.apart

end Puts

lemma storable_of_mem {key : String} (h : key ∈ ["a", "a.json/b"]) : IsStorableKey ⟨"/", .standard⟩ key := by
  have hall : ∀ key ∈ ["a", "a.json/b"], isUsableKey key = true ∧
      (∀ name ∈ namesOf (key ++ ".json"), name.utf8ByteSize ≤ longestName) ∧
      checkPath (objectPath ⟨"/", .standard⟩ key) = .ok () ∧ checkPath (recordPath ⟨"/", .standard⟩ key) = .ok () := by
    decide +kernel
  obtain ⟨husable, hsizes, hobject, hrecord⟩ := hall key h
  exact ⟨husable, hsizes, hobject, hrecord⟩

/-- The record of one bundle is in the way of the record of another one, whose data is left behind. -/
theorem failed_put_record :
    ∃ (m m₁ m' : Machine Unit) (puts : List BundlePut) (b : BundlePut) (e : StoreError),
      IsEmptyStore ⟨"/", .standard⟩ m.files ["objects"] ["meta"] ∧
      (∀ c ∈ b :: puts, isUsableKey c.key = true → IsStorableKey ⟨"/", .standard⟩ c.key) ∧
      afterPuts ⟨"/", .standard⟩ puts m = m₁ ∧ b.run ⟨"/", .standard⟩ m₁ = (.error e, m') ∧
      LeavesData ⟨"/", .standard⟩ b m₁ ∧ b.key = "a.json/b" ∧
      (Directory.fetch ⟨"/", .standard⟩ "a.json/b" m₁).1 = .error (.notFound "a.json/b") ∧
      (Directory.fetch ⟨"/", .standard⟩ "a.json/b" m').1 = .ok "second".toUTF8 ∧
      ¬SameAnswers ⟨"/", .standard⟩ m₁ m' := by
  let d : Directory := ⟨"/", .standard⟩
  let first : BundlePut := ⟨⟨0, 0⟩, "a", "first".toUTF8, none⟩
  let second : BundlePut := ⟨⟨1, 0⟩, "a.json/b", "second".toUTF8, none⟩
  let m : Machine Unit := ⟨storeTree, ⟨0, 0⟩, ()⟩
  have hfails : (second.run d (afterPuts d [first] m)).1 = .error (.file .occupied) := by decide +kernel
  have hlist : (d.list "" (afterPuts d [first] m)).1 = .ok ["a"] := by decide +kernel
  have hmissing : (d.fetch "a.json/b" (afterPuts d [first] m)).1 = .error (.notFound "a.json/b") := by decide +kernel
  have hkeys : ∀ c ∈ [second, first], isUsableKey c.key = true → IsStorableKey d c.key := by
    intro c hc _
    apply storable_of_mem
    revert c
    decide
  have hleaves : LeavesData d second (afterPuts d [first] m) := by
    refine ⟨by decide, by decide +kernel, ?_⟩
    rintro key ⟨keys, hlisted, hmem⟩
    rw [hlist] at hlisted
    rw [← Except.ok.inj hlisted, List.mem_singleton] at hmem
    rw [hmem, inTheWay_iff (isKeyPath_object d (show isUsableKey "a" = true by decide))
      (isKeyPath_object d (show isUsableKey "a.json/b" = true by decide))]
    decide +kernel
  obtain ⟨hsame, _, hleft⟩ := failed_put (m := m) (b := second) isEmptyStore_storeTree hkeys rfl (Prod.ext hfails rfl)
  refine ⟨m, _, _, [first], second, _, isEmptyStore_storeTree, hkeys, rfl, Prod.ext hfails rfl, hleaves, rfl, hmissing,
    (hleft hleaves).fetch, ?_⟩
  intro hsames
  rcases hsame.mp hsames with hnot | hfetch
  · exact hnot hleaves
  · rw [show d.fetch second.key = d.fetch "a.json/b" from rfl, hmissing] at hfetch
    cases hfetch

end CrossBuild.Proofs
