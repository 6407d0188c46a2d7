import CrossBuild.Proofs.KeptBundles
import CrossBuild.Store.Memory

/-!
# What stores answer

A store is asked to put bundles, to list keys, and to hand out bundles. Whatever it is asked, and in whatever
order, a store in a directory and one in memory answer the same: what a map answers that keeps for each key
what was put last. How long a bundle is kept is told in days, so the two stores need not be asked at the same
moments.
-/

namespace CrossBuild.Proofs

variable {σ : Type}

/-! ### Calls and answers -/

/-- What a store is asked. -/
inductive StoreCall where
  | put (key : BundleKey) (data : ByteArray) (tag : Option BundleTag)
  | list (start : String)
  | fetch (key : BundleKey)
  | get (start : String) (filter : KeyFilter)

/-- What a store answers. -/
inductive StoreAnswer where
  /-- The bundle is stored, for so many days if not for ever. -/
  | stored (days : Option Int)
  | listed (keys : List String)
  | fetched (data : ByteArray)
  | got (bundles : List (String × ByteArray))
  deriving DecidableEq

/-- Calls, each with its time. -/
abbrev StoreCalls := List (Instant × StoreCall)

abbrev StoreAnswers := List (Except StoreError StoreAnswer)

namespace StoreCall

/-- The key of the one bundle that is asked about. -/
def key? : StoreCall → Option BundleKey
  | .put key _ _ | .fetch key => some key
  | .list _ | .get _ _ => none

/-- Asks a store. -/
def ask (s : Store σ) : StoreCall → Task σ StoreError StoreAnswer
  | .put key data tag => do
    let now := (← MonadState.get).now
    let expiresAt ← s.put key.text data tag
    return .stored (expiresAt.map now.daysUntil)
  | .list start => return .listed (← s.list start)
  | .fetch key => return .fetched (← s.fetch key.text)
  | .get start filter => return .got (← s.get start filter)

/-- What is answered for a map. -/
def answer (r : Retention) (now : Instant) (content : KeptBundles) : StoreCall → Except StoreError StoreAnswer
  | .put _ _ tag =>
    if r.expiry tag now = .beyond then .error .beyondCalendar else .ok (.stored ((r.days? tag).map Int.ofNat))
  | .list start => .ok (.listed (content.keys.filter (Text.startsWith · start)))
  | .fetch key =>
    match content.get? key.text with
    | some kept => .ok (.fetched kept.1)
    | none => .error (.notFound key.text)
  | .get start filter =>
    let wanted := content.filter fun key _ => Text.startsWith key start && filter.accepts key
    .ok (.got (wanted.toList.map fun e => (e.1, e.2.1)))

/-- The map after a call. -/
def after (r : Retention) (now : Instant) (content : KeptBundles) : StoreCall → KeptBundles
  | .put key data tag => if r.expiry tag now = .beyond then content else content.insert key.text (data, tag)
  | .list _ | .fetch _ | .get _ _ => content

end StoreCall

/-- What a store answers to calls, and the machine after them. -/
def askAll (s : Store σ) : StoreCalls → Machine σ → StoreAnswers × Machine σ
  | [], m => ([], m)
  | (now, call) :: calls, m =>
    let (answer, m) := call.ask s { m with now }
    let (answers, m) := askAll s calls m
    (answer :: answers, m)

/-- What is answered for a map. -/
def mapAnswers (r : Retention) : StoreCalls → KeptBundles → StoreAnswers
  | [], _ => []
  | (now, call) :: calls, content => call.answer r now content :: mapAnswers r calls (call.after r now content)

/-- The map after calls: under each key, what was put last. -/
def mapAfter (r : Retention) (calls : StoreCalls) (content : KeptBundles) : KeptBundles :=
  calls.foldl (fun content (now, call) => call.after r now content) content

/-! ### Stores that answer as a map does -/

/-- On machines that hold a map, the store does what is done to the map and answers what is in it. -/
structure Implements (s : Store σ) (r : Retention) (fits : String → Prop) (holds : KeptBundles → Machine σ → Prop) :
    Prop where
  later : ∀ {content m} (now : Instant), holds content m → holds content { m with now }
  known : ∀ {content m key}, holds content m → content.contains key = true → fits key
  put : ∀ {content m key tag expiresAt} (data : ByteArray), holds content m → IsMoment m.now → fits key →
    ExpiresAs r tag m.now expiresAt →
    ∃ m', Gives (s.put key data tag) m expiresAt m' ∧ holds (content.insert key (data, tag)) m'
  beyond : ∀ {m : Machine σ} {tag} (key : String) (data : ByteArray), r.expiry tag m.now = .beyond →
    s.put key data tag m = (.error .beyondCalendar, m)
  list : ∀ {content m} (start : String), holds content m →
    Gives (s.list start) m (content.keys.filter (Text.startsWith · start)) m
  fetch : ∀ {content m key}, holds content m → fits key → s.fetch key m = match content.get? key with
    | some kept => (.ok kept.1, m)
    | none => (.error (.notFound key), m)

section Refinement

variable {s : Store σ} {r : Retention} {fits : String → Prop} {holds : KeptBundles → Machine σ → Prop}
  {content : KeptBundles} {m : Machine σ}

lemma Implements.fetchAll (hs : Implements s r fits holds) (hm : holds content m)
    {entries : List (String × ByteArray × Option BundleTag)} (hentries : ∀ e ∈ entries, e ∈ content.entries) :
    Gives (s.fetchAll (entries.map (·.1))) m (entries.map fun e => (e.1, e.2.1)) m := by
  induction entries with
  | nil => exact gives_pure.mpr ⟨rfl, rfl⟩
  | cons e entries ih =>
    rw [List.forall_mem_cons] at hentries
    have hget : content.get? e.1 = some e.2 := (get?_eq_some content e.1 e.2).mpr hentries.1
    have hfetch := hs.fetch hm (hs.known hm ((contains_eq_true content e.1).mpr ⟨e.2, hget⟩))
    rw [hget] at hfetch
    exact gives_bind.mpr ⟨e.2.1, m, hfetch, gives_bind.mpr ⟨_, m, ih hentries.2, gives_pure.mpr ⟨rfl, rfl⟩⟩⟩

lemma Implements.get (hs : Implements s r fits holds) (hm : holds content m) (start : String) (filter : KeyFilter) :
    Gives (s.get start filter) m ((content.filter fun key _ => Text.startsWith key start && filter.accepts key).toList.map
      fun e => (e.1, e.2.1)) m := by
  refine gives_bind.mpr ⟨_, m, hs.list start hm, ?_⟩
  have hkeys : (content.keys.filter (Text.startsWith · start)).filter filter.accepts =
      (content.filter fun key _ => Text.startsWith key start && filter.accepts key).toList.map (·.1) := by
    simp only [SortedMap.keys, SortedMap.filter, SortedMap.toList, List.filter_map, List.filter_filter, Bool.and_comm,
      Function.comp_def]
  rw [hkeys]
  exact hs.fetchAll hm fun e he => List.mem_of_mem_filter he

/-- One call is answered as for the map. -/
lemma Implements.ask (hs : Implements s r fits holds) (hm : holds content m) (hnow : IsMoment m.now) {call : StoreCall}
    (hfits : ∀ k ∈ call.key?, fits k.text) :
    (call.ask s m).1 = call.answer r m.now content ∧ holds (call.after r m.now content) (call.ask s m).2 := by
  have hgives : ∀ {answer m'}, Gives (call.ask s) m answer m' → call.answer r m.now content = .ok answer →
      holds (call.after r m.now content) m' →
      (call.ask s m).1 = call.answer r m.now content ∧ holds (call.after r m.now content) (call.ask s m).2 := by
    intro answer m' hask hanswer hheld
    rw [show call.ask s m = (.ok answer, m') from hask]
    exact ⟨hanswer.symm, hheld⟩
  cases call with
  | put k data tag =>
    by_cases hbeyond : r.expiry tag m.now = .beyond
    · have hask : (StoreCall.put k data tag).ask s m = (.error .beyondCalendar, m) := by
        rw [StoreCall.ask, run_bind, run_get]
        dsimp only
        rw [run_bind, hs.beyond k.text data hbeyond]
      rw [hask]
      simp only [StoreCall.answer, StoreCall.after, if_pos hbeyond]
      exact ⟨trivial, hm⟩
    · obtain ⟨expiresAt, hexpires⟩ := exists_expiresAs hbeyond
      obtain ⟨m', hput, hheld⟩ := hs.put data hm hnow (hfits k rfl) hexpires
      refine hgives (gives_bind.mpr ⟨m, m, gives_get.mpr ⟨rfl, rfl⟩, gives_bind.mpr ⟨expiresAt, m', hput,
        gives_pure.mpr ⟨rfl, rfl⟩⟩⟩) ?_ ?_
      · rw [StoreCall.answer, if_neg hbeyond, hexpires.days]
      · rwa [StoreCall.after, if_neg hbeyond]
  | list start =>
    exact hgives (gives_bind.mpr ⟨_, m, hs.list start hm, gives_pure.mpr ⟨rfl, rfl⟩⟩) rfl hm
  | fetch k =>
    have hfetch := hs.fetch hm (hfits k rfl)
    cases hget : content.get? k.text with
    | some kept =>
      rw [hget] at hfetch
      refine hgives (gives_bind.mpr ⟨kept.1, m, hfetch, gives_pure.mpr ⟨rfl, rfl⟩⟩) ?_ hm
      rw [StoreCall.answer, hget]
    | none =>
      rw [hget] at hfetch
      have hask : (StoreCall.fetch k).ask s m = (.error (.notFound k.text), m) := by
        rw [StoreCall.ask, run_bind, hfetch]
      rw [hask]
      simp only [StoreCall.answer, hget]
      exact ⟨trivial, hm⟩
  | get start filter =>
    exact hgives (gives_bind.mpr ⟨_, m, hs.get hm start filter, gives_pure.mpr ⟨rfl, rfl⟩⟩) rfl hm

/-- So are all calls, one after another. -/
lemma Implements.askAll (hs : Implements s r fits holds) (hm : holds content m) {calls : StoreCalls}
    (hnow : ∀ c ∈ calls, IsMoment c.1) (hfits : ∀ c ∈ calls, ∀ k ∈ c.2.key?, fits k.text) :
    (Proofs.askAll s calls m).1 = mapAnswers r calls content ∧
      holds (mapAfter r calls content) (Proofs.askAll s calls m).2 := by
  induction calls generalizing content m with
  | nil => exact ⟨rfl, hm⟩
  | cons c calls ih =>
    obtain ⟨now, call⟩ := c
    rw [List.forall_mem_cons] at hnow hfits
    obtain ⟨hanswer, hheld⟩ := hs.ask (hs.later now hm) hnow.1 hfits.1
    obtain ⟨hanswers, hlast⟩ := ih hheld hnow.2 hfits.2
    exact ⟨List.cons_eq_cons.mpr ⟨hanswer, hanswers⟩, hlast⟩

end Refinement

/-! ### The two stores -/

/-- A store in a directory answers as a map does. -/
lemma directory_implements {d : Directory} {start : FileTree} {o p : Place} (hstart : IsEmptyStore d start o p) :
    Implements (σ := σ) d.store d.retention (FitsDirectory d) fun content m =>
      HoldsBundles d start o p content m.files where
  later := fun _ hm => hm
  known := fun hm => hm.fits
  put := by
    intro content m key tag expiresAt data hm hnow hkey hexpires
    obtain ⟨t', hput, hheld⟩ := hm.put hstart hnow hkey hexpires
    exact ⟨_, hput, hheld⟩
  beyond := fun _ _ hbeyond => put_beyond hbeyond
  list := fun start hm => hm.list hstart start
  fetch := fun hm hkey => hm.fetch hstart hkey

/-- What a store in memory has of a bundle. -/
structure KeptInMemory (r : Retention) (blob : Blob) (kept : ByteArray × Option BundleTag) : Prop where
  data : blob.data = kept.1
  tag : blob.tag = kept.2
  expires : ∃ storedAt, ExpiresAs r kept.2 storedAt blob.expiresAt

lemma memory_put {r : Retention} {m : Machine Memory} {key : String} {data : ByteArray} {tag : Option BundleTag}
    {expiresAt : Option Instant} (h : ExpiresAs r tag m.now expiresAt) :
    Gives ((Memory.store r).put key data tag) m expiresAt
      { m with service := m.service.insert key ⟨data, tag, expiresAt⟩ } :=
  gives_bind.mpr ⟨expiresAt, m, h.gives, gives_bind.mpr ⟨(), _, gives_modify.mpr rfl, gives_pure.mpr ⟨rfl, rfl⟩⟩⟩

lemma memory_fetch_some {r : Retention} {m : Machine Memory} {key : String} {blob : Blob}
    (h : m.service.get? key = some blob) : (Memory.store r).fetch key m = (.ok blob.data, m) := by
  have hget : (get : Task Memory StoreError (Machine Memory)) m = (.ok m, m) := rfl
  unfold Memory.store
  dsimp only
  rw [run_bind, hget]
  dsimp only
  rw [h]
  rfl

lemma memory_fetch_none {r : Retention} {m : Machine Memory} {key : String} (h : m.service.get? key = none) :
    (Memory.store r).fetch key m = (.error (.notFound key), m) := by
  have hget : (get : Task Memory StoreError (Machine Memory)) m = (.ok m, m) := rfl
  unfold Memory.store
  dsimp only
  rw [run_bind, hget]
  dsimp only
  rw [h]
  rfl

/-- So does a store in memory. -/
lemma memory_implements (r : Retention) :
    Implements (Memory.store r) r (fun _ => True) fun content m =>
      ∀ key, Option.Rel (KeptInMemory r) (m.service.get? key) (content.get? key) where
  later := fun _ hm => hm
  known := fun _ _ => trivial
  put := by
    intro content m key tag expiresAt data hm _ _ hexpires
    refine ⟨_, memory_put hexpires, fun other => ?_⟩
    dsimp only
    rw [get?_insert, get?_insert]
    by_cases hother : other = key
    · rw [if_pos hother, if_pos hother]
      exact .some ⟨rfl, rfl, m.now, hexpires⟩
    · rw [if_neg hother, if_neg hother]
      exact hm other
  beyond := by
    intro m tag key data hbeyond
    have hrun : (Memory.store r).put key data tag m = (Store.expiration r tag >>= _) m := rfl
    rw [hrun, run_bind, expiration_run_eq, hbeyond]
  list := by
    intro content m start hm
    have hkeys : m.service.keys = content.keys := by
      refine keys_eq_of_contains fun key => ?_
      have hkey := hm key
      unfold SortedMap.contains
      generalize m.service.get? key = found, content.get? key = kept at hkey
      cases hkey with
      | none => rfl
      | some _ => rfl
    exact gives_bind.mpr ⟨m, m, gives_get.mpr ⟨rfl, rfl⟩, gives_pure.mpr ⟨by rw [Memory.listed, hkeys], rfl⟩⟩
  fetch := by
    intro content m key hm _
    have hkey := hm key
    generalize hfound : m.service.get? key = found, content.get? key = kept at hkey
    cases hkey with
    | none => exact memory_fetch_none hfound
    | some hkept => exact (memory_fetch_some hfound).trans (congrArg (fun data => (Except.ok data, m)) hkept.data)

/-! ### The same answers -/

/-- The same call at two times, such that what is put then expires within the calendar both times or neither. -/
def SameCall (r : Retention) (c c' : Instant × StoreCall) : Prop :=
  c.2 = c'.2 ∧ ∀ key data tag, c.2 = .put key data tag → (r.expiry tag c.1 = .beyond ↔ r.expiry tag c'.1 = .beyond)

lemma mapAnswers_congr {r : Retention} {calls calls' : StoreCalls} (h : List.Forall₂ (SameCall r) calls calls')
    (content : KeptBundles) :
    mapAnswers r calls content = mapAnswers r calls' content ∧ mapAfter r calls content = mapAfter r calls' content := by
  induction h generalizing content with
  | nil => exact ⟨rfl, rfl⟩
  | @cons c c' calls calls' hcall _ ih =>
    obtain ⟨now, call⟩ := c
    obtain ⟨now', call'⟩ := c'
    obtain ⟨rfl, hbeyond⟩ := hcall
    have hsame : call.answer r now content = call.answer r now' content ∧
        call.after r now content = call.after r now' content := by
      cases call with
      | put key data tag =>
        have hiff := hbeyond key data tag rfl
        simp only [StoreCall.answer, StoreCall.after, hiff, and_self]
      | list | fetch | get => exact ⟨rfl, rfl⟩
    have hrest := ih (call.after r now content)
    refine ⟨List.cons_eq_cons.mpr ⟨hsame.1, hrest.1.trans ?_⟩, hrest.2.trans ?_⟩
    · rw [hsame.2]
    · rw [mapAfter, hsame.2]
      rfl

lemma error_mem_mapAnswers {r : Retention} {calls : StoreCalls} {content : KeptBundles} {e : StoreError}
    (h : .error e ∈ mapAnswers r calls content) : (∃ key, e = .notFound key) ∨ e = .beyondCalendar := by
  induction calls generalizing content with
  | nil => cases h
  | cons c calls ih =>
    obtain ⟨now, call⟩ := c
    rcases List.mem_cons.mp h with hfirst | hrest
    · cases call with
      | put key data tag =>
        rw [StoreCall.answer] at hfirst
        split at hfirst
        · exact .inr (Except.error.inj hfirst)
        · cases hfirst
      | fetch key =>
        rw [StoreCall.answer] at hfirst
        split at hfirst
        · cases hfirst
        · exact .inl ⟨key.text, Except.error.inj hfirst⟩
      | list start => cases hfirst
      | get start filter => cases hfirst
    · exact ih hrest

/-- What the two stores have recorded of a bundle, or that neither has one: the texts of the tag are the same,
and so are the days from when it was stored to when it expires. -/
inductive SameRecord (r : Retention) :
    Option (ByteArray × Option BundleTag) → Option BundleRecord → Option Blob → Prop where
  | none : SameRecord r none none none
  | some {kept : ByteArray × Option BundleTag} {record : BundleRecord} {blob : Blob} {storedAt : Instant}
      (hrecord : record.tag.map (·.name) = kept.2.map (·.name)) (hblob : blob.tag = kept.2)
      (hexpires : record.expiresAt.map record.storedAt.daysUntil = (r.days? kept.2).map Int.ofNat)
      (hexpires' : blob.expiresAt.map storedAt.daysUntil = (r.days? kept.2).map Int.ofNat) :
      SameRecord r (some kept) (some record) (some blob)

/-- A store in a directory and one in memory, both empty at first, answer all calls as a map does that keeps what
was put last under each key. No call is refused for its key, and what is recorded of the bundles is the same. -/
theorem stores_agree {d : Directory} {m : Machine σ} {o p : Place} (hempty : IsEmptyStore d m.files o p)
    {m' : Machine Memory} (hmemory : m'.service = ∅) {calls calls' : StoreCalls}
    (hsame : List.Forall₂ (SameCall d.retention) calls calls') (hnow : ∀ c ∈ calls ++ calls', IsMoment c.1)
    (hfits : ∀ c ∈ calls, ∀ k ∈ c.2.key?, FitsDirectory d k.text) :
    (askAll d.store calls m).1 = mapAnswers d.retention calls ∅ ∧
      (askAll (Memory.store d.retention) calls' m').1 = mapAnswers d.retention calls ∅ ∧
      (∀ e, .error e ∈ mapAnswers d.retention calls ∅ → (∃ key, e = .notFound key) ∨ e = .beyondCalendar) ∧
      ∀ key, FitsDirectory d key → ∃ record,
        Gives (d.record? key) (askAll d.store calls m).2 record (askAll d.store calls m).2 ∧
        SameRecord d.retention ((mapAfter d.retention calls ∅).get? key) record
          ((askAll (Memory.store d.retention) calls' m').2.service.get? key) := by
  rw [List.forall_mem_append] at hnow
  have hstart : HoldsBundles d m.files o p ∅ m.files := holdsBundles_empty hempty
  have hstart' : ∀ key, Option.Rel (KeptInMemory d.retention) (m'.service.get? key) ((∅ : KeptBundles).get? key) := by
    intro key
    rw [hmemory]
    exact .none
  obtain ⟨hanswers, hlast⟩ := (directory_implements hempty).askAll hstart hnow.1 hfits
  obtain ⟨hanswers', hlast'⟩ := (memory_implements d.retention).askAll hstart' hnow.2 fun _ _ _ _ => trivial
  obtain ⟨hsameAnswers, hsameAfter⟩ := mapAnswers_congr hsame ∅
  rw [← hsameAnswers] at hanswers'
  rw [← hsameAfter] at hlast'
  refine ⟨hanswers, hanswers', fun e => error_mem_mapAnswers, fun key hkey => ?_⟩
  obtain ⟨found, hfound, hrecord⟩ := hlast.record? hempty hkey
  refine ⟨found, hfound, ?_⟩
  have hblob := hlast' key
  generalize (askAll (Memory.store d.retention) calls' m').2.service.get? key = blob? at hblob
  generalize (mapAfter d.retention calls ∅).get? key = kept? at hrecord hblob
  cases hblob with
  | none =>
    rw [show found = none from hrecord]
    exact .none
  | some hkept =>
    obtain ⟨record, rfl, htag, hdays⟩ := hrecord
    obtain ⟨storedAt, hexpires⟩ := hkept.expires
    exact .some htag hkept.tag hdays hexpires.days

/-- A directory with the two directories of a store below the root. -/
def storeTree : FileTree where
  nodes := .ofList [(["meta"], .directory 0o755), (["objects"], .directory 0o755)]
  current := []

lemma get?_storeTree {q : Place} (hne : q ≠ []) (h : storeTree.get? q ≠ none) : q = ["meta"] ∨ q = ["objects"] := by
  obtain ⟨node, hnode⟩ := Option.ne_none_iff_exists'.mp h
  have hget : storeTree.nodes.get? q = some node := by simpa [FileTree.get?, hne] using hnode
  have hmem := (get?_eq_some _ _ _).mp hget
  have hnodes : storeTree.nodes.entries = [(["meta"], .directory 0o755), (["objects"], .directory 0o755)] := by rfl
  rw [hnodes, List.mem_cons, List.mem_singleton] at hmem
  exact hmem.imp (congrArg Prod.fst) (congrArg Prod.fst)

lemma isEmptyStore_storeTree : IsEmptyStore ⟨"/", .standard⟩ storeTree ["objects"] ["meta"] where
  rooted := by
    intro place name hthere
    have hplace := get?_storeTree (by simp) hthere
    obtain rfl : place = [] := by rcases hplace with h | h <;> simpa using congrArg List.dropLast h
    exact ⟨_, get?_root _⟩
  objects := by rfl
  records := by rfl
  objectsOpen := by decide +kernel
  recordsOpen := by decide +kernel
  apart := by simp [Beside]
  empty := by
    intro names hne
    constructor <;>
    · by_contra hsome
      have hplace := get?_storeTree (by simp) hsome
      simp [hne] at hplace

/-- The key of a bundle of the stage `build`. -/
def buildKey (job : String) : BundleKey := ⟨"1", "build", job, false⟩

lemma fits_buildKey {job : String} (h : job = "old" ∨ job = "new") :
    FitsDirectory ⟨"/", .standard⟩ (buildKey job).text := by
  rcases h with rfl | rfl <;>
  exact ⟨⟨_, by decide +kernel, rfl⟩, by decide +kernel, by rfl, by rfl⟩

/-- Of a bundle that is put twice, with a tag and without one, both stores have what was put last. -/
theorem stores_agree_put :
    ∃ (m : Machine Unit) (m' : Machine Memory) (calls : StoreCalls),
      IsEmptyStore ⟨"/", .standard⟩ m.files ["objects"] ["meta"] ∧ m'.service = ∅ ∧
      List.Forall₂ (SameCall .standard) calls calls ∧ (∀ c ∈ calls ++ calls, IsMoment c.1) ∧
      (∀ c ∈ calls, ∀ k ∈ c.2.key?, FitsDirectory ⟨"/", .standard⟩ k.text) ∧
      (askAll (Directory.store ⟨"/", .standard⟩) calls m).1 = (askAll (Memory.store .standard) calls m').1 ∧
      (askAll (Memory.store .standard) calls m').1 = [.ok (.stored (some 14)), .ok (.stored (some 7)),
        .error (.notFound "1/build/old.tar.gz"), .ok (.listed ["1/build/new.tar.gz"]),
        .ok (.got [("1/build/new.tar.gz", "second".toUTF8)])] := by
  let calls : StoreCalls := [
    (⟨0, 0⟩, .put (buildKey "new") "first".toUTF8 (some .successfulJob)),
    (⟨1, 0⟩, .put (buildKey "new") "second".toUTF8 none),
    (⟨2, 0⟩, .fetch (buildKey "old")), (⟨3, 0⟩, .list "1/"), (⟨4, 0⟩, .get "" ⟨[], []⟩)]
  have hsame : List.Forall₂ (SameCall .standard) calls calls :=
    List.forall₂_same.mpr fun c _ => ⟨rfl, fun _ _ _ _ => Iff.rfl⟩
  have hmoment : ∀ c ∈ calls ++ calls, IsMoment c.1 := by
    intro c hc
    refine ⟨?_, ?_, .inl ?_⟩ <;> revert c <;> decide +kernel
  have hfits : ∀ c ∈ calls, ∀ k ∈ c.2.key?, FitsDirectory ⟨"/", .standard⟩ k.text := by
    simp only [calls, StoreCall.key?, List.forall_mem_cons, Option.mem_def, Option.some.injEq, forall_eq', reduceCtorEq,
      false_imp_iff, implies_true, and_true, List.not_mem_nil]
    exact ⟨fits_buildKey (.inr rfl), fits_buildKey (.inr rfl), fits_buildKey (.inl rfl)⟩
  obtain ⟨hanswers, hanswers', _⟩ := stores_agree (m := ⟨storeTree, ⟨0, 0⟩, ()⟩) isEmptyStore_storeTree
    (show (⟨storeTree, ⟨0, 0⟩, ∅⟩ : Machine Memory).service = ∅ from rfl) hsame hmoment hfits
  exact ⟨_, _, calls, isEmptyStore_storeTree, rfl, hsame, hmoment, hfits, hanswers.trans hanswers'.symm,
    hanswers'.trans (by decide +kernel)⟩

end CrossBuild.Proofs
