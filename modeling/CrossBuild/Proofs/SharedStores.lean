import CrossBuild.Proofs.DownloadEffect
import CrossBuild.Proofs.KeptBundles

/-!
# Stores that jobs share

Jobs on machines of their own share a store that keeps what is put into it and touches none of their files. A store
in memory is one. So is a store in a directory of a volume that all of them reach. Whatever the store does on its
volume, and if it fails on the way, there are no links below the two directories of the store after it. So each key is
that of one file and no other, and a put that succeeds changes this one file of the objects.
-/

namespace CrossBuild.Proofs
open Handoff

variable {σ : Type}

/-! ### Stores that keep what is put into them -/

/-- A store that keeps what is put into it. What it holds shows in the state of its service, and none of its
operations touches files or takes time. -/
structure KeepsBundles (store : Store σ) (content : σ → Memory) : Prop where
  list : ∀ {m m' start listed}, Gives (store.list start) m listed m' → listed = (content m.service).listed start ∧
    content m'.service = content m.service ∧ m'.files = m.files ∧ m'.now = m.now
  fetch : ∀ {m m' key data}, Gives (store.fetch key) m data m' →
    ((content m.service).get? key).map (·.data) = some data ∧
      content m'.service = content m.service ∧ m'.files = m.files ∧ m'.now = m.now
  put : ∀ {m m' key data tag expiry}, Gives (store.put key data tag) m expiry m' →
    (∃ blob : Blob, blob.data = data ∧ content m'.service = (content m.service).insert key blob) ∧
      m'.files = m.files ∧ m'.now = m.now

section Store

variable {store : Store σ} {content : σ → Memory} (hs : KeepsBundles store content)

include hs

lemma KeepsBundles.serves (workspace : String) (bundles : Memory) :
    Serves store workspace (fun m => content m.service = bundles) bundles where
  list := by
    intro m m' start listed hm h
    obtain ⟨hlisted, hcontent, hfiles, hnow⟩ := hs.list h
    exact ⟨hm ▸ hlisted, hcontent.trans hm, hfiles, hnow⟩
  fetch := by
    intro m m' key data hm h
    obtain ⟨hdata, hcontent, hfiles, hnow⟩ := hs.fetch h
    exact ⟨hm ▸ hdata, hcontent.trans hm, hfiles, hnow⟩
  staged := fun hm _ => hm
  unpacked := by
    intro m m' key data count hm h
    obtain ⟨_, _, _, _, _, _, files, _, _, _, _, rfl⟩ := unpackBundle_run h
    exact hm

lemma KeepsBundles.download {request : DownloadRequest} {m m' : Machine σ} {report : DownloadReport}
    (h : Gives (Handoff.download store request) m report m') : content m'.service = content m.service := by
  obtain ⟨between, hbetween, _, files, rfl⟩ := download_holds (hs.serves request.workspace _) rfl h
  exact hbetween

end Store

lemma expiration_run {r : Retention} {tag : Option BundleTag} {m m' : Machine σ} {expiry : Option Instant}
    (h : Gives (Store.expiration r tag) m expiry m') : m' = m := by
  simp only [Store.expiration, gives_bind] at h
  obtain ⟨_, _, hget, h⟩ := h
  obtain ⟨rfl, rfl⟩ := gives_get.mp hget
  split at h
  · exact (gives_pure.mp h).2.symm
  · exact (gives_pure.mp h).2.symm
  · exact (gives_throw h).elim

lemma memory_keepsBundles (r : Retention) : KeepsBundles (Memory.store r) id where
  list := by
    intro m m' start listed h
    simp only [Memory.store, gives_bind, gives_get, gives_pure] at h
    obtain ⟨_, _, ⟨rfl, rfl⟩, rfl, rfl⟩ := h
    exact ⟨rfl, rfl, rfl, rfl⟩
  fetch := by
    intro m m' key data h
    simp only [Memory.store, gives_bind, gives_get] at h
    obtain ⟨_, _, ⟨rfl, rfl⟩, h⟩ := h
    split at h
    · rename_i blob hblob
      obtain ⟨rfl, rfl⟩ := gives_pure.mp h
      exact ⟨by simp [hblob], rfl, rfl, rfl⟩
    · exact (gives_throw h).elim
  put := by
    intro m m' key data tag expiry h
    simp only [Memory.store, gives_bind, gives_modify, gives_pure] at h
    obtain ⟨_, _, hexpiry, _, _, rfl, _, rfl⟩ := h
    rw [expiration_run hexpiry]
    exact ⟨⟨_, rfl, rfl⟩, rfl, rfl⟩

/-! ### Volumes -/

/-- A tree with a store in one of its directories, and with no links below the objects or the records. -/
structure HoldsStore (d : Directory) (o p : Place) (t : FileTree) : Prop where
  sound : IsSound t
  objects : IsClean t d.objectsDir o
  records : IsClean t d.recordsDir p
  apart : Beside o p

/-- A volume with a store. -/
def Volume (d : Directory) (o p : Place) : Type := { t : FileTree // HoldsStore d o p t }

/-- A store that was just set up has no links in it. -/
lemma IsEmptyStore.holdsStore {d : Directory} {t : FileTree} {o p : Place} (h : IsEmptyStore d t o p)
    (hnamed : HasFileNames t) : HoldsStore d o p t where
  sound := ⟨h.rooted, hnamed⟩
  objects := ⟨(h.opens (filedAs_refl t)).1.leadsTo, h.linkFree (filedAs_refl t) (.inl rfl)⟩
  records := ⟨(h.opens (filedAs_refl t)).2.leadsTo, h.linkFree (filedAs_refl t) (.inr rfl)⟩
  apart := h.apart

/-! ### What a store does on its volume -/

section Writes

variable {now : Instant} {I : FileTree → Prop} {given : File → Prop} {base path : String} {w names : Place}
  {data : ByteArray} {m m' : Machine σ}

lemma keeps_writeWhole (data : ByteArray) (hI : Bears now I base given) (htarget : LiesBelow base names path)
    (hne : names ≠ []) (hgiven : given ⟨data, now, Directory.privateMode⟩) :
    Keeps now I (Directory.writeWhole path data : Task σ StoreError Unit) := by
  refine keeps_bind (keeps_makeDirectories _ fun ht => hI.makeParent htarget hne ht) fun _ => ?_
  exact keeps_changeFiles _ fun ht => hI.replace ht htarget hne hgiven

/-- A file that is written below a directory without links is there, and no other file is touched. -/
lemma writeWhole_files (hclean : IsClean m.files base w) (htarget : LiesBelow base names path) (hne : names ≠ [])
    (h : Gives (Directory.writeWhole path data) m () m') : fileAt m'.files =
      Function.update (fileAt m.files) (w ++ names) (some ⟨data, m.now, Directory.privateMode⟩) := by
  simp only [Directory.writeWhole, gives_bind, gives_makeDirectories, gives_changeFiles] at h
  obtain ⟨_, _, ⟨made, hmade, rfl⟩, files, hreplace, rfl⟩ := h
  have hmadeClean : IsClean made base w := by
    have hstays := (bears_staysWithin m.now m.files base w).makeParent htarget hne ⟨within_refl w m.files, hclean⟩
    rw [hmade] at hstays
    exact hstays.clean
  rw [(replace_evolves (hmadeClean.reaches htarget hne) hne hreplace).files, (makeDirectories_evolves hmade).files]

end Writes

section Operations

variable {d : Directory} {o p w : Place} {base key : String} {data : ByteArray} {tag : Option BundleTag}
  {now : Instant}

/-- Writing a file of the store leaves a store, even if it fails. -/
lemma keeps_storeFile (hside : ∀ {t}, HoldsStore d o p t → IsClean t base w) (hpath : IsKeyPath base key)
    (data : ByteArray) :
    Keeps now (HoldsStore d o p) (Directory.writeWhole (Path.join base key) data : Task σ StoreError Unit) := by
  intro m hnow hm
  obtain ⟨files, hfiles, hstays⟩ := keeps_writeWhole data (bears_staysWithin now m.files base w) hpath.below
    hpath.ne_nil trivial m hnow ⟨within_refl w m.files, hside hm⟩
  obtain ⟨files', hfiles', hsound, _⟩ := keeps_writeWhole data
    (bears_filesBelow (P := fun _ => True) (fun _ _ => trivial) [] base) hpath.below hpath.ne_nil trivial m hnow
    ⟨hm.sound, fun _ _ _ => trivial⟩
  obtain rfl : files' = files := congrArg Machine.files (hfiles'.symm.trans hfiles)
  exact ⟨files', hfiles, hsound, hstays.within.isClean hm.objects, hstays.within.isClean hm.records, hm.apart⟩

lemma keeps_expiration (I : FileTree → Prop) (r : Retention) :
    Keeps now I (Store.expiration r tag : Task σ StoreError (Option Instant)) := by
  intro m _ hm
  refine ⟨m.files, ?_, hm⟩
  rw [expiration_run_eq]
  cases r.expiry tag m.now <;> rfl

lemma keeps_put (key : String) (data : ByteArray) (tag : Option BundleTag) :
    Keeps now (HoldsStore d o p) (d.put key data tag : Task σ StoreError (Option Instant)) := by
  unfold Directory.put
  refine keeps_get fun _ _ => keeps_bind (keeps_expiration _ _) fun expiresAt => ?_
  by_cases husable : Directory.isUsableKey key = true
  · rw [Directory.checkKey, if_pos husable, pure_bind]
    refine keeps_bind (keeps_storeFile (·.objects) (isKeyPath_object d husable) data) fun _ => ?_
    exact keeps_bind (keeps_storeFile (·.records) (isKeyPath_record d husable) _) fun _ => keeps_pure _
  · rw [Directory.checkKey, if_neg husable]
    exact fun m _ hm => ⟨m.files, rfl, hm⟩

lemma list_snd (d : Directory) (start : String) (m : Machine σ) : (d.list start m).2 = m := by
  rw [list_run]
  cases m.files.place d.objectsDir <;> rfl

lemma fetch_snd (d : Directory) (key : String) (m : Machine σ) : (d.fetch key m).2 = m := by
  by_cases husable : Directory.isUsableKey key = true
  · rw [fetch_run d husable, readOr_run]
    rcases m.files.read (d.objectPath key) with (_ | _) | _ <;> rfl
  · rw [Directory.fetch, Directory.checkKey, if_neg husable]
    rfl

lemma keeps_of_snd {ε α : Type} {I : FileTree → Prop} {task : Task σ ε α} (h : ∀ m, (task m).2 = m) :
    Keeps now I task :=
  fun m _ hm => ⟨m.files, h m, hm⟩

/-- A put that succeeds changes one file of the objects. -/
lemma put_files {m m' : Machine σ} (hm : HoldsStore d o p m.files) {expiry : Option Instant}
    (h : Gives (d.put key data tag) m expiry m') : Directory.isUsableKey key = true ∧ ∀ names,
      fileAt m'.files (o ++ names) = if names = namesOf key then some ⟨data, m.now, Directory.privateMode⟩
        else fileAt m.files (o ++ names) := by
  simp only [Directory.put, gives_bind, gives_get] at h
  obtain ⟨_, _, ⟨rfl, rfl⟩, expiresAt, _, hexpires, _, m₁, hcheck, _, m₂, hobject, _, m₃, hrecord, hlast⟩ := h
  obtain rfl := expiration_run hexpires
  obtain ⟨_, rfl⟩ := gives_pure.mp hlast
  by_cases husable : Directory.isUsableKey key = true
  swap
  · rw [Directory.checkKey, if_neg husable] at hcheck
    exact (gives_throw hcheck).elim
  rw [Directory.checkKey, if_pos husable] at hcheck
  obtain ⟨_, rfl⟩ := gives_pure.mp hcheck
  refine ⟨husable, fun names => ?_⟩
  have hpath := isKeyPath_object d husable
  have hpath' := isKeyPath_record d husable
  obtain ⟨files, rfl, hbetween⟩ := (keeps_storeFile (·.objects) hpath data).gives hobject rfl hm
  rw [writeWhole_files hbetween.records hpath'.below hpath'.ne_nil hrecord,
    Function.update_of_ne (hm.apart.append names _).ne, writeWhole_files hm.objects hpath.below hpath.ne_nil hobject]
  by_cases hnames : names = namesOf key
  · rw [if_pos hnames, hnames, Function.update_self]
  · rw [if_neg hnames, Function.update_of_ne fun heq => hnames (List.append_cancel_left heq)]

end Operations

/-! ### The bundles on a volume -/

/-- A file below the objects as a bundle under its key, of which no record is read. -/
def bundleAt? : Place × FileNode → Option (String × Blob)
  | (names, .file f) => some (pathOfNames names, ⟨f.data, none, none⟩)
  | _ => none

/-- The files below a place as bundles. -/
def bundlesBelow (o : Place) (t : FileTree) : Memory := .ofList ((t.below o).filterMap bundleAt?)

section Bundles

variable {t : FileTree} {o : Place} {key : String}

lemma keysBelow_eq (t : FileTree) (o : Place) :
    Directory.keysBelow t o = ((t.below o).filterMap bundleAt?).map (·.1) := by
  rw [Directory.keysBelow, List.map_filterMap]
  refine List.filterMap_congr fun x _ => ?_
  obtain ⟨names, node⟩ := x
  cases node with
  | directory | file | link => rfl

/-- There is a bundle under a key just if the key is the path of a file below the place. -/
lemma get?_bundlesBelow (ht : IsSound t) {blob : Blob} : (bundlesBelow o t).get? key = some blob ↔
    Directory.isUsableKey key = true ∧ ∃ f, fileAt t (o ++ namesOf key) = some f ∧ ⟨f.data, none, none⟩ = blob := by
  have hfound : ∀ {blob : Blob}, (key, blob) ∈ (t.below o).filterMap bundleAt? →
      Directory.isUsableKey key = true ∧ ∃ f, fileAt t (o ++ namesOf key) = some f ∧ ⟨f.data, none, none⟩ = blob := by
    intro blob hmem
    obtain ⟨⟨names, node⟩, hbelow, hbundle⟩ := List.mem_filterMap.mp hmem
    obtain ⟨hne, hnode⟩ := mem_below.mp hbelow
    have hnames : ∀ name ∈ names, IsFileName name := fun name hname =>
      hasFileNames_iff.mp ht.named _ (hnode ▸ Option.some_ne_none _) name (List.mem_append_right o hname)
    cases node with
    | directory | link => cases hbundle
    | file f =>
      cases hbundle
      refine ⟨isUsableKey_pathOfNames hnames hne, f, ?_, rfl⟩
      rw [namesOf_pathOfNames hnames hne, fileAt, hnode]
  constructor
  · exact fun h => hfound (mem_of_get?_ofList h)
  · rintro ⟨husable, f, hf, rfl⟩
    obtain ⟨names, hne, hnames, rfl⟩ := usableKey_names husable
    rw [namesOf_pathOfNames hnames hne] at hf
    have hmem : (pathOfNames names, (⟨f.data, none, none⟩ : Blob)) ∈ (t.below o).filterMap bundleAt? :=
      List.mem_filterMap.mpr ⟨(names, .file f), mem_below.mpr ⟨hne, get?_of_fileAt hf⟩, rfl⟩
    have hkey : (bundlesBelow o t).contains (pathOfNames names) = true :=
      (contains_ofList _ _).mpr (List.mem_map_of_mem hmem)
    obtain ⟨blob, hblob⟩ := (contains_eq_true _ _).mp hkey
    obtain ⟨_, f', hf', rfl⟩ := hfound (mem_of_get?_ofList hblob)
    rw [namesOf_pathOfNames hnames hne, hf] at hf'
    rw [hblob, Option.some.inj hf']

/-- The files below the objects are listed once each. -/
lemma keysBelow_perm_bundles (ht : IsSound t) : (Directory.keysBelow t o).Perm (bundlesBelow o t).keys := by
  have hnodup : (Directory.keysBelow t o).Nodup := by
    refine nodup_keysBelow fun names f hmem => ?_
    obtain ⟨hne, hnode⟩ := mem_below.mp hmem
    exact namesOf_pathOfNames (fun name hname => hasFileNames_iff.mp ht.named _ (hnode ▸ Option.some_ne_none _) name
      (List.mem_append_right o hname)) hne
  refine (List.perm_ext_iff_of_nodup hnodup (nodup_keys _)).mpr fun key => ?_
  rw [mem_keys, bundlesBelow, contains_ofList, keysBelow_eq]

end Bundles

section Answers

variable {d : Directory} {o p : Place} {m m' : Machine σ} {key : String} {data : ByteArray}
  (hm : HoldsStore d o p m.files)

include hm

lemma HoldsStore.listed {start : String} {listed : List String} (h : Gives (d.list start) m listed m') :
    listed = (bundlesBelow o m.files).listed start := by
  unfold Gives at h
  rw [list_run] at h
  cases hplace : m.files.place d.objectsDir with
  | error fault =>
    rw [hplace] at h
    cases h
  | ok place =>
    obtain rfl : place = o := (leads_of_place hplace).unique hm.objects.leads.steps
    rw [hplace] at h
    rw [← Except.ok.inj (Prod.ext_iff.mp h).1]
    exact mergeSort_keys (keysBelow_perm_bundles hm.sound) start

lemma HoldsStore.fetched (h : Gives (d.fetch key) m data m') :
    ((bundlesBelow o m.files).get? key).map (·.data) = some data := by
  unfold Gives at h
  by_cases husable : Directory.isUsableKey key = true
  swap
  · rw [Directory.fetch, Directory.checkKey, if_neg husable] at h
    cases h
  rw [fetch_run d husable, readOr_run] at h
  cases hread : m.files.read (d.objectPath key) with
  | error fault =>
    rw [hread] at h
    cases fault <;> cases h
  | ok found =>
    rw [hread] at h
    obtain rfl : found = data := Except.ok.inj (Prod.ext_iff.mp h).1
    obtain ⟨f, hf, _, rfl⟩ := read_iff_file.mp hread
    obtain ⟨q, hplace, hget⟩ := node_iff_place.mp (file_iff_node.mp hf)
    have hpath := isKeyPath_object d husable
    obtain rfl := (hm.objects.reaches hpath.below hpath.ne_nil).place hplace
    have hfile : fileAt m.files (o ++ namesOf key) = some f := by rw [fileAt, hget]
    rw [(get?_bundlesBelow hm.sound).mpr ⟨husable, f, hfile, rfl⟩, Option.map_some]

lemma HoldsStore.stored (hm' : HoldsStore d o p m'.files) {tag : Option BundleTag} {expiry : Option Instant}
    (h : Gives (d.put key data tag) m expiry m') :
    bundlesBelow o m'.files = (bundlesBelow o m.files).insert key ⟨data, none, none⟩ := by
  obtain ⟨husable, hfiles⟩ := put_files hm h
  refine eq_of_get?_eq fun other => Option.ext fun blob => ?_
  rw [get?_bundlesBelow hm'.sound, hfiles, get?_insert]
  by_cases hkey : other = key
  · subst hkey
    simp [husable]
  · rw [if_neg hkey, get?_bundlesBelow hm.sound]
    refine and_congr_right fun hother => ?_
    have hpath := isKeyPath_object d husable
    rw [if_neg fun hnames => hkey (((isKeyPath_object d hother).names_inj hpath).mp hnames)]

end Answers

/-! ### A store on a volume -/

/-- The volume by itself. -/
def Volume.machine {d : Directory} {o p : Place} (v : Volume d o p) (now : Instant) : Machine Unit := ⟨v.1, now, ()⟩

section Shared

variable {d : Directory} {o p : Place} {α : Type}

/-- The task is done on the volume, whatever machine asks for it. -/
def onVolume (task : Task Unit StoreError α) (hkeeps : ∀ {now}, Keeps now (HoldsStore d o p) task) :
    Task (Volume d o p) StoreError α := fun m =>
  let result := task (m.service.machine m.now)
  (result.1, { m with service := ⟨result.2.files, by
    obtain ⟨files, hfiles, hholds⟩ := hkeeps (m.service.machine m.now) rfl m.service.2
    rw [hfiles]
    exact hholds⟩ })

lemma onVolume_gives {task : Task Unit StoreError α} (hkeeps : ∀ {now}, Keeps now (HoldsStore d o p) task)
    {m m' : Machine (Volume d o p)} {a : α} (h : Gives (onVolume task hkeeps) m a m') :
    Gives task (m.service.machine m.now) a (m'.service.machine m.now) ∧ m'.files = m.files ∧ m'.now = m.now := by
  obtain ⟨files, hfiles, _⟩ := hkeeps (m.service.machine m.now) rfl m.service.2
  obtain ⟨hresult, rfl⟩ := Prod.ext_iff.mp h
  refine ⟨Prod.ext hresult ?_, rfl, rfl⟩
  rw [hfiles]
  change _ = (⟨(task (m.service.machine m.now)).2.files, m.now, ()⟩ : Machine Unit)
  rw [hfiles]
  rfl

/-- Nothing comes of a task that only looks. -/
lemma onVolume_looks {task : Task Unit StoreError α} (hlooks : ∀ m, (task m).2 = m) {m m' : Machine (Volume d o p)}
    {a : α} (h : Gives (onVolume task (keeps_of_snd hlooks)) m a m') :
    Gives task (m.service.machine m.now) a (m.service.machine m.now) ∧ m' = m := by
  obtain ⟨hresult, rfl⟩ := Prod.ext_iff.mp h
  refine ⟨Prod.ext hresult (hlooks _), ?_⟩
  have hvolume : (task (m.service.machine m.now)).2.files = m.service.1 := congrArg Machine.files (hlooks _)
  exact congrArg (fun v => (⟨m.files, m.now, v⟩ : Machine (Volume d o p))) (Subtype.ext hvolume)

/-- The store in the directory, as all machines that share its volume see it. -/
def sharedStore (d : Directory) (o p : Place) : Store (Volume d o p) where
  put key data tag := onVolume (d.store.put key data tag) (keeps_put key data tag)
  list start := onVolume (d.store.list start) (keeps_of_snd (list_snd d start))
  fetch key := onVolume (d.store.fetch key) (keeps_of_snd (fetch_snd d key))

/-- A store in a directory keeps what is put into it, on a volume that machines share. -/
theorem volume_keepsBundles (d : Directory) (o p : Place) :
    KeepsBundles (sharedStore d o p) fun v => bundlesBelow o v.1 where
  list := by
    intro m m' start listed h
    obtain ⟨hrun, rfl⟩ := onVolume_looks (list_snd d start) h
    exact ⟨HoldsStore.listed m'.service.2 hrun, rfl, rfl, rfl⟩
  fetch := by
    intro m m' key data h
    obtain ⟨hrun, rfl⟩ := onVolume_looks (fetch_snd d key) h
    exact ⟨HoldsStore.fetched m'.service.2 hrun, rfl, rfl, rfl⟩
  put := by
    intro m m' key data tag expiry h
    obtain ⟨hrun, hfiles, hnow⟩ := onVolume_gives (keeps_put key data tag) h
    exact ⟨⟨⟨data, none, none⟩, rfl, HoldsStore.stored m.service.2 m'.service.2 hrun⟩, hfiles, hnow⟩

end Shared

end CrossBuild.Proofs
