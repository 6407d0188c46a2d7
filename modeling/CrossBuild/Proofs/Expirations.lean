import CrossBuild.Exchange.Retention
import CrossBuild.Proofs.CalendarDays
import CrossBuild.Proofs.FailedPuts

/-!
# When bundles expire

A store that keeps time itself adds the days that a bundle is kept to the moment of its put. Numbers of days go
up to 2³², and that is far more than the calendar has days: a put goes beyond it just if the day on which the
bundle would expire comes after the last one. Every other put tells that moment, or why its files cannot be
written.
-/

namespace CrossBuild.Proofs
open Directory

/-! ### The end of the calendar -/

/-- The last day that dates are kept of. -/
def lastDay : Int := Date.toDays ⟨Date.lastYear, 12, 31⟩

lemma year_le_lastYear {days : Int} : (Date.ofDays days).year ≤ Date.lastYear ↔ days ≤ lastDay := by
  constructor
  · intro hyear
    by_contra hlate
    have hnext : (Date.ofDays (lastDay + 1)).year = Date.lastYear + 1 := by decide
    have hmono := year_mono (show lastDay + 1 ≤ days by omega)
    omega
  · intro hdays
    have hlast : (Date.ofDays lastDay).year = Date.lastYear := by decide
    exact hlast ▸ year_mono hdays

/-- The moment when a bundle expires that is stored now, be it of the calendar or not. -/
def dueAt (r : Retention) (tag : Option BundleTag) (now : Instant) : Option Instant :=
  (r.days? tag).map fun days : Nat => { now with seconds := now.seconds + days * Instant.secondsPerDay }

/-- The day on which it expires, if it does, is one of the calendar. -/
def IsTimely (r : Retention) (tag : Option BundleTag) (now : Instant) : Prop :=
  ∀ days, r.days? tag = some days → now.seconds.fdiv Instant.secondsPerDay + days ≤ lastDay

section Expiry

variable {r : Retention} {tag : Option BundleTag} {now : Instant}

lemma plusDays?_eq (now : Instant) (days : Nat) : now.plusDays? days =
    if now.seconds.fdiv Instant.secondsPerDay + days ≤ lastDay then
      some { now with seconds := now.seconds + days * Instant.secondsPerDay } else none := by
  have hday : (now.seconds + days * Instant.secondsPerDay).fdiv Instant.secondsPerDay =
      now.seconds.fdiv Instant.secondsPerDay + days := Int.add_mul_fdiv_right _ _ (by decide)
  rw [Instant.plusDays?]
  simp only [Instant.date, hday, year_le_lastYear]

lemma IsTimely.expiresAs (h : IsTimely r tag now) : ExpiresAs r tag now (dueAt r tag now) := by
  unfold ExpiresAs Retention.expiry dueAt
  cases hdays : r.days? tag with
  | none => rfl
  | some days =>
    dsimp only [Option.map_some]
    rw [plusDays?_eq, if_pos (h days hdays)]

lemma expiry_beyond (h : ¬IsTimely r tag now) : r.expiry tag now = .beyond := by
  unfold IsTimely at h
  push Not at h
  obtain ⟨days, hdays, hlate⟩ := h
  rw [Retention.expiry, hdays]
  dsimp only
  rw [plusDays?_eq, if_neg (by omega)]

/-- The most days that are safe until the end of the year 9999: 92093340, over 250000 years. -/
def safeDays : Nat := (lastDay - Date.toDays ⟨9999, 12, 31⟩).toNat

lemma isTimely_of_safe (hnow : now.date.year < 10000) (hdays : ∀ days, r.days? tag = some days → days ≤ safeDays) :
    IsTimely r tag now := by
  intro days hkept
  have hsafe := hdays days hkept
  have htoday : now.seconds.fdiv Instant.secondsPerDay ≤ Date.toDays ⟨9999, 12, 31⟩ := by
    by_contra hlate
    have hnext : (Date.ofDays (Date.toDays ⟨9999, 12, 31⟩ + 1)).year = 10000 := by decide
    have hmono := year_mono (show Date.toDays ⟨9999, 12, 31⟩ + 1 ≤ now.seconds.fdiv Instant.secondsPerDay by omega)
    rw [Instant.date] at hnow
    omega
  have hsplit : lastDay - Date.toDays ⟨9999, 12, 31⟩ = (safeDays : Int) := by decide
  omega

end Expiry

/-! ### Retention as it is read -/

/-- All numbers of days are below 2³². -/
structure HasSmallCounts (r : Retention) : Prop where
  standard : ∀ days, r.defaultDays = some days → days < 2 ^ 32
  listed : ∀ tag days, r.tags.get? tag = some days → days < 2 ^ 32

lemma daysOf?_eq_some {j : Json} {days : Nat} : Retention.daysOf? j = some days ↔ j = .int days ∧ days < 2 ^ 32 := by
  have hlimit : Nat.pow 2 32 = 2 ^ 32 := rfl
  rw [Retention.daysOf?, hlimit, Json.natBelow?]
  cases j with
  | int n =>
    simp only [Json.int?, Option.bind_some, Json.int.injEq]
    split
    · rename_i hrange
      simp only [Bool.and_eq_true, decide_eq_true_eq] at hrange
      rw [Option.some_inj]
      omega
    · rename_i hrange
      simp only [Bool.and_eq_true, decide_eq_true_eq] at hrange
      simp only [reduceCtorEq, false_iff]
      omega
  | null | bool | fraction | text | array | object => simp [Json.int?]

lemma map?_daysOf? {j : Json} {pairs : List (String × Nat)} (h : j.map? Retention.daysOf? = some pairs) :
    ∀ e ∈ pairs, e.2 < 2 ^ 32 := by
  simp only [Json.map?, Option.bind_eq_some_iff, mapM_eq_some] at h
  obtain ⟨entries, hentries, hread⟩ := h
  clear hentries
  induction hread with
  | nil => simp
  | cons hvalue _ ih =>
    obtain ⟨days, hdays, rfl⟩ := Option.map_eq_some_iff.mp hvalue
    rw [List.forall_mem_cons]
    exact ⟨(daysOf?_eq_some.mp hdays).2, ih⟩

lemma get?_toJson (r : Retention) :
    r.toJson.get? "default_days" = some (match r.defaultDays with | none => .null | some days => .int days) ∧
      r.toJson.get? "tags" = some (.object (r.tags.entries.map fun e => (e.1, .int e.2))) := ⟨rfl, rfl⟩

lemma ofJson?_toJson {r : Retention} (h : HasSmallCounts r) : Retention.ofJson? r.toJson = some r := by
  obtain ⟨hstandardAt, htagsAt⟩ := get?_toJson r
  have hstandard : r.toJson.optional? "default_days" Retention.daysOf? = some r.defaultDays := by
    rw [Json.optional?, hstandardAt]
    cases hdays : r.defaultDays with
    | none => rfl
    | some days =>
      dsimp only
      rw [daysOf?_eq_some.mpr ⟨rfl, h.standard days hdays⟩, Option.map_some]
  have htags : r.toJson.fieldOr? "tags" [] (·.map? Retention.daysOf?) = some r.tags.entries := by
    rw [Json.fieldOr?, htagsAt]
    simp only [Json.map?, Json.entries?, Option.bind_some, mapM_eq_some, List.forall₂_map_left_iff, List.forall₂_same]
    intro e he
    rw [daysOf?_eq_some.mpr ⟨rfl, h.listed e.1 e.2 ((get?_eq_some _ _ _).mpr he)⟩, Option.map_some]
  obtain ⟨entries, hentries⟩ : ∃ entries, r.toJson.entries? = some entries := ⟨_, rfl⟩
  simp only [Retention.ofJson?, hentries, hstandard, htags, Option.bind_eq_bind, Option.bind_some, Option.pure_def,
    ofList_entries]

/-- Retention can be read just if its numbers of days are small enough. -/
theorem exists_ofJson?_iff {r : Retention} : (∃ j, Retention.ofJson? j = some r) ↔ HasSmallCounts r := by
  constructor
  · rintro ⟨j, hread⟩
    simp only [Retention.ofJson?, Option.bind_eq_bind, Option.bind_eq_some_iff, Option.pure_def, Option.some_inj] at hread
    obtain ⟨_, _, defaultDays, hstandard, pairs, htags, rfl⟩ := hread
    constructor
    · rintro days rfl
      unfold Json.optional? at hstandard
      split at hstandard
      · cases hstandard
      · cases hstandard
      · obtain ⟨days', hdays, heq⟩ := Option.map_eq_some_iff.mp hstandard
        cases heq
        exact (daysOf?_eq_some.mp hdays).2
    · intro tag days hlisted
      unfold Json.fieldOr? at htags
      split at htags
      · cases htags
        exact absurd (mem_of_get?_ofList hlisted) List.not_mem_nil
      · exact map?_daysOf? htags _ (mem_of_get?_ofList hlisted)
  · intro hsmall
    exact ⟨r.toJson, ofJson?_toJson hsmall⟩

/-! ### Puts -/

/-- What a put into memory tells. -/
structure MemoryTells (r : Retention) (key : String) (data : ByteArray) (tag : Option BundleTag) (m : Machine Memory) :
    Prop where
  timely : IsTimely r tag m.now → (Memory.store r).put key data tag m = (.ok (dueAt r tag m.now),
    { m with service := m.service.insert key ⟨data, tag, dueAt r tag m.now⟩ })
  late : ¬IsTimely r tag m.now → (Memory.store r).put key data tag m = (.error .beyondCalendar, m)

/-- What a put into a directory tells. It can fail for its key and its files, too. -/
structure DirectoryTells {σ : Type} (d : Directory) (key : String) (data : ByteArray) (tag : Option BundleTag)
    (m : Machine σ) : Prop where
  timely : IsTimely d.retention tag m.now → (d.put key data tag m).1 ≠ .error .beyondCalendar
  told : ∀ expiresAt, (d.put key data tag m).1 = .ok expiresAt → expiresAt = dueAt d.retention tag m.now
  late : ¬IsTimely d.retention tag m.now → d.put key data tag m = (.error .beyondCalendar, m)

/-- None of the keys that are listed is in the way of the bundle's data, and none of their records in that of
its record. -/
structure IsFreeKey {σ : Type} (d : Directory) (key : String) (m : Machine σ) : Prop where
  data : ∀ other, IsListed d m other → ¬InTheWay other key
  record : ∀ other, IsListed d m other → ¬InTheWay (other ++ ".json") (key ++ ".json")

section Puts

variable {σ : Type} {r : Retention} {d : Directory} {key path : String} {data : ByteArray} {tag : Option BundleTag}

lemma memory_tells (m : Machine Memory) : MemoryTells r key data tag m where
  timely := fun htimely => memory_put htimely.expiresAs
  late := fun hlate => (memory_implements r).beyond key data (expiry_beyond hlate)

lemma writeWhole_fails {m m' : Machine σ} {e : StoreError} (h : writeWhole path data m = (.error e, m')) :
    ∃ fault, e = .file fault := by
  unfold writeWhole at h
  rw [run_bind, run_makeDirectories] at h
  cases hmade : (m.files.makeDirectories ((Path.parent? path).getD "") m.now).2 with
  | some fault =>
    rw [hmade] at h
    cases h
    exact ⟨fault, rfl⟩
  | none =>
    rw [hmade] at h
    dsimp only at h
    rw [run_changeFiles] at h
    split at h
    · cases h
    · rename_i fault _
      cases h
      exact ⟨fault, rfl⟩

/-- A put that is not refused for its time tells when the bundle expires, or fails for another reason. -/
lemma put_cases (key : String) (data : ByteArray) {m : Machine σ} {expiresAt : Option Instant}
    (h : ExpiresAs d.retention tag m.now expiresAt) : (d.put key data tag m).1 = .ok expiresAt ∨
      ∃ e, e ≠ .beyondCalendar ∧ (d.put key data tag m).1 = .error e := by
  rw [put_run h, checkKey]
  by_cases husable : isUsableKey key = true
  swap
  · rw [if_neg husable]
    exact .inr ⟨.invalidKey key, by simp, rfl⟩
  rw [if_pos husable, pure_bind, run_bind]
  rcases hdata : writeWhole (d.objectPath key) data m with ⟨e | u, between⟩
  · obtain ⟨fault, rfl⟩ := writeWhole_fails hdata
    exact .inr ⟨.file fault, by simp, rfl⟩
  · dsimp only
    rw [run_bind]
    generalize (BundleRecord.toJson ⟨tag, m.now, expiresAt⟩).pretty.toUTF8 = record
    rcases hrecord : writeWhole (d.recordPath key) record between with ⟨e | u, after⟩
    · obtain ⟨fault, rfl⟩ := writeWhole_fails hrecord
      exact .inr ⟨.file fault, by simp, rfl⟩
    · exact .inl rfl

lemma directory_tells (m : Machine σ) : DirectoryTells d key data tag m where
  late := fun hlate => put_beyond (expiry_beyond hlate)
  timely := by
    intro htimely hbeyond
    rcases put_cases key data htimely.expiresAs with hok | ⟨e, hne, hfails⟩
    · rw [hok] at hbeyond
      cases hbeyond
    · rw [hfails] at hbeyond
      exact hne (Except.error.inj hbeyond)
  told := by
    intro expiresAt htold
    by_cases htimely : IsTimely d.retention tag m.now
    · rcases put_cases key data htimely.expiresAs with hok | ⟨e, _, hfails⟩
      · rw [hok] at htold
        exact (Except.ok.inj htold).symm
      · rw [hfails] at htold
        cases htold
    · rw [put_beyond (expiry_beyond htimely)] at htold
      cases htold

/-- In a store that began empty there is room for every bundle with a free key. -/
lemma put_succeeds {o p : Place} {m : Machine σ} {puts : List BundlePut} {b : BundlePut}
    (hempty : IsEmptyStore d m.files o p)
    (hkeys : ∀ c ∈ puts, isUsableKey c.key = true → IsStorableKey d c.key) (hkey : IsStorableKey d b.key)
    (hfree : IsFreeKey d b.key (afterPuts d puts m)) (htimely : IsTimely d.retention b.tag b.now) :
    (b.run d (afterPuts d puts m)).1 = .ok (dueAt d.retention b.tag b.now) := by
  obtain ⟨files, h⟩ := exists_holdsFiles hempty (holdsFiles_empty hempty) hkeys
  generalize afterPuts d puts m = between at h hfree ⊢
  have htells : DirectoryTells d b.key b.data b.tag { between with now := b.now } := directory_tells _
  have hexpires : d.retention.expiry b.tag b.now ≠ .beyond := by
    have hmoment := htimely.expiresAs
    unfold ExpiresAs at hmoment
    rw [hmoment]
    split <;> simp
  have hroom : HasRoom d o files b.key b.tag b.now :=
    (leavesData_iff hempty h).mp ⟨hkey.usable, hexpires, hfree.data⟩
  have hends : PutEnds d m.files o p files b.key b.data b.tag { between with now := b.now } (b.run d between) :=
    h.put (m := { between with now := b.now }) hempty (fun _ => hkey) b.data b.tag
  have htold : ∀ expiresAt, (b.run d between).1 = .ok expiresAt → expiresAt = dueAt d.retention b.tag b.now :=
    htells.told
  generalize b.run d between = result at hends htold ⊢
  cases hends with
  | refused hnot => exact (hnot hroom).elim
  | @halved _ t _ hfiled hholds hother =>
    have hleft : IsLeftBehind d b between { between with files := t } :=
      isLeftBehind hempty h hholds hkey rfl hfiled hother
    obtain ⟨other, hlisted, hway⟩ := hleft.inTheWay
    exact (hfree.record other hlisted hway).elim
  | @whole expiresAt t files' _ => rw [htold expiresAt rfl]

end Puts

/-- However long a bundle is to be kept, its put tells the moment that comes so many days later, or goes beyond
the calendar: this is decided by the day of that moment alone, not by what is in the store. -/
theorem put_expires {σ : Type} (r : Retention) (tag : Option BundleTag) (key : String) (data : ByteArray) :
    r.days? tag = (tag.bind fun t => r.tags.get? t.name).or r.defaultDays ∧
      (∀ m : Machine Memory, MemoryTells r key data tag m) ∧
      (∀ (root : String) (m : Machine σ), DirectoryTells ⟨root, r⟩ key data tag m) ∧
      (∀ (root : String) (m : Machine σ) (o p : Place) (puts : List BundlePut) (now : Instant),
        IsEmptyStore ⟨root, r⟩ m.files o p →
        (∀ c ∈ puts, isUsableKey c.key = true → IsStorableKey ⟨root, r⟩ c.key) → IsStorableKey ⟨root, r⟩ key →
        IsFreeKey ⟨root, r⟩ key (afterPuts ⟨root, r⟩ puts m) → IsTimely r tag now →
        (BundlePut.run ⟨now, key, data, tag⟩ ⟨root, r⟩ (afterPuts ⟨root, r⟩ puts m)).1 = .ok (dueAt r tag now)) ∧
      ∀ now : Instant, now.date.year < 10000 → (∀ days, r.days? tag = some days → days ≤ safeDays) →
        IsTimely r tag now := by
  refine ⟨?_, memory_tells, fun _ => directory_tells, ?_, fun _ => isTimely_of_safe⟩
  · unfold Retention.days?
    cases tag.bind fun t => r.tags.get? t.name <;> rfl
  · intro root m o p puts now hempty hkeys hkey hfree htimely
    exact put_succeeds (b := ⟨now, key, data, tag⟩) hempty hkeys hkey hfree htimely

/-- Bundles are kept for the most days that can be read. -/
def longest : Retention := ⟨some 4294967295, ∅⟩

/-- A moment in November 2023. -/
def autumn : Instant := ⟨1700000000, 0⟩

/-- The moment would come millions of years after the calendar has ended, and neither store tells it. After a
week it would. -/
theorem put_expires_longest :
    (∃ j, Retention.ofJson? j = some longest) ∧ autumn.date.year < 10000 ∧
      ((Memory.store longest).put "a" "x".toUTF8 none ⟨storeTree, autumn, ∅⟩).1 = .error .beyondCalendar ∧
      (Directory.put ⟨"/", longest⟩ "a" "x".toUTF8 none (⟨storeTree, autumn, ()⟩ : Machine Unit)).1 =
        .error .beyondCalendar ∧
      (BundlePut.run ⟨autumn, "a", "x".toUTF8, none⟩ ⟨"/", .standard⟩ (⟨storeTree, autumn, ()⟩ : Machine Unit)).1 =
        .ok (some ⟨1700604800, 0⟩) := by
  have hsmall : HasSmallCounts longest := ⟨by rintro _ ⟨⟩; decide, nofun⟩
  have hlate : ¬IsTimely longest none autumn := fun htimely => absurd (htimely _ rfl) (by decide)
  obtain ⟨_, hmemory, hdirectory, _⟩ := put_expires (σ := Unit) longest none "a" "x".toUTF8
  obtain ⟨_, _, _, hput, hsafe⟩ := put_expires (σ := Unit) .standard none "a" "x".toUTF8
  have hlist : (Directory.list ⟨"/", .standard⟩ "" (⟨storeTree, autumn, ()⟩ : Machine Unit)).1 = .ok [] := by
    decide +kernel
  have hnone : ∀ other, ¬IsListed ⟨"/", .standard⟩ (⟨storeTree, autumn, ()⟩ : Machine Unit) other := by
    rintro other ⟨keys, hlisted, hmem⟩
    rw [hlist] at hlisted
    cases hlisted
    cases hmem
  have htimely : IsTimely .standard none autumn := by
    refine hsafe autumn (by decide) ?_
    rintro _ ⟨⟩
    decide
  refine ⟨exists_ofJson?_iff.mpr hsmall, by decide, ?_, ?_, ?_⟩
  · rw [(hmemory ⟨storeTree, autumn, ∅⟩).late hlate]
  · rw [(hdirectory "/" ⟨storeTree, autumn, ()⟩).late hlate]
  · exact hput "/" ⟨storeTree, autumn, ()⟩ _ _ [] autumn isEmptyStore_storeTree nofun
      (storable_of_mem List.mem_cons_self) ⟨fun _ hlisted => absurd hlisted (hnone _), fun _ hlisted =>
        absurd hlisted (hnone _)⟩ htimely

end CrossBuild.Proofs
