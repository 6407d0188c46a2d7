import CrossBuild.Proofs.AlikeStores
import CrossBuild.Proofs.BlockedFiles

/-!
# How a put ends

To put a bundle into a directory is to write two files, its data and its record. Whatever keys a store is given,
no file of it is ever in the way of another one. So there is room for a file unless another file is in its way,
and a put ends in one of three ways: with both files written, with none, or with the data alone.
-/

namespace CrossBuild.Proofs
open FileTree Directory

variable {σ : Type}

/-! ### Trees of a store -/

/-- The tree of a store in which no file is in the way of another one. A record is there only with its data. -/
structure HoldsFiles (d : Directory) (start : FileTree) (o p : Place) (files : Place → Option File) (t : FileTree) :
    Prop where
  rooted : Rooted t
  filed : FiledAs start t files
  only : ∀ {place f}, files place = some f → f.mode = privateMode ∧ ∃ key, IsStorableKey d key ∧
    (place = o ++ namesOf key ∨ place = p ++ namesOf (key ++ ".json") ∧ files (o ++ namesOf key) ≠ none)
  apart : ∀ {place f}, files place = some f → StandsApart files place

lemma holdsFiles_empty {d : Directory} {start : FileTree} {o p : Place} (hstart : IsEmptyStore d start o p) :
    HoldsFiles d start o p (fun _ => none) start :=
  ⟨hstart.rooted, filedAs_refl start, nofun, nofun⟩

section Trees

variable {d : Directory} {start t t' : FileTree} {o p w names place : Place} {files : Place → Option File} {f : File}
  {key : String}

/-- One more file, or another one at the same place. -/
lemma HoldsFiles.file (h : HoldsFiles d start o p files t) (hfiled : Filed t t' place f) (hrooted : Rooted t')
    (hapart : StandsApart files place) (hmode : f.mode = privateMode)
    (honly : ∃ key, IsStorableKey d key ∧ (place = o ++ namesOf key ∨
      place = p ++ namesOf (key ++ ".json") ∧ files (o ++ namesOf key) ≠ none)) :
    HoldsFiles d start o p (Function.update files place (some f)) t' where
  rooted := hrooted
  filed := h.filed.trans hfiled hapart
  only := by
    have hkept : ∀ q, files q ≠ none → Function.update files place (some f) q ≠ none := by
      intro q hq
      by_cases hplace : q = place
      · simp [hplace]
      · rwa [Function.update_of_ne hplace]
    have horigin : ∀ q, (∃ key, IsStorableKey d key ∧ (q = o ++ namesOf key ∨
        q = p ++ namesOf (key ++ ".json") ∧ files (o ++ namesOf key) ≠ none)) →
        ∃ key, IsStorableKey d key ∧ (q = o ++ namesOf key ∨
          q = p ++ namesOf (key ++ ".json") ∧ Function.update files place (some f) (o ++ namesOf key) ≠ none) := by
      rintro q ⟨key, hkey, hq⟩
      exact ⟨key, hkey, hq.imp_right fun hrecord => ⟨hrecord.1, hkept _ hrecord.2⟩⟩
    intro q g hfile
    by_cases hq : q = place
    · rw [hq, Function.update_self] at hfile
      rw [← Option.some.inj hfile, hq]
      exact ⟨hmode, horigin place honly⟩
    · rw [Function.update_of_ne hq] at hfile
      exact ⟨(h.only hfile).1, horigin q (h.only hfile).2⟩
  apart := standsApart_update h.apart hapart f

variable (hstart : IsEmptyStore d start o p) (h : HoldsFiles d start o p files t)

include hstart h

/-- There is no room for a file that another one is in the way of. -/
lemma HoldsFiles.blocks (hw : w = o ∨ w = p) (hapart : ¬StandsApart files (w ++ names)) : Blocks t w names := by
  unfold StandsApart at hapart
  push Not at hapart
  obtain ⟨other, f, hfile, hbegins, hne⟩ := hapart
  have hnode := h.filed.filed hfile
  have hdir := directoryAt_of_check (h.filed.preserves.check (hstart.side hw).2)
  rcases hbegins with hbegins | ⟨more, rfl⟩
  · -- the file is below the directory, as the directory cannot be below it
    rcases List.prefix_or_prefix_of_prefix hbegins (List.prefix_append w names) with habove | ⟨front, rfl⟩
    · exact absurd hdir (h.rooted.no_directory_below_file hnode habove)
    · rw [List.prefix_append_right_inj] at hbegins
      exact blocks_of_file h.rooted hnode hbegins fun heq => hne (by rw [heq])
  · obtain ⟨name, rest, rfl⟩ := List.exists_cons_of_ne_nil (show more ≠ [] by rintro rfl; simp at hne)
    have hsplit : w ++ names ++ name :: rest = (w ++ names ++ [name]) ++ rest := by simp
    have hthere : t.get? ((w ++ names ++ [name]) ++ rest) ≠ none := by
      rw [← hsplit, hnode]
      simp
    exact blocks_of_directory h.rooted (h.rooted _ name (h.rooted.get?_front rest hthere))

end Trees

/-! ### One put -/

/-- The put is not refused for its key or its time, and no file is in the way of its data. -/
structure HasRoom (d : Directory) (o : Place) (files : Place → Option File) (key : String) (tag : Option BundleTag)
    (now : Instant) : Prop where
  usable : isUsableKey key = true
  expires : d.retention.expiry tag now ≠ .beyond
  apart : StandsApart files (o ++ namesOf key)

/-- How a put ends, and with which tree. -/
inductive PutEnds (d : Directory) (start : FileTree) (o p : Place) (files : Place → Option File) (key : String)
    (data : ByteArray) (tag : Option BundleTag) (m : Machine σ) : Except StoreError (Option Instant) × Machine σ → Prop
  | refused {e : StoreError} : ¬HasRoom d o files key tag m.now → PutEnds d start o p files key data tag m (.error e, m)
  | halved {e : StoreError} {t : FileTree} : HasRoom d o files key tag m.now →
      Filed m.files t (o ++ namesOf key) ⟨data, m.now, privateMode⟩ →
      HoldsFiles d start o p (Function.update files (o ++ namesOf key) (some ⟨data, m.now, privateMode⟩)) t →
      ¬StandsApart (Function.update files (o ++ namesOf key) (some ⟨data, m.now, privateMode⟩))
        (p ++ namesOf (key ++ ".json")) →
      PutEnds d start o p files key data tag m (.error e, { m with files := t })
  | whole {expiresAt : Option Instant} {t : FileTree} {files' : Place → Option File} :
      HoldsFiles d start o p files' t → PutEnds d start o p files key data tag m (.ok expiresAt, { m with files := t })

section Put

variable {d : Directory} {start : FileTree} {o p w : Place} {files : Place → Option File} {m : Machine σ}
  {base name key : String}

/-- A file of the store is written if no other one is in its way. If one is, the attempt changes nothing. -/
lemma HoldsFiles.write (hstart : IsEmptyStore d start o p) (h : HoldsFiles d start o p files m.files)
    (hw : w = o ∨ w = p) (hopens : Opens m.files base w) (hpath : IsKeyPath base name)
    (hsizes : ∀ part ∈ namesOf name, part.utf8ByteSize ≤ longestName)
    (hcheck : checkPath (Path.join base name) = .ok ())
    (honly : ∃ key, IsStorableKey d key ∧ (w ++ namesOf name = o ++ namesOf key ∨
      w ++ namesOf name = p ++ namesOf (key ++ ".json") ∧ files (o ++ namesOf key) ≠ none)) (data : ByteArray) :
    (StandsApart files (w ++ namesOf name) ∧
        ∃ t, writeWhole (Path.join base name) data m = (.ok (), { m with files := t }) ∧
        Filed m.files t (w ++ namesOf name) ⟨data, m.now, privateMode⟩ ∧
        HoldsFiles d start o p (Function.update files (w ++ namesOf name) (some ⟨data, m.now, privateMode⟩)) t) ∨
      ¬StandsApart files (w ++ namesOf name) ∧
        ∃ fault, writeWhole (Path.join base name) data m = (.error (.file fault), m) := by
  by_cases hapart : StandsApart files (w ++ namesOf name)
  · have hroom := hstart.admits h.filed hw hpath.ne_nil hsizes hapart
    obtain ⟨t, hwrites, hfiled, hrooted⟩ :=
      writeWhole_gives h.rooted hopens hpath.below hpath.ne_nil hpath.ends hcheck hroom data
    exact .inl ⟨hapart, t, hwrites, hfiled, h.file hfiled hrooted hapart rfl honly⟩
  · have hclean : IsClean m.files base w := ⟨hopens.leadsTo, hstart.linkFree h.filed hw⟩
    exact .inr ⟨hapart, (h.blocks hstart hw hapart).writeWhole hclean hpath.below hpath.ne_nil data⟩

lemma HoldsFiles.put (hstart : IsEmptyStore d start o p) (h : HoldsFiles d start o p files m.files)
    (hkey : isUsableKey key = true → IsStorableKey d key) (data : ByteArray) (tag : Option BundleTag) :
    PutEnds d start o p files key data tag m (d.put key data tag m) := by
  by_cases hbeyond : d.retention.expiry tag m.now = .beyond
  · rw [put_beyond hbeyond]
    exact .refused fun hroom => hroom.expires hbeyond
  obtain ⟨expiresAt, hexpires⟩ := exists_expiresAs hbeyond
  rw [put_run hexpires, checkKey]
  by_cases husable : isUsableKey key = true
  swap
  · rw [if_neg husable]
    exact .refused fun hroom => husable hroom.usable
  rw [if_pos husable, pure_bind, run_bind]
  have hkey := hkey husable
  have hobject := h.write hstart (.inl rfl) (hstart.opens h.filed).1 (isKeyPath_object d husable) hkey.objectSizes hkey.object
    ⟨key, hkey, .inl rfl⟩ data
  rcases hobject with ⟨hapart, t, hwrites, hfiled, hholds⟩ | ⟨hnot, fault, hfails⟩
  swap
  · rw [show writeWhole (d.objectPath key) data m = _ from hfails]
    exact .refused fun hroom => hnot hroom.apart
  rw [show writeWhole (d.objectPath key) data m = _ from hwrites]
  dsimp only
  rw [run_bind]
  generalize (BundleRecord.toJson ⟨tag, m.now, expiresAt⟩).pretty.toUTF8 = record
  have hrecord := hholds.write (m := { m with files := t }) hstart (.inr rfl) (hstart.opens hholds.filed).2
    (isKeyPath_record d husable) hkey.sizes hkey.record ⟨key, hkey, .inr ⟨rfl, by simp⟩⟩ record
  rcases hrecord with ⟨_, t', hwrites, _, hholds'⟩ | ⟨hnot, fault, hfails⟩
  · rw [show writeWhole (d.recordPath key) record { m with files := t } = _ from hwrites]
    exact .whole hholds'
  · rw [show writeWhole (d.recordPath key) record { m with files := t } = _ from hfails]
    exact .halved ⟨husable, hbeyond, hapart⟩ hfiled hholds hnot

end Put

end CrossBuild.Proofs
