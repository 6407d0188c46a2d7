import CrossBuild.Archive.Reader
import CrossBuild.Archive.Writer
import CrossBuild.Proofs.HeaderFields
import CrossBuild.Proofs.StoredData

/-!
# Archives read back

Entries that are written into an archive are those that are read from it, in their order, and the archive
ends well. Long names, which have entries of their own, come back whole.
-/

namespace CrossBuild.Proofs
open Archive

/-! ### Headers at places -/

lemma zeros_toList (n : Nat) : (Bytes.zeros n).data.toList = List.replicate n 0 := by
  simp [Bytes.zeros]

lemma size_fill (data : ByteArray) : (fill data).size = filled data.size := by
  rw [fill, ByteArray.size_append, filled, blockSize]
  have hzeros : (Bytes.zeros ((512 - data.size % 512) % 512)).size = (512 - data.size % 512) % 512 := by
    rw [← ByteArray.size_data, ← Array.length_toList, zeros_toList, List.length_replicate]
  rw [hzeros]
  omega

/-- The bytes of a block that is filled up are those of the data and zeros. -/
lemma StandsAt.held {data : ByteArray} {position : Nat} {held : ByteArray}
    (h : StandsAt data position (fill held).data.toList) :
    data.extract position (position + held.size) = held := by
  rw [fill, ByteArray.toList_data_append] at h
  have hextract := h.append.1.extract
  rw [Array.length_toList, ByteArray.size_data] at hextract
  rw [hextract]

lemma StandsAt.block {data : ByteArray} {position : Nat} {h : Header}
    (hstands : StandsAt data position h.block.data.toList)
    (hlen : h.block.data.toList.length = blockSize) :
    (⟨data.extract position (position + blockSize)⟩ : Header) = h ∧ position + blockSize ≤ data.size := by
  have hextract := hstands.extract
  have hle := hstands.le_size
  rw [hlen] at hextract hle
  refine ⟨?_, hle⟩
  rw [hextract]

section Reading

variable {data : ByteArray} {position : Nat} {name : List UInt8} {type : Char} {mode : Nat}
  {modified : Int} {held : ByteArray} {ahead : Ahead}

/-- The bytes of a header with data after it. -/
def withData (h : Header) (held : ByteArray) : List UInt8 := h.block.data.toList ++ (fill held).data.toList

/-- A header that was made is found where it stands, unless extensions come before it. -/
lemma headerAt?_make (hfits : FitsHeader name type held.size mode modified)
    (hsized : held.size + blockSize ≤ 2 ^ 64) (hahead : ahead.extensions = none)
    (h : StandsAt data position (withData (Header.make name type held.size mode modified) held)) :
    headerAt? data position ahead = some (Header.make name type held.size mode modified, held.size) := by
  have hblock := (h.append.1.block (length_make hfits)).1
  have hpow : Nat.pow 2 64 = 2 ^ 64 := rfl
  simp only [headerAt?, hblock, size?_make hfits, hahead, sumIsRight_make hfits, Bool.true_and, hpow]
  simpa using hsized

/-- What a reading finds that comes to such a header: no end of the data, the header, and the data after it. -/
lemma reads_header (hfits : FitsHeader name type held.size mode modified) (hsized : held.size + blockSize ≤ 2 ^ 64)
    (hahead : ahead.extensions = none)
    (h : StandsAt data position (withData (Header.make name type held.size mode modified) held)) :
    (position == data.size) = false ∧ position + blockSize ≤ data.size ∧
      (Header.mk (data.extract position (position + blockSize))).isZero = false ∧
      headerAt? data position ahead = some (Header.make name type held.size mode modified, held.size) ∧
      data.extract (position + blockSize) (position + blockSize + held.size) = held := by
  obtain ⟨hblock, hdata⟩ := h.append
  obtain ⟨hhere, hle⟩ := hblock.block (length_make hfits)
  rw [length_make hfits] at hdata
  refine ⟨?_, hle, by rw [hhere, isZero_make hfits], headerAt?_make hfits hsized hahead h, hdata.held⟩
  rw [beq_eq_false_iff_ne]
  rw [blockSize] at hle
  omega

/-- What such a header tells of the next entry is known there. -/
lemma entriesFrom_tell (hfits : FitsHeader name type held.size mode modified)
    (hsized : held.size + blockSize ≤ 2 ^ 64) (hahead : ahead.extensions = none)
    (h : StandsAt data position (withData (Header.make name type held.size mode modified) held))
    {next : Ahead}
    (htell : tell (Header.make name type held.size mode modified) held ahead = some (.ok next))
    (sound : Bool) (fuel : Nat) : entriesFrom data sound (fuel + 1) position ahead =
      entriesFrom data sound fuel (position + blockSize + filled held.size) next := by
  obtain ⟨hpos, hle, hzero, hheader, hheld⟩ := reads_header hfits hsized hahead h
  rw [entriesFrom, hpos, Bool.false_and, if_neg Bool.false_ne_true, if_neg (Nat.not_lt.mpr hle), hzero,
    if_neg Bool.false_ne_true, hheader]
  simp only [hheld, htell]

/-- Any other header gives an entry. -/
lemma entriesFrom_entry (hfits : FitsHeader name type held.size mode modified)
    (hsized : held.size + blockSize ≤ 2 ^ 64) (hahead : ahead.extensions = none) (htype : type ≠ 'S')
    (h : StandsAt data position (withData (Header.make name type held.size mode modified) held))
    (htell : tell (Header.make name type held.size mode modified) held ahead = none)
    (sound : Bool) (fuel : Nat) {path : List UInt8}
    (hpath : pathOf (Header.make name type held.size mode modified) ahead = path) {rest : Contents}
    (hrest : entriesFrom data sound fuel (position + blockSize + filled held.size) .none = rest) :
    entriesFrom data sound (fuel + 1) position ahead =
      { rest with entries := ⟨Text.ofBytes ⟨path.toArray⟩,
          kindOf (Header.make name type held.size mode modified) path, held, some modified, some mode⟩ ::
            rest.entries } := by
  obtain ⟨hpos, hle, hzero, hheader, hheld⟩ := reads_header hfits hsized hahead h
  have hnotSparse : (type == 'S') = false := by simpa using htype
  rw [entriesFrom, hpos, Bool.false_and, if_neg Bool.false_ne_true, if_neg (Nat.not_lt.mpr hle), hzero,
    if_neg Bool.false_ne_true, hheader]
  simp only [hheld, htell, typeByte_make hfits, hnotSparse, if_neg Bool.false_ne_true, hpath,
    modified?_make hfits, mode?_make hfits, Nat.lt_irrefl, if_false, Nat.zero_mul, Nat.add_zero, hrest]

end Reading

/-! ### Entries -/

/-- The entry comes back as it is from an archive. -/
structure IsStorable (e : Entry) : Prop where
  nonzero : ∀ b ∈ e.path.toUTF8.toList, b ≠ 0
  short : e.path.toUTF8.toList.length + 1 + blockSize ≤ 2 ^ 64
  /-- A file is not named like a directory. -/
  kind : e.kind = .directory ∨ (e.kind = .file ∧ e.path.toUTF8.toList.getLast? ≠ some 47)
  sized : e.data.size + blockSize ≤ 2 ^ 64
  permissions : ∃ mode < 512, e.mode = some mode
  dated : ∃ seconds, e.modified = some seconds ∧ -2 ^ 63 ≤ seconds ∧ seconds < 2 ^ 63

def typeOf (e : Entry) : Char := if e.kind == .directory then '5' else '0'

/-- The header that is written for an entry. -/
def headerOf (e : Entry) : Header :=
  .make (e.path.toUTF8.toList.take headerNameSize) (typeOf e) e.data.size (e.mode.getD 0o644)
    (e.modified.getD 0)

section Entries

variable {data : ByteArray} {position : Nat} {e : Entry}

lemma IsStorable.fitsHeader (h : IsStorable e) :
    FitsHeader (e.path.toUTF8.toList.take headerNameSize) (typeOf e) e.data.size (e.mode.getD 0o644)
      (e.modified.getD 0) := by
  obtain ⟨mode, hmode, hmode'⟩ := h.permissions
  obtain ⟨seconds, hseconds, hdated⟩ := h.dated
  have hsized := h.sized
  refine ⟨List.length_take_le _ _, fun b hb => h.nonzero b (List.mem_of_mem_take hb), ?_, ?_, ?_, ?_⟩
  · unfold typeOf
    split <;> decide
  · rw [blockSize] at hsized
    omega
  · rwa [hmode', Option.getD_some]
  · rwa [hseconds, Option.getD_some]

lemma kindOf_headerOf (h : IsStorable e) : kindOf (headerOf e) e.path.toUTF8.toList = e.kind := by
  unfold kindOf headerOf
  rw [typeByte_make h.fitsHeader, format_make h.fitsHeader]
  rcases h.kind with hkind | ⟨hkind, hname⟩
  · simp [typeOf, hkind]
  · simpa [typeOf, hkind] using hname

lemma ofBytes_path (path : String) : Text.ofBytes ⟨path.toUTF8.toList.toArray⟩ = path := by
  have hbytes : (⟨path.toUTF8.toList.toArray⟩ : ByteArray) = path.toByteArray := by
    rw [toList_eq]
    rfl
  rw [Text.ofBytes, hbytes, fromUTF8?_toByteArray]

/-- With the name known, the header of an entry gives the entry. -/
lemma entriesFrom_named (h : IsStorable e) (hstands : StandsAt data position (withData (headerOf e) e.data))
    {ahead : Ahead} (hahead : ahead.extensions = none)
    (hpath : pathOf (headerOf e) ahead = e.path.toUTF8.toList) (sound : Bool) (fuel : Nat) {rest : Contents}
    (hrest : entriesFrom data sound fuel (position + blockSize + filled e.data.size) .none = rest) :
    entriesFrom data sound (fuel + 1) position ahead = { rest with entries := e :: rest.entries } := by
  have htype : typeOf e = '5' ∨ typeOf e = '0' := by
    unfold typeOf
    split
    · exact .inl rfl
    · exact .inr rfl
  have htell : tell (headerOf e) e.data ahead = none := by
    unfold Archive.tell headerOf
    rw [format_make h.fitsHeader, typeByte_make h.fitsHeader]
    rcases htype with htype | htype <;> simp [htype]
  have hnotSparse : typeOf e ≠ 'S' := by
    rcases htype with htype | htype <;> simp [htype]
  have hmode : some (e.mode.getD 0o644) = e.mode := by
    obtain ⟨mode, _, hmode⟩ := h.permissions
    rw [hmode, Option.getD_some]
  have hmodified : some (e.modified.getD 0) = e.modified := by
    obtain ⟨seconds, hseconds, _⟩ := h.dated
    rw [hseconds, Option.getD_some]
  have hentry := entriesFrom_entry h.fitsHeader h.sized hahead hnotSparse hstands htell sound fuel hpath
    hrest
  rw [ofBytes_path, ← headerOf, kindOf_headerOf h, hmode, hmodified] at hentry
  exact hentry

lemma entryBytes_toList (e : Entry) : (entryBytes e).data.toList =
    (longNameBytes e.path.toUTF8.toList).data.toList ++ withData (headerOf e) e.data := by
  simp only [entryBytes, ByteArray.toList_data_append, List.append_assoc, withData, headerOf, typeOf]

/-- What stands before an entry with a long name. -/
def nameHeader (held : ByteArray) : Header :=
  .make "././@LongLink".toUTF8.toList 'L' held.size 0o644 0

lemma fits_nameHeader {held : ByteArray} (h : held.size + blockSize ≤ 2 ^ 64) :
    FitsHeader "././@LongLink".toUTF8.toList 'L' held.size 0o644 0 := by
  have hlink : "././@LongLink".toUTF8.toList =
      [46, 47, 46, 47, 64, 76, 111, 110, 103, 76, 105, 110, 107] := by
    rw [toList_eq]
    decide
  rw [hlink]
  refine ⟨by decide, by simp, by decide, ?_, by decide, by decide, by decide⟩
  rw [blockSize] at h
  omega

lemma size_heldName (name : List UInt8) : (ByteArray.mk (name ++ [0]).toArray).size = name.length + 1 := by
  rw [← ByteArray.size_data]
  simp

lemma longNameBytes_eq {name : List UInt8} (hlong : headerNameSize < name.length) : longNameBytes name =
    (nameHeader ⟨(name ++ [0]).toArray⟩).block ++ fill ⟨(name ++ [0]).toArray⟩ := by
  rw [longNameBytes, if_neg (by omega), nameHeader, size_heldName]

lemma size_longNameBytes {name : List UInt8} (hlong : headerNameSize < name.length)
    (hshort : name.length + 1 + blockSize ≤ 2 ^ 64) :
    (longNameBytes name).size = blockSize + filled (name.length + 1) := by
  have hfits := fits_nameHeader (show (ByteArray.mk (name ++ [0]).toArray).size + blockSize ≤ 2 ^ 64 by
    rwa [size_heldName])
  have hblock : (nameHeader ⟨(name ++ [0]).toArray⟩).block.size = blockSize := by
    rw [← length_make hfits, Array.length_toList, ByteArray.size_data]
    rfl
  rw [longNameBytes_eq hlong, ByteArray.size_append, hblock, size_fill, size_heldName]

/-- A name that has an entry of its own is the name of the next one. -/
lemma entriesFrom_longName {name : List UInt8} (hlong : headerNameSize < name.length)
    (hshort : name.length + 1 + blockSize ≤ 2 ^ 64)
    (h : StandsAt data position (longNameBytes name).data.toList) (sound : Bool) (fuel : Nat) :
    entriesFrom data sound (fuel + 1) position .none =
      entriesFrom data sound fuel (position + (longNameBytes name).size)
        { Ahead.none with longName := some ⟨(name ++ [0]).toArray⟩ } := by
  have hsized : (ByteArray.mk (name ++ [0]).toArray).size + blockSize ≤ 2 ^ 64 := by rwa [size_heldName]
  have hfits := fits_nameHeader hsized
  have htell : tell (nameHeader ⟨(name ++ [0]).toArray⟩) ⟨(name ++ [0]).toArray⟩ .none =
      some (.ok { Ahead.none with longName := some ⟨(name ++ [0]).toArray⟩ }) := by
    unfold Archive.tell nameHeader
    rw [format_make hfits, typeByte_make hfits]
    rfl
  rw [longNameBytes_eq hlong, ByteArray.toList_data_append] at h
  have htold := entriesFrom_tell hfits hsized rfl h htell sound fuel
  rw [htold, size_longNameBytes hlong hshort, size_heldName, Nat.add_assoc]

lemma size_entryBytes (h : IsStorable e) : (entryBytes e).size =
    (longNameBytes e.path.toUTF8.toList).size + (blockSize + filled e.data.size) := by
  have hlength := congrArg List.length (entryBytes_toList e)
  rw [withData, headerOf, List.length_append, List.length_append, length_make h.fitsHeader] at hlength
  simpa [size_fill] using hlength

/-- Wherever an entry stands in what was written, it is the next one that is read. -/
lemma entriesFrom_entryBytes (h : IsStorable e)
    (hstands : StandsAt data position (entryBytes e).data.toList)
    {fuel : Nat} (hfuel : data.size < position + blockSize * fuel) (sound : Bool) :
    ∃ fuel', data.size < position + (entryBytes e).size + blockSize * fuel' ∧ ∀ rest,
      entriesFrom data sound fuel' (position + (entryBytes e).size) .none = rest →
        entriesFrom data sound fuel position .none = { rest with entries := e :: rest.entries } := by
  have hle := hstands.le_size
  have hsize := size_entryBytes h
  rw [Array.length_toList, ByteArray.size_data] at hle
  rw [entryBytes_toList] at hstands
  obtain ⟨hname, hentry⟩ := hstands.append
  rw [Array.length_toList, ByteArray.size_data] at hentry
  by_cases hshort : e.path.toUTF8.toList.length ≤ headerNameSize
  · have hnone : (longNameBytes e.path.toUTF8.toList).size = 0 := by
      rw [longNameBytes, if_pos hshort]
      rfl
    rw [hnone] at hentry hsize
    obtain ⟨fuel, rfl⟩ : ∃ n, fuel = n + 1 := ⟨fuel - 1, by rw [blockSize] at *; omega⟩
    refine ⟨fuel, by rw [blockSize] at *; omega, ?_⟩
    intro rest hrest
    apply entriesFrom_named h hentry rfl
    · change (headerOf e).name = _
      rw [headerOf, name_make h.fitsHeader, List.take_of_length_le hshort]
    · rwa [hsize, Nat.zero_add, ← Nat.add_assoc] at hrest
  · have hlong : headerNameSize < e.path.toUTF8.toList.length := by omega
    have hblock := size_longNameBytes hlong h.short
    obtain ⟨fuel, rfl⟩ : ∃ n, fuel = n + 1 + 1 := ⟨fuel - 2, by rw [blockSize] at *; omega⟩
    refine ⟨fuel, by rw [blockSize] at *; omega, ?_⟩
    intro rest hrest
    rw [entriesFrom_longName hlong h.short hname]
    apply entriesFrom_named h hentry rfl
    · change (if (ByteArray.mk (e.path.toUTF8.toList ++ [0]).toArray).toList.getLast? == some 0
        then _ else _) = _
      rw [toList_eq]
      simp
    · rwa [hsize, ← Nat.add_assoc, ← Nat.add_assoc] at hrest

/-- The entries before a block of zeros are all that is read. -/
lemma entriesFrom_all {entries : List Entry} (hall : ∀ e ∈ entries, IsStorable e)
    (hstands : StandsAt data position
      (entries.flatMap (fun e => (entryBytes e).data.toList) ++ List.replicate (2 * blockSize) 0))
    {fuel : Nat} (hfuel : data.size < position + blockSize * fuel) (sound : Bool) :
    entriesFrom data sound fuel position .none = ⟨entries, .complete⟩ := by
  induction entries generalizing position fuel with
  | nil =>
    have hle := hstands.le_size
    rw [List.flatMap_nil, List.nil_append] at hstands
    rw [List.flatMap_nil, List.nil_append, List.length_replicate, blockSize] at hle
    obtain ⟨fuel, rfl⟩ : ∃ n, fuel = n + 1 := ⟨fuel - 1, by rw [blockSize] at hfuel; omega⟩
    have hsplit : List.replicate (2 * blockSize) (0 : UInt8) =
        List.replicate blockSize 0 ++ List.replicate blockSize 0 := by
      rw [List.replicate_append_replicate, Nat.two_mul]
    rw [hsplit] at hstands
    have hextract := hstands.append.1.extract
    rw [List.length_replicate] at hextract
    have hzero : (Header.mk (data.extract position (position + blockSize))).isZero = true := by
      rw [hextract, Header.isZero, toList_eq]
      simp
    have hpos : (position == data.size) = false := by
      rw [beq_eq_false_iff_ne]
      omega
    have hroom : ¬position + blockSize > data.size := by
      rw [blockSize]
      omega
    rw [entriesFrom, hpos, Bool.false_and, if_neg Bool.false_ne_true, if_neg hroom, hzero, if_pos rfl]
    rfl
  | cons e rest ih =>
    rw [List.flatMap_cons, List.append_assoc] at hstands
    obtain ⟨hentry, hothers⟩ := hstands.append
    rw [Array.length_toList, ByteArray.size_data] at hothers
    obtain ⟨fuel', hfuel', hstep⟩ := entriesFrom_entryBytes (hall e (by simp)) hentry hfuel sound
    -- the fuel left over is enough for what is left of the data
    exact hstep _ (ih (fun e' he' => hall e' (List.mem_cons_of_mem _ he')) hothers hfuel')

end Entries

/-! ### Archives -/

/-- What has been written into an archive is what is read from it. -/
theorem decode_encode {entries : List Entry} (h : ∀ e ∈ entries, IsStorable e) :
    decode (encode entries) = ⟨entries, .complete⟩ := by
  have hbytes : ∀ data : ByteArray, ((entries.map entryBytes).foldl (· ++ ·) data).data.toList =
      data.data.toList ++ entries.flatMap (fun e => (entryBytes e).data.toList) := by
    clear h
    induction entries with
    | nil => simp
    | cons e rest ih =>
      intro data
      rw [List.map_cons, List.foldl_cons, ih, ByteArray.toList_data_append, List.append_assoc,
        List.flatMap_cons]
  have hstands : StandsAt ((entries.map entryBytes).foldl (· ++ ·) .empty ++ Bytes.zeros (2 * blockSize)) 0
      (entries.flatMap (fun e => (entryBytes e).data.toList) ++ List.replicate (2 * blockSize) 0) := by
    refine ⟨[], [], ?_, rfl⟩
    rw [ByteArray.toList_data_append, hbytes, zeros_toList]
    simp
  simp only [decode, encode, gzip_decode_encode, contentsOf]
  apply entriesFrom_all h hstands
  rw [blockSize]
  omega

end CrossBuild.Proofs
