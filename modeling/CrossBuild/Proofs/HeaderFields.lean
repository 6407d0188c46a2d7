import CrossBuild.Proofs.HeaderNumbers

/-!
# Fields of archive headers

A field of a header keeps what was put into it while others are set, so a header that was made says
what it was made of.
-/

namespace CrossBuild.Proofs
open Archive Header

/-! ### Fields of blocks -/

/-- The bytes of a block in a field. -/
def fieldOf (block : List UInt8) (f : Field) : List UInt8 := (block.drop f.start).take f.size

lemma get_eq (block : List UInt8) (f : Field) : Header.get ⟨⟨block.toArray⟩⟩ f = fieldOf block f := by
  simp [Header.get, Bytes.piece, toList_eq, fieldOf]

/-- A value as it stands in a field of some size. -/
def filledUp (size : Nat) (value : List UInt8) : List UInt8 :=
  value ++ List.replicate (size - value.length) 0

/-- The fields have no place in common. -/
def Apart (f g : Field) : Prop := f.start + f.size ≤ g.start ∨ g.start + g.size ≤ f.start

instance (f g : Field) : Decidable (Apart f g) :=
  inferInstanceAs (Decidable (f.start + f.size ≤ g.start ∨ g.start + g.size ≤ f.start))

lemma Apart.symm {f g : Field} (h : Apart f g) : Apart g f := Or.symm h

section Fields

variable {block : List UInt8} {f g : Field} {value : List UInt8}

lemma length_filledUp {size : Nat} (hvalue : value.length ≤ size) :
    (filledUp size value).length = size := by
  rw [filledUp, List.length_append, List.length_replicate]
  omega

lemma put_eq (hvalue : value.length ≤ f.size) :
    put block f value =
      block.take f.start ++ (filledUp f.size value ++ block.drop (f.start + f.size)) := by
  rw [put, ← filledUp, List.take_of_length_le (Nat.le_of_eq (length_filledUp hvalue)), List.append_assoc]

lemma length_put (hfits : f.start + f.size ≤ block.length) (hvalue : value.length ≤ f.size) :
    (put block f value).length = block.length := by
  simp only [put_eq hvalue, List.length_append, List.length_take, length_filledUp hvalue, List.length_drop]
  omega

lemma fieldOf_put_self (hfits : f.start + f.size ≤ block.length) (hvalue : value.length ≤ f.size) :
    fieldOf (put block f value) f = filledUp f.size value := by
  have hfront : (block.take f.start).length = f.start := List.length_take_of_le (by omega)
  rw [put_eq hvalue, fieldOf, List.drop_left' hfront, List.take_left' (length_filledUp hvalue)]

lemma fieldOf_put_of_apart (hfits : f.start + f.size ≤ block.length) (hvalue : value.length ≤ f.size)
    (h : Apart f g) : fieldOf (put block f value) g = fieldOf block g := by
  apply List.ext_getElem?
  intro i
  simp only [put_eq hvalue, fieldOf, List.getElem?_take, List.getElem?_drop, List.getElem?_append,
    List.length_take, length_filledUp hvalue]
  by_cases hi : i < g.size
  · rw [if_pos hi, if_pos hi]
    rcases h with h | h
    · rw [if_neg (by omega), if_neg (by omega)]
      congr 1
      omega
    · rw [if_pos (by omega), if_pos (by omega)]
  · rw [if_neg hi, if_neg hi]

/-- The block with values put into fields one after another. -/
def putAll (block : List UInt8) (fields : List (Field × List UInt8)) : List UInt8 :=
  fields.foldl (fun block e => put block e.1 e.2) block

/-- The values fit into their fields and the fields into blocks of some size. -/
def Fits (size : Nat) (fields : List (Field × List UInt8)) : Prop :=
  ∀ e ∈ fields, e.1.start + e.1.size ≤ size ∧ e.2.length ≤ e.1.size

section Many

variable {fields : List (Field × List UInt8)}

lemma length_putAll (hfits : Fits block.length fields) : (putAll block fields).length = block.length := by
  induction fields generalizing block with
  | nil => rfl
  | cons e rest ih =>
    obtain ⟨hfield, hsize⟩ := hfits e (by simp)
    have hput := length_put hfield hsize
    have hrest : Fits (put block e.1 e.2).length rest := by
      rw [hput]
      exact fun e' he' => hfits e' (List.mem_cons_of_mem _ he')
    exact (ih hrest).trans hput

lemma fieldOf_putAll_of_apart (hfits : Fits block.length fields) (h : ∀ e ∈ fields, Apart e.1 g) :
    fieldOf (putAll block fields) g = fieldOf block g := by
  induction fields generalizing block with
  | nil => rfl
  | cons e rest ih =>
    obtain ⟨hfield, hsize⟩ := hfits e (by simp)
    have hrest : Fits (put block e.1 e.2).length rest := by
      rw [length_put hfield hsize]
      exact fun e' he' => hfits e' (List.mem_cons_of_mem _ he')
    have hothers := ih hrest (fun e' he' => h e' (List.mem_cons_of_mem _ he'))
    rw [fieldOf_put_of_apart hfield hsize (h e (by simp))] at hothers
    exact hothers

/-- Of fields apart from each other, each keeps what is put into it. -/
lemma fieldOf_putAll (hfits : Fits block.length fields) (hapart : (fields.map (·.1)).Pairwise Apart)
    (h : (f, value) ∈ fields) : fieldOf (putAll block fields) f = filledUp f.size value := by
  induction fields generalizing block with
  | nil => simp at h
  | cons e rest ih =>
    obtain ⟨hfield, hsize⟩ := hfits e (by simp)
    rw [List.map_cons, List.pairwise_cons] at hapart
    have hrest : Fits (put block e.1 e.2).length rest := by
      rw [length_put hfield hsize]
      exact fun e' he' => hfits e' (List.mem_cons_of_mem _ he')
    rcases List.mem_cons.mp h with rfl | h
    · have hothers := fieldOf_putAll_of_apart (g := f) hrest
        (fun e' he' => (hapart.1 e'.1 (List.mem_map_of_mem he')).symm)
      rw [fieldOf_put_self hfield hsize] at hothers
      exact hothers
    · exact ih hrest hapart.2 h

end Many

/-! ### Sums of bytes -/

/-- The sum of the bytes. -/
def byteSum (bytes : List UInt8) : Nat := bytes.foldl (fun n b => n + b.toNat) 0

lemma byteSum_append (bytes more : List UInt8) :
    byteSum (bytes ++ more) = byteSum bytes + byteSum more := by
  have hfold : ∀ (l : List UInt8) (n : Nat), l.foldl (fun n b => n + b.toNat) n = n + byteSum l := by
    intro l
    induction l with
    | nil => exact fun n => rfl
    | cons b l ih =>
      intro n
      rw [byteSum, List.foldl_cons, List.foldl_cons, ih, ih (0 + b.toNat)]
      omega
  rw [byteSum, List.foldl_append, hfold]
  rfl

lemma byteSum_le (bytes : List UInt8) : byteSum bytes ≤ 255 * bytes.length := by
  induction bytes with
  | nil => simp [byteSum]
  | cons b bytes ih =>
    have hb := b.toNat_lt
    have hcons : byteSum (b :: bytes) = byteSum [b] + byteSum bytes := byteSum_append [b] bytes
    have hone : byteSum [b] = b.toNat := by simp [byteSum]
    rw [hcons, hone, List.length_cons]
    omega

/-- The bytes outside a field sum to the same whatever is put into it. -/
lemma byteSum_put (hfits : f.start + f.size ≤ block.length) (hvalue : value.length ≤ f.size) :
    byteSum (put block f value) - byteSum (fieldOf (put block f value) f) =
      byteSum block - byteSum (fieldOf block f) := by
  have hblock : block = block.take f.start ++ (fieldOf block f ++ block.drop (f.start + f.size)) := by
    rw [fieldOf, ← List.drop_drop, List.take_append_drop, List.take_append_drop]
  have hsum := congrArg byteSum hblock
  rw [byteSum_append, byteSum_append] at hsum
  rw [fieldOf_put_self hfits hvalue, put_eq hvalue, byteSum_append, byteSum_append]
  omega

end Fields

/-! ### Headers -/

/-- What a header has in its fields, but for its sum. -/
def headerFields (name : List UInt8) (type : Char) (size mode : Nat) (modified : Int) :
    List (Field × List UInt8) := [
  (nameField, name), (modeField, octalBytes 8 mode), (sizeField, numberBytes size),
  (modifiedField, numberBytes (modified % (Nat.pow 2 64 : Nat)).toNat),
  (⟨typePlace, 1⟩, [byteOf type]), (magicField, "ustar  \x00".toUTF8.toList)]

/-- What can be written into a header as it is. -/
structure FitsHeader (name : List UInt8) (type : Char) (size mode : Nat) (modified : Int) : Prop where
  short : name.length ≤ 100
  nonzero : ∀ b ∈ name, b ≠ 0
  ascii : type.toNat < 128
  sized : size < 2 ^ 64
  permissions : mode < 512
  dated : -2 ^ 63 ≤ modified ∧ modified < 2 ^ 63

section Headers

variable {name : List UInt8} {type : Char} {size mode : Nat} {modified : Int}

lemma sum_eq (block : List UInt8) : Header.sum ⟨⟨block.toArray⟩⟩ =
    byteSum block - byteSum (fieldOf block checksumField) + 256 := by
  rw [Header.sum, toList_eq, get_eq]
  rfl

/-- The sum that a header with these fields has. -/
def headerSum (name : List UInt8) (type : Char) (size mode : Nat) (modified : Int) : Nat :=
  byteSum (putAll (List.replicate blockSize 0) (headerFields name type size mode modified)) + 256

/-- All fields of a header. -/
def allFields (name : List UInt8) (type : Char) (size mode : Nat) (modified : Int) :
    List (Field × List UInt8) :=
  headerFields name type size mode modified ++
    [(checksumField, octalBytes 7 (headerSum name type size mode modified) ++ [32])]

lemma apart_fields (name : List UInt8) (type : Char) (size mode : Nat) (modified : Int) :
    ((allFields name type size mode modified).map (·.1)).Pairwise Apart := by
  have hfields : (allFields name type size mode modified).map (·.1) =
      [nameField, modeField, sizeField, modifiedField, ⟨typePlace, 1⟩, magicField, checksumField] := rfl
  rw [hfields]
  decide

lemma gnuMagic : "ustar  \x00".toUTF8.toList = [117, 115, 116, 97, 114, 32, 32, 0] := by
  rw [toList_eq]
  decide

lemma FitsHeader.headerFields (h : FitsHeader name type size mode modified) :
    Fits blockSize (headerFields name type size mode modified) := by
  have hplaces : ∀ f ∈ (Proofs.headerFields name type size mode modified).map (·.1),
      f.start + f.size ≤ blockSize := by
    have hfields : (Proofs.headerFields name type size mode modified).map (·.1) =
        [nameField, modeField, sizeField, modifiedField, ⟨typePlace, 1⟩, magicField] := rfl
    rw [hfields]
    decide
  have hmode : (octalBytes 8 mode).length = 8 :=
    length_octalBytes (by omega) (Nat.lt_trans h.permissions (by decide))
  intro e he
  refine ⟨hplaces e.1 (List.mem_map_of_mem he), ?_⟩
  simp only [Proofs.headerFields, List.mem_cons, List.not_mem_nil, or_false] at he
  rcases he with rfl | rfl | rfl | rfl | rfl | rfl
  · exact h.short
  · exact Nat.le_of_eq hmode
  · exact Nat.le_of_eq (length_numberBytes _)
  · exact Nat.le_of_eq (length_numberBytes _)
  · exact Nat.le_refl 1
  · rw [gnuMagic]
    decide

lemma headerSum_lt (h : FitsHeader name type size mode modified) :
    headerSum name type size mode modified < 8 ^ 6 := by
  have hzeros : (List.replicate blockSize (0 : UInt8)).length = 512 := List.length_replicate
  have hfits : Fits (List.replicate blockSize (0 : UInt8)).length
      (Proofs.headerFields name type size mode modified) := by
    rw [hzeros]
    exact h.headerFields
  have hsum := byteSum_le
    (putAll (List.replicate blockSize 0) (Proofs.headerFields name type size mode modified))
  rw [length_putAll hfits, hzeros] at hsum
  rw [headerSum]
  omega

lemma FitsHeader.allFields (h : FitsHeader name type size mode modified) :
    Fits blockSize (allFields name type size mode modified) := by
  intro e he
  rcases List.mem_append.mp he with he | he
  · exact h.headerFields e he
  · rw [List.mem_singleton] at he
    subst he
    have hlen : (octalBytes 7 (headerSum name type size mode modified)).length = 7 :=
      length_octalBytes (by omega) (headerSum_lt h)
    refine ⟨(by decide : checksumField.start + checksumField.size ≤ blockSize), ?_⟩
    rw [List.length_append, hlen]
    exact Nat.le_refl 8

lemma fits_zeros {fields : List (Field × List UInt8)} (h : Fits blockSize fields) :
    Fits (List.replicate blockSize (0 : UInt8)).length fields := by
  rwa [List.length_replicate]

/-- No field but that of the sum is near it, so there are zeros in it while the sum is taken. -/
lemma sum_headerFields (h : FitsHeader name type size mode modified) :
    byteSum (putAll (List.replicate blockSize 0) (Proofs.headerFields name type size mode modified)) -
      byteSum (fieldOf (putAll (List.replicate blockSize 0)
        (Proofs.headerFields name type size mode modified)) checksumField) + 256 =
      headerSum name type size mode modified := by
  have hempty : ∀ e ∈ Proofs.headerFields name type size mode modified, Apart e.1 checksumField := by
    have hapart := apart_fields name type size mode modified
    rw [Proofs.allFields, List.map_append, List.pairwise_append] at hapart
    exact fun e he => hapart.2.2 e.1 (List.mem_map_of_mem he) checksumField (by simp)
  have hzero : byteSum (fieldOf (List.replicate blockSize 0) checksumField) = 0 := by decide
  rw [fieldOf_putAll_of_apart (fits_zeros h.headerFields) hempty, hzero, headerSum, Nat.sub_zero]

lemma put_headerFields (name : List UInt8) (type : Char) (size mode : Nat) (modified : Int)
    (block : List UInt8) : put (putAll block (headerFields name type size mode modified)) checksumField
      (octalBytes 7 (headerSum name type size mode modified) ++ [32]) =
        putAll block (allFields name type size mode modified) := by
  simp only [putAll, allFields, List.foldl_append, List.foldl_cons, List.foldl_nil]

lemma make_eq (h : FitsHeader name type size mode modified) : Header.make name type size mode modified =
    ⟨⟨(putAll (List.replicate blockSize 0) (Proofs.allFields name type size mode modified)).toArray⟩⟩ := by
  rw [← put_headerFields, ← sum_headerFields h, ← sum_eq]
  unfold Header.make putAll Proofs.headerFields byteOf
  simp only [List.foldl_cons, List.foldl_nil]

lemma length_make (h : FitsHeader name type size mode modified) :
    (Header.make name type size mode modified).block.data.toList.length = blockSize := by
  rw [make_eq h, length_putAll (fits_zeros h.allFields), List.length_replicate]

lemma get_make (h : FitsHeader name type size mode modified) {f : Field} {value : List UInt8}
    (hmem : (f, value) ∈ Proofs.allFields name type size mode modified) :
    (Header.make name type size mode modified).get f = filledUp f.size value := by
  rw [make_eq h, get_eq]
  exact fieldOf_putAll (fits_zeros h.allFields) (apart_fields name type size mode modified) hmem

lemma filledUp_of_length {size : Nat} {value : List UInt8} (h : value.length = size) :
    filledUp size value = value := by
  rw [filledUp, h, Nat.sub_self, List.replicate_zero, List.append_nil]

lemma get_make_full (h : FitsHeader name type size mode modified) {f : Field} {value : List UInt8}
    (hmem : (f, value) ∈ Proofs.allFields name type size mode modified) (hfull : value.length = f.size) :
    (Header.make name type size mode modified).get f = value := by
  rw [get_make h hmem, filledUp_of_length hfull]

/-! ### What headers say -/

lemma beforeZero_filledUp {name : List UInt8} (h : ∀ b ∈ name, b ≠ 0) (size : Nat) :
    Bytes.beforeZero (filledUp size name) = name := by
  unfold filledUp
  cases size - name.length with
  | zero =>
    rw [List.replicate_zero, List.append_nil, Bytes.beforeZero, List.takeWhile_eq_self_iff]
    exact fun b hb => by simpa using h b hb
  | succ n =>
    rw [List.replicate_succ]
    exact beforeZero_append h _

lemma magic_make (h : FitsHeader name type size mode modified) :
    (Header.make name type size mode modified).get magicField = [117, 115, 116, 97, 114, 32, 32, 0] := by
  rw [← gnuMagic]
  apply get_make_full h
  · simp [Proofs.allFields, Proofs.headerFields]
  · rw [gnuMagic]
    rfl

lemma format_make (h : FitsHeader name type size mode modified) :
    (Header.make name type size mode modified).format = .gnu := by
  have hposix : "ustar\x0000".toUTF8.toList = [117, 115, 116, 97, 114, 0, 48, 48] := by
    rw [toList_eq]
    decide
  rw [Header.format, magic_make h, gnuMagic, hposix]
  decide

lemma name_make (h : FitsHeader name type size mode modified) :
    (Header.make name type size mode modified).name = name := by
  have hname : (Header.make name type size mode modified).get nameField = filledUp nameField.size name := by
    apply get_make h
    simp [Proofs.allFields, Proofs.headerFields]
  rw [Header.name, format_make h, hname, beforeZero_filledUp h.nonzero]
  simp

lemma at?_of_get {h : Header} {place : Nat} {b : UInt8} (hget : h.get ⟨place, 1⟩ = [b]) :
    Bytes.at? h.block place = b.toNat := by
  rw [Header.get, Bytes.piece, toList_eq] at hget
  have hdrop : (h.block.data.toList.drop place).take 1 = [b] := by simpa using hget
  cases hrest : h.block.data.toList.drop place with
  | nil => simp [hrest] at hdrop
  | cons c rest =>
    have hc : c = b := by simpa [hrest] using hdrop
    have hle : place ≤ h.block.data.toList.length := by
      have hlen := congrArg List.length hrest
      rw [List.length_drop, List.length_cons] at hlen
      omega
    have hstands : StandsAt h.block place [b] := by
      refine ⟨h.block.data.toList.take place, rest, ?_, List.length_take_of_le hle⟩
      rw [← hc, List.singleton_append, ← hrest, List.take_append_drop]
    exact hstands.cons.1

lemma typeByte_make (h : FitsHeader name type size mode modified) :
    (Header.make name type size mode modified).typeByte = type := by
  have htype : (Header.make name type size mode modified).get ⟨typePlace, 1⟩ = [byteOf type] := by
    apply get_make_full h
    · simp [Proofs.allFields, Proofs.headerFields]
    · rfl
  have hbyte : (byteOf type).toNat = type.toNat := by
    have hascii := h.ascii
    simp only [byteOf, Nat.toUInt8_eq, UInt8.toNat_ofNat']
    omega
  rw [Header.typeByte, at?_of_get htype, hbyte, Char.ofNat_toNat]

lemma size?_make (h : FitsHeader name type size mode modified) :
    (Header.make name type size mode modified).size? = some size := by
  have hsize : (Header.make name type size mode modified).get sizeField = numberBytes size := by
    apply get_make_full h
    · simp [Proofs.allFields, Proofs.headerFields]
    · exact length_numberBytes size
  rw [Header.size?, hsize, number?_numberBytes h.sized]

lemma mode?_make (h : FitsHeader name type size mode modified) :
    (Header.make name type size mode modified).mode? = some mode := by
  have hmode : (Header.make name type size mode modified).get modeField = octalBytes 8 mode := by
    apply get_make_full h
    · simp [Proofs.allFields, Proofs.headerFields]
    · exact length_octalBytes (by omega) (Nat.lt_trans h.permissions (by decide))
  have hread := octal?_octalBytes 8 (Nat.lt_trans h.permissions (by decide)) []
  rw [List.append_nil] at hread
  rw [Header.mode?, hmode, hread, Option.map_some, Nat.mod_eq_of_lt h.permissions]

lemma modified?_make (h : FitsHeader name type size mode modified) :
    (Header.make name type size mode modified).modified? = some modified := by
  obtain ⟨hlow, hhigh⟩ := h.dated
  have hwhole : (Nat.pow 2 64 : Nat) = 18446744073709551616 := rfl
  have hhalf : (Nat.pow 2 63 : Nat) = 9223372036854775808 := rfl
  have hmodified : (Header.make name type size mode modified).get modifiedField =
      numberBytes (modified % (Nat.pow 2 64 : Nat)).toNat := by
    apply get_make_full h
    · simp [Proofs.allFields, Proofs.headerFields]
    · exact length_numberBytes _
  rw [hwhole] at hmodified
  rw [Header.modified?, hmodified, number?_numberBytes (by omega), Option.map_some, Option.some.injEq, signed,
    hwhole, hhalf]
  split
  · omega
  · omega

lemma sumIsRight_make (h : FitsHeader name type size mode modified) :
    (Header.make name type size mode modified).sumIsRight = true := by
  have hlen : (octalBytes 7 (headerSum name type size mode modified)).length = 7 :=
    length_octalBytes (by omega) (headerSum_lt h)
  have hfull : (octalBytes 7 (headerSum name type size mode modified) ++ [32]).length = 8 := by
    rw [List.length_append, hlen, List.length_singleton]
  have hsum : (Header.make name type size mode modified).sum = headerSum name type size mode modified := by
    rw [make_eq h, sum_eq, ← put_headerFields, byteSum_put, sum_headerFields h]
    · rw [length_putAll (fits_zeros h.headerFields), List.length_replicate]
      decide
    · exact Nat.le_of_eq hfull
  have hchecksum : (Header.make name type size mode modified).get checksumField =
      octalBytes 7 (headerSum name type size mode modified) ++ [32] := by
    apply get_make_full h
    · simp [Proofs.allFields]
    · exact hfull
  rw [Header.sumIsRight, hchecksum, hsum, octal?_octalBytes 7 (Nat.lt_trans (headerSum_lt h) (by decide))]
  exact beq_self_eq_true _

lemma isZero_make (h : FitsHeader name type size mode modified) :
    (Header.make name type size mode modified).isZero = false := by
  have hmem : (117 : UInt8) ∈ (Header.make name type size mode modified).get magicField := by
    rw [magic_make h]
    decide
  have hblock : (117 : UInt8) ∈ (Header.make name type size mode modified).block.toList := by
    rw [Header.get, Bytes.piece, toList_eq] at hmem
    rw [toList_eq]
    simp only [ByteArray.data_extract, Array.toList_extract, List.extract_eq_take_drop] at hmem
    exact List.mem_of_mem_drop (List.mem_of_mem_take hmem)
  rw [Header.isZero, List.all_eq_false]
  exact ⟨117, hblock, by decide⟩

end Headers

end CrossBuild.Proofs
