import CrossBuild.Archive.Header
import CrossBuild.Proofs.ByteLists
import CrossBuild.Proofs.WrittenNumbers
import Mathlib.Data.List.Basic
import Mathlib.Data.List.TakeWhile

/-!
# Numbers in archive headers

Numbers that are written into the fields of a header are read back from them, whether they are written
in octal digits or, where these do not hold them, in binary.
-/

namespace CrossBuild.Proofs
open Archive Header

/-! ### Texts in bytes -/

lemma fromUTF8?_toByteArray (s : String) : String.fromUTF8? s.toByteArray = some s := by
  unfold String.fromUTF8?
  rw [dif_pos s.isValidUTF8]
  rfl

/-- The byte of a character below 128. -/
def byteOf (c : Char) : UInt8 := c.toNat.toUInt8

lemma utf8EncodeChar_ascii {c : Char} (h : c.toNat < 128) : String.utf8EncodeChar c = [byteOf c] := by
  have hle : c.val ≤ 127 := by
    rw [UInt32.le_iff_toNat_le]
    change c.toNat ≤ 127
    omega
  rw [String.utf8EncodeChar_eq_singleton (Char.utf8Size_eq_one_iff.mpr hle)]
  rfl

lemma fromUTF8?_ascii {cs : List Char} (h : ∀ c ∈ cs, c.toNat < 128) :
    String.fromUTF8? ⟨(cs.map byteOf).toArray⟩ = some (String.ofList cs) := by
  have hflat : cs.flatMap String.utf8EncodeChar = cs.map byteOf := by
    rw [List.map_eq_flatMap]
    exact List.flatMap_congr (fun c hc => utf8EncodeChar_ascii (h c hc))
  have hbytes : (⟨(cs.map byteOf).toArray⟩ : ByteArray) = (String.ofList cs).toByteArray := by
    apply bytes_ext
    rw [String.toByteArray_ofList, List.utf8Encode, List.toList_data_toByteArray, hflat]
  rw [hbytes]
  exact fromUTF8?_toByteArray _

/-! ### Octal numbers -/

/-- A digit below eight. -/
structure IsOctal (c : Char) : Prop where
  digit : ∃ d < 8, c = Nat.digitChar d
  ascii : c.toNat < 128
  nonzero : byteOf c ≠ 0
  low : byteOf c < 0x80
  solid : Text.isBlank c = false
  unsigned : c ≠ '+'

lemma isOctal_digitChar {d : Nat} (h : d < 8) : IsOctal (Nat.digitChar d) := by
  have hall : ∀ d < 8, (Nat.digitChar d).toNat < 128 ∧ byteOf (Nat.digitChar d) ≠ 0 ∧
      byteOf (Nat.digitChar d) < 0x80 ∧ Text.isBlank (Nat.digitChar d) = false ∧
      Nat.digitChar d ≠ '+' := by
    decide
  obtain ⟨hascii, hnonzero, hlow, hsolid, hunsigned⟩ := hall d h
  exact ⟨⟨d, h, rfl⟩, hascii, hnonzero, hlow, hsolid, hunsigned⟩

/-- The digits that are written for a number, with as many zeros before them as are needed. -/
def octalDigits (size n : Nat) : List Char :=
  List.replicate (size - 1 - (Nat.toDigits 8 n).length) '0' ++ Nat.toDigits 8 n

lemma octalBytes_eq (size n : Nat) : octalBytes size n = (octalDigits size n).map byteOf ++ [0] := rfl

lemma octalDigits_ne_nil (size n : Nat) : octalDigits size n ≠ [] := by
  simp [octalDigits]

lemma isOctal_octalDigits {size n : Nat} {c : Char} (h : c ∈ octalDigits size n) : IsOctal c := by
  have hdigits : ∀ n, ∀ c ∈ Nat.toDigits 8 n, IsOctal c := by
    intro n
    induction n using Nat.strongRecOn with
    | ind n ih =>
      intro c hc
      rw [Nat.toDigits_eq_if (by omega)] at hc
      split at hc
      · rename_i hn
        rw [List.mem_singleton.mp hc]
        exact isOctal_digitChar hn
      · rcases List.mem_append.mp hc with hc | hc
        · exact ih (n / 8) (by omega) c hc
        · rw [List.mem_singleton.mp hc]
          exact isOctal_digitChar (Nat.mod_lt n (by omega))
  rcases List.mem_append.mp h with h | h
  · rw [List.eq_of_mem_replicate h]
    exact isOctal_digitChar (show 0 < 8 by omega)
  · exact hdigits n c h

lemma digitsValue?_octalDigits (size n : Nat) : Text.digitsValue? 8 (octalDigits size n) = some n :=
  digitsValue?_toDigits (by decide) (by decide) _ n

lemma trimmed_of_noBlank {cs : List Char} (h : ∀ c ∈ cs, Text.isBlank c = false) :
    Text.trimmed cs = cs := by
  have hdrop : ∀ ds : List Char, (∀ c ∈ ds, Text.isBlank c = false) →
      ds.dropWhile Text.isBlank = ds := by
    intro ds hds
    cases ds with
    | nil => rfl
    | cons d ds => rw [List.dropWhile_cons_of_neg (by simp [hds d (by simp)])]
  unfold Text.trimmed Text.dropBlankEnd
  rw [hdrop cs h, hdrop cs.reverse (fun c hc => h c (List.mem_reverse.mp hc)), List.reverse_reverse]

lemma beforeZero_append {bytes : List UInt8} (h : ∀ b ∈ bytes, b ≠ 0) (more : List UInt8) :
    Bytes.beforeZero (bytes ++ 0 :: more) = bytes := by
  unfold Bytes.beforeZero
  rw [List.takeWhile_append_of_pos (fun b hb => by simpa using h b hb)]
  simp

/-- A number that fits is read back from its octal digits, whatever follows the byte that ends them. -/
lemma octal?_octalBytes (size : Nat) {n : Nat} (hn : n < 2 ^ 64) (more : List UInt8) :
    octal? (octalBytes size n ++ more) = some n := by
  have hbefore : Bytes.beforeZero (octalBytes size n ++ more) = (octalDigits size n).map byteOf := by
    rw [octalBytes_eq, List.append_assoc, List.singleton_append, beforeZero_append]
    intro b hb
    obtain ⟨c, hc, rfl⟩ := List.mem_map.mp hb
    exact (isOctal_octalDigits hc).nonzero
  unfold octal?
  rw [hbefore, fromUTF8?_ascii (fun c hc => (isOctal_octalDigits hc).ascii)]
  rw [Option.bind_eq_bind, Option.bind_some, String.toList_ofList,
    trimmed_of_noBlank (fun c hc => (isOctal_octalDigits hc).solid)]
  dsimp only
  have hvalue := digitsValue?_octalDigits size n
  obtain ⟨c, rest, hcs⟩ := List.exists_cons_of_ne_nil (octalDigits_ne_nil size n)
  have hplus : c ≠ '+' := (isOctal_octalDigits (by rw [hcs]; simp)).unsigned
  rw [hcs] at hvalue ⊢
  split
  · rename_i heq
    cases heq
    exact (hplus rfl).elim
  · rw [Text.number?, if_neg (by simp), hvalue]
    simpa using hn

lemma octalBytes_cons (size n : Nat) : ∃ c rest, IsOctal c ∧ octalBytes size n = byteOf c :: rest := by
  obtain ⟨c, rest, hcs⟩ := List.exists_cons_of_ne_nil (octalDigits_ne_nil size n)
  refine ⟨c, rest.map byteOf ++ [0], isOctal_octalDigits (by rw [hcs]; simp), ?_⟩
  rw [octalBytes_eq, hcs]
  rfl

lemma length_octalBytes {size n : Nat} (hsize : 1 < size) (hn : n < 8 ^ (size - 1)) :
    (octalBytes size n).length = size := by
  have hle := (Nat.length_toDigits_le_iff (b := 8) (by omega) (by omega)).mpr hn
  simp only [octalBytes, List.length_append, List.length_map, List.length_replicate, List.length_singleton]
  omega

/-! ### Numbers in either form -/

lemma length_binaryBytes (size n : Nat) : (binaryBytes size n).length = size := by
  induction size generalizing n with
  | zero => rfl
  | succ size ih => rw [binaryBytes, List.length_append, ih, List.length_singleton]

lemma drop_binaryBytes (k size n : Nat) : (binaryBytes (k + size) n).drop k = binaryBytes size n := by
  induction size generalizing n with
  | zero =>
    rw [List.drop_of_length_le]
    · rfl
    · rw [length_binaryBytes]
      omega
  | succ size ih =>
    rw [← Nat.add_assoc, binaryBytes, List.drop_append_of_le_length, ih]
    · rfl
    · rw [length_binaryBytes]
      omega

lemma value_binaryBytes (size n : Nat) :
    (binaryBytes size n).foldl (fun n b => n * 256 + b.toNat) 0 = n % 256 ^ size := by
  induction size generalizing n with
  | zero => simp [binaryBytes, Nat.mod_one]
  | succ size ih =>
    have hbyte : (n % 256).toUInt8.toNat = n % 256 := by simp
    rw [binaryBytes, List.foldl_append, ih, List.foldl_cons, List.foldl_nil, hbyte, Nat.pow_succ',
      Nat.mod_mul]
    omega

lemma length_numberBytes (n : Nat) : (numberBytes n).length = 12 := by
  unfold numberBytes
  split
  · rename_i hn
    exact length_octalBytes (by omega) hn
  · rw [List.length_cons, length_binaryBytes]

lemma number?_numberBytes {n : Nat} (hn : n < 2 ^ 64) : number? (numberBytes n) = some n := by
  unfold numberBytes
  split
  · obtain ⟨c, rest, hc, hshape⟩ := octalBytes_cons 12 n
    have hread := octal?_octalBytes 12 hn []
    rw [List.append_nil, hshape] at hread
    rw [hshape, number?, if_neg (UInt8.not_le.mpr hc.low)]
    exact hread
  · have hbinary := drop_binaryBytes 3 8 n
    have hvalue := value_binaryBytes 8 n
    rw [Nat.mod_eq_of_lt (by omega)] at hvalue
    rw [number?, if_pos (by decide), List.length_cons, length_binaryBytes, List.drop_succ_cons,
      hbinary, hvalue]

end CrossBuild.Proofs
