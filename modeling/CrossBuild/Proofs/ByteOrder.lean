import CrossBuild.Proofs.UploadedFiles

/-!
# The order of names

Names are kept in the order of their texts. As the bytes of a text are in UTF-8, this is the order of
those bytes: characters are written so that the order of their codes shows in the first byte in which
they differ.
-/

namespace CrossBuild.Proofs

/-- Numbers compare as their digits to base 64 do. -/
lemma digits_lt {m n : Nat} (h : m < n) : m / 262144 < n / 262144 ∨ m / 262144 = n / 262144 ∧
    (m / 4096 % 64 < n / 4096 % 64 ∨ m / 4096 % 64 = n / 4096 % 64 ∧
      (m / 64 % 64 < n / 64 % 64 ∨ m / 64 % 64 = n / 64 % 64 ∧ m % 64 < n % 64)) := by
  omega

/-- The bytes of different characters compare as the characters do, whatever comes after them. -/
lemma utf8EncodeChar_append_lt {c d : Char} (h : c < d) (cs ds : List UInt8) :
    String.utf8EncodeChar c ++ cs < String.utf8EncodeChar d ++ ds := by
  have hlt : c.val.toNat < d.val.toNat := h
  have hsize : d.val.toNat < 1114112 := by
    have hvalid : d.val.toNat < 55296 ∨ 57343 < d.val.toNat ∧ d.val.toNat < 1114112 := d.valid
    omega
  have hbyte : ∀ a b, a < 256 → b < 256 → (UInt8.ofNat a < UInt8.ofNat b ↔ a < b) := by
    intro a b ha hb
    rw [UInt8.lt_iff_toNat_lt, UInt8.toNat_ofNat_of_lt' ha, UInt8.toNat_ofNat_of_lt' hb]
  have hsame : ∀ a b, a < 256 → b < 256 → (UInt8.ofNat a = UInt8.ofNat b ↔ a = b) := by
    intro a b ha hb
    rw [← UInt8.toNat_inj, UInt8.toNat_ofNat_of_lt' ha, UInt8.toNat_ofNat_of_lt' hb]
  unfold String.utf8EncodeChar
  dsimp only
  generalize c.val.toNat = m at *
  generalize d.val.toNat = n at *
  have hdigits := digits_lt hlt
  have htop : m / 262144 % 8 = m / 262144 ∧ n / 262144 % 8 = n / 262144 := by omega
  -- each character has one to four bytes, and the first of them is larger the more there are
  repeat' split
  all_goals
    simp (disch := omega) only [List.cons_append, List.nil_append, List.cons_lt_cons_iff, hbyte, hsame]
    omega

lemma flatMap_utf8EncodeChar_lt {cs ds : List Char} (h : cs < ds) :
    cs.flatMap String.utf8EncodeChar < ds.flatMap String.utf8EncodeChar := by
  induction cs generalizing ds with
  | nil =>
    cases ds with
    | nil => exact absurd h (List.not_lt_nil _)
    | cons d ds =>
      obtain ⟨b, bs, hd⟩ := List.exists_cons_of_ne_nil (String.utf8EncodeChar_ne_nil (c := d))
      rw [List.flatMap_nil, List.flatMap_cons, hd, List.cons_append]
      exact List.nil_lt_cons b _
  | cons c cs ih =>
    cases ds with
    | nil => exact absurd h (List.not_lt_nil _)
    | cons d ds =>
      rw [List.flatMap_cons, List.flatMap_cons]
      rcases List.cons_lt_cons_iff.mp h with hlt | ⟨rfl, hlt⟩
      · exact utf8EncodeChar_append_lt hlt _ _
      · exact List.append_left_lt (ih hlt)

/-- Texts compare as their bytes do. -/
theorem lt_iff_toUTF8_lt (a b : String) : a < b ↔ a.toUTF8.toList < b.toUTF8.toList := by
  have hmono : ∀ {a b : String}, a < b → a.toUTF8.toList < b.toUTF8.toList := by
    intro a b h
    rw [toUTF8_toList, toUTF8_toList]
    exact flatMap_utf8EncodeChar_lt (String.lt_iff.mp h)
  refine ⟨hmono, fun hbytes => ?_⟩
  by_contra hnot
  rcases Decidable.em (a = b) with rfl | hne
  · exact absurd hbytes (List.lt_irrefl _)
  · have hgt : b < a := Std.lt_of_le_of_ne (String.not_lt.mp hnot) (Ne.symm hne)
    exact absurd hbytes (List.lt_asymm (hmono hgt))

/-- Names that strictly increase as their bytes do. -/
def InByteOrder (names : List String) : Prop :=
  names.Pairwise fun a b => a.toUTF8.toList < b.toUTF8.toList

lemma inByteOrder_iff {names : List String} : InByteOrder names ↔ names.Pairwise (· < ·) := by
  unfold InByteOrder
  simp only [← lt_iff_toUTF8_lt]

end CrossBuild.Proofs
