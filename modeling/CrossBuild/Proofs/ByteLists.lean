import CrossBuild.Archive.Bytes
import Mathlib.Algebra.Group.Int.Defs
import Mathlib.Algebra.Group.Nat.Defs
import Mathlib.Tactic.Lemma

/-!
# Bytes at places

What stands at a place in an array of bytes, as a list. Numbers and pieces are read off such lists, and
what has been written stands where it was written, whatever else is around it.
-/

namespace CrossBuild.Proofs
open Archive

lemma toList_eq (data : ByteArray) : data.toList = data.data.toList := by
  have hloop : ∀ (rest : List UInt8) (i : Nat) (done : List UInt8), data.data.toList.drop i = rest →
      ByteArray.toList.loop data i done = done.reverse ++ rest := by
    intro rest
    induction rest with
    | nil =>
      intro i done h
      rw [ByteArray.toList.loop, if_neg]
      · simp
      · have hlen := List.drop_eq_nil_iff.mp h
        rw [Array.length_toList, ByteArray.size_data] at hlen
        omega
    | cons b rest ih =>
      intro i done h
      have hlt : i < data.size := by
        have hlen := congrArg List.length h
        rw [List.length_drop, Array.length_toList, ByteArray.size_data, List.length_cons] at hlen
        omega
      have hget : data.get! i = b := by
        have hhead := congrArg List.head? h
        rw [List.head?_drop] at hhead
        simpa [ByteArray.get!, Array.getElem!_eq_getD, Array.getD_eq_getD_getElem?] using
          congrArg (·.getD default) hhead
      rw [ByteArray.toList.loop, if_pos hlt, hget, ih (i + 1) (b :: done)]
      · simp
      · rw [← List.tail_drop, h]
        rfl
  exact hloop _ 0 [] rfl

lemma bytes_ext {a b : ByteArray} (h : a.data.toList = b.data.toList) : a = b :=
  ByteArray.ext (Array.toList_inj.mp h)

/-- The bytes stand in the array, the first of them at the place `start`. -/
def StandsAt (data : ByteArray) (start : Nat) (bytes : List UInt8) : Prop :=
  ∃ front back, data.data.toList = front ++ (bytes ++ back) ∧ front.length = start

section Places

variable {data : ByteArray} {start : Nat} {bytes : List UInt8}

lemma StandsAt.append {more : List UInt8} (h : StandsAt data start (bytes ++ more)) :
    StandsAt data start bytes ∧ StandsAt data (start + bytes.length) more := by
  obtain ⟨front, back, hdata, rfl⟩ := h
  exact ⟨⟨front, more ++ back, by simp [hdata], rfl⟩, ⟨front ++ bytes, back, by simp [hdata], by simp⟩⟩

lemma StandsAt.le_size (h : StandsAt data start bytes) : start + bytes.length ≤ data.size := by
  obtain ⟨front, back, hdata, rfl⟩ := h
  have hlen := congrArg List.length hdata
  rw [Array.length_toList, ByteArray.size_data, List.length_append, List.length_append] at hlen
  omega

lemma StandsAt.cons {b : UInt8} (h : StandsAt data start (b :: bytes)) :
    Bytes.at? data start = b.toNat ∧ StandsAt data (start + 1) bytes := by
  have hlt : start < data.size := by
    have hle := h.le_size
    rw [List.length_cons] at hle
    omega
  have hsplit : StandsAt data start ([b] ++ bytes) := h
  refine ⟨?_, hsplit.append.2⟩
  obtain ⟨front, back, hdata, rfl⟩ := h
  unfold Bytes.at?
  rw [dif_pos hlt, ByteArray.getElem_eq_getElem_data, ← Array.getElem_toList]
  simp [hdata]

lemma StandsAt.extract (h : StandsAt data start bytes) :
    data.extract start (start + bytes.length) = ⟨bytes.toArray⟩ := by
  obtain ⟨front, back, hdata, rfl⟩ := h
  apply bytes_ext
  simp [hdata]

/-- The bytes of a number, the least significant first. -/
def littleBytes : Nat → Nat → List UInt8
  | _, 0 => []
  | value, n + 1 => (value % 256).toUInt8 :: littleBytes (value / 256) n

lemma length_littleBytes (value n : Nat) : (littleBytes value n).length = n := by
  induction n generalizing value with
  | zero => rfl
  | succ n ih => rw [littleBytes, List.length_cons, ih]

lemma pushLittle_toList (out : ByteArray) (value n : Nat) :
    (Bytes.pushLittle out value n).data.toList = out.data.toList ++ littleBytes value n := by
  induction n generalizing out value with
  | zero => simp [Bytes.pushLittle, littleBytes]
  | succ n ih => simp [Bytes.pushLittle, littleBytes, ih]

lemma StandsAt.little {value n : Nat} (h : StandsAt data start (littleBytes value n)) :
    Bytes.little data start n = value % 256 ^ n := by
  induction n generalizing start value with
  | zero => rw [Bytes.little, Nat.pow_zero, Nat.mod_one]
  | succ n ih =>
    obtain ⟨hfirst, hrest⟩ := StandsAt.cons h
    have hbyte : (value % 256).toUInt8.toNat = value % 256 := by simp
    rw [Bytes.little, hfirst, ih hrest, hbyte, Nat.pow_succ', Nat.mod_mul]

end Places

end CrossBuild.Proofs
