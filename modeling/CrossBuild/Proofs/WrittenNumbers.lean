import CrossBuild.Text.Basic
import Mathlib.Algebra.GroupWithZero.Nat
import Mathlib.Data.List.Basic
import Mathlib.Tactic.Lemma

/-!
# Numbers as digits

The digits that are written for a number write that number, with any number of zeros before them, in all
bases whose digits are no letters.
-/

namespace CrossBuild.Proofs

section Bases

variable {base : Nat}

lemma digitValue?_digitChar (hbase : base ≤ 10) {d : Nat} (h : d < base) :
    Text.digitValue? base (Nat.digitChar d) = some d := by
  have hall : ∀ d < 10, (if 48 ≤ (Nat.digitChar d).toNat ∧ (Nat.digitChar d).toNat ≤ 57 then
      some ((Nat.digitChar d).toNat - 48) else none) = some d := by
    decide
  have hten := hall d (by omega)
  split at hten
  · rename_i hrange
    rw [Text.digitValue?]
    simp only [hrange, decide_true, Bool.and_self, if_true, hten, Option.filter_some, h]
  · cases hten

lemma digitsValue?_append (hbase : base ≤ 10) (cs : List Char) {d : Nat} (h : d < base) :
    Text.digitsValue? base (cs ++ [Nat.digitChar d]) = (Text.digitsValue? base cs).map (· * base + d) := by
  unfold Text.digitsValue?
  rw [List.foldl_append]
  cases List.foldl _ (some 0) cs with
  | none => rfl
  | some value => simp [digitValue?_digitChar hbase h]

/-- A zero after a number makes it as many times greater as there are digits. -/
lemma digitsValue?_append_zeros (hpos : 0 < base) (hbase : base ≤ 10) {cs : List Char} {n : Nat}
    (h : Text.digitsValue? base cs = some n) (zeros : Nat) :
    Text.digitsValue? base (cs ++ List.replicate zeros '0') = some (n * base ^ zeros) := by
  induction zeros with
  | zero => simpa using h
  | succ zeros ih =>
    have hlast := digitsValue?_append hbase (cs ++ List.replicate zeros '0') hpos
    rw [List.replicate_succ', ← List.append_assoc]
    refine hlast.trans ?_
    rw [ih, Option.map_some, Nat.add_zero, Nat.pow_succ, Nat.mul_assoc]

lemma digitsValue?_zeros (hpos : 0 < base) (hbase : base ≤ 10) (zeros : Nat) :
    Text.digitsValue? base (List.replicate zeros '0') = some 0 := by
  have hnone : Text.digitsValue? base [] = some 0 := rfl
  simpa using digitsValue?_append_zeros hpos hbase hnone zeros

/-- Zeros and then the digits of a number write that number. -/
lemma digitsValue?_toDigits (htwo : 1 < base) (hbase : base ≤ 10) (zeros n : Nat) :
    Text.digitsValue? base (List.replicate zeros '0' ++ Nat.toDigits base n) = some n := by
  induction n using Nat.strongRecOn with
  | ind n ih =>
    rw [Nat.toDigits_eq_if htwo]
    split
    · rename_i hn
      rw [digitsValue?_append hbase _ hn, digitsValue?_zeros (by omega) hbase]
      simp
    · rw [← List.append_assoc, digitsValue?_append hbase _ (Nat.mod_lt n (by omega)),
        ih (n / base) (Nat.div_lt_self (by omega) htwo)]
      simp only [Option.map_some, Option.some.injEq]
      rw [Nat.mul_comm]
      exact Nat.div_add_mod n base

end Bases

/-! ### Decimal numbers -/

/-- The characters are decimal digits that write the number. -/
structure IsDecimal (cs : List Char) (n : Nat) : Prop where
  digits : ∀ c ∈ cs, c.isDigit = true
  value : Text.digitsValue? 10 cs = some n

lemma isDecimal_toDigits (zeros n : Nat) : IsDecimal (List.replicate zeros '0' ++ Nat.toDigits 10 n) n := by
  refine ⟨fun c hc => ?_, digitsValue?_toDigits (by decide) (by decide) zeros n⟩
  rcases List.mem_append.mp hc with hc | hc
  · rw [List.eq_of_mem_replicate hc]
    decide
  · exact Nat.isDigit_of_mem_toDigits (by decide) (by decide) hc

lemma toList_padded (width n : Nat) : (Text.padded width n).toList =
    List.replicate (width - (Nat.toDigits 10 n).length) '0' ++ Nat.toDigits 10 n := by
  simp [Text.padded, Nat.repr]

lemma isDecimal_padded (width n : Nat) : IsDecimal (Text.padded width n).toList n := by
  rw [toList_padded]
  exact isDecimal_toDigits _ n

lemma length_padded (width k : Nat) {n : Nat} (hpos : 0 < k) (hwidth : width ≤ k) (hn : n < 10 ^ k) :
    width ≤ (Text.padded width n).toList.length ∧ (Text.padded width n).toList.length ≤ k := by
  have hle := (Nat.length_toDigits_le_iff (b := 10) (by decide) hpos).mpr hn
  rw [toList_padded, List.length_append, List.length_replicate]
  omega

end CrossBuild.Proofs
