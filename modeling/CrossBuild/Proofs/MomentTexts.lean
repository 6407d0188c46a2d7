import CrossBuild.Calendar.Stamp
import CrossBuild.Proofs.CalendarDays
import CrossBuild.Proofs.WrittenNumbers

/-!
# Moments that are written and read

The text of a moment is read as that moment, to the nanosecond, for all years of the calendar: those of four
digits, those with a sign, and in leap seconds too.
-/

namespace CrossBuild.Proofs
open Instant

/-! ### Parts of the text -/

section Parts

variable {ds rest : List Char} {n : Nat}

/-- Digits are read up to where there are enough of them or something else follows. -/
lemma digits?_append (hds : IsDecimal ds n) {least most : Nat} (hleast : least ≤ ds.length) (hmost : ds.length ≤ most)
    (hrest : ds.length = most ∨ ∀ c, rest.head? = some c → c.isDigit = false) :
    digits? least most (ds ++ rest) = some (n, rest) := by
  have hread : ((ds ++ rest).take most).takeWhile Char.isDigit = ds := by
    rw [List.take_append, List.take_of_length_le hmost, List.takeWhile_append_of_pos hds.digits]
    have hnone : (rest.take (most - ds.length)).takeWhile Char.isDigit = [] := by
      rcases hrest with hlength | hhead
      · rw [hlength, Nat.sub_self]
        rfl
      · cases rest with
        | nil => rw [List.take_nil, List.takeWhile_nil]
        | cons c rest =>
          cases hroom : most - ds.length with
          | zero => rfl
          | succ room =>
            rw [List.take_succ_cons]
            exact List.takeWhile_cons_of_neg (by simp [hhead c rfl])
    rw [hnone, List.append_nil]
  unfold digits?
  simp only [hread, if_neg (Nat.not_lt.mpr hleast), hds.value, Option.map_some, List.drop_left]

lemma digits?_two (hn : n < 100) : digits? 2 2 ((Text.padded 2 n).toList ++ rest) = some (n, rest) := by
  obtain ⟨hleast, hmost⟩ := length_padded 2 2 (by decide) (by decide) hn
  exact digits?_append (isDecimal_padded 2 n) hleast hmost (.inl (Nat.le_antisymm hmost hleast))

/-- Digits with no sign before them are those of a year of four digits. -/
lemma year?_unsigned (hds : IsDecimal ds n) (hne : ds ≠ []) :
    year? (ds ++ rest) = (digits? 4 4 (ds ++ rest)).map fun (n, rest) => ((n : Int), rest) := by
  obtain ⟨c, more, rfl⟩ := List.exists_cons_of_ne_nil hne
  have hdigit := hds.digits c (by simp)
  unfold year?
  split
  · rename_i heq
    cases heq
    cases hdigit
  · rename_i heq
    cases heq
    cases hdigit
  · rfl

/-- A number that is long enough is written with no zeros before it. -/
lemma padded_of_long {width : Nat} (h : width ≤ (Nat.toDigits 10 n).length) :
    (toString (n : Int)).toList = (Text.padded width n).toList := by
  change (Nat.repr n).toList = _
  rw [toList_padded, Nat.sub_eq_zero_of_le h]
  simp [Nat.repr]

lemma year?_yearText {year : Int} (hfirst : Date.firstYear ≤ year) (hlast : year ≤ Date.lastYear) :
    year? ((yearText year).toList ++ '-' :: rest) = some (year, '-' :: rest) := by
  have hdash : ∀ c, ('-' :: rest).head? = some c → c.isDigit = false := by
    rintro c hc
    cases hc
    decide
  rw [Date.firstYear] at hfirst
  rw [Date.lastYear] at hlast
  unfold yearText
  split
  · rename_i hnegative
    obtain ⟨hleast, hmost⟩ := length_padded 4 9 (n := year.natAbs) (by decide) (by decide) (by omega)
    have hdigits := digits?_append (isDecimal_padded 4 year.natAbs) hleast hmost (.inr hdash)
    have hback : -(year.natAbs : Int) = year := by omega
    rw [String.toList_append, show ("-" : String).toList = ['-'] by rfl, List.singleton_append, List.cons_append]
    simp only [year?, hdigits, Option.map_some, hback]
  · split
    · rename_i hnonneg hlarge
      obtain ⟨k, rfl⟩ := Int.eq_ofNat_of_zero_le (show 0 ≤ year by omega)
      have hlong : 5 ≤ (Nat.toDigits 10 k).length := by
        by_contra hshort
        have hless := (Nat.length_toDigits_le_iff (b := 10) (n := k) (k := 4) (by decide) (by decide)).mp (by omega)
        omega
      obtain ⟨hleast, hmost⟩ := length_padded 5 9 (n := k) (by decide) (by decide) (by omega)
      have hdigits := digits?_append (isDecimal_padded 5 k) (show 4 ≤ _ by omega) hmost (.inr hdash)
      rw [String.toList_append, show ("+" : String).toList = ['+'] by rfl, List.singleton_append, List.cons_append,
        padded_of_long hlong]
      simp only [year?, hdigits, Option.map_some]
    · rename_i hnonneg hsmall
      obtain ⟨hleast, hmost⟩ := length_padded 4 4 (n := year.natAbs) (by decide) (by decide) (by omega)
      have hdecimal := isDecimal_padded 4 year.natAbs
      have hback : (year.natAbs : Int) = year := by omega
      rw [year?_unsigned hdecimal (List.length_pos_iff.mp (by omega)), digits?_append hdecimal hleast hmost (.inr hdash)]
      simp only [Option.map_some, hback]

/-- Digits after the point are as many of the nine that a fraction has. -/
lemma fraction?_padded {width : Nat} (hpos : 0 < width) (hnine : width ≤ 9) (hn : n < 10 ^ width)
    (hrest : ∀ c, rest.head? = some c → c.isDigit = false) :
    fraction? ('.' :: ((Text.padded width n).toList ++ rest)) = some (n * 10 ^ (9 - width), rest) := by
  have hdecimal := isDecimal_padded width n
  have hlength : (Text.padded width n).toList.length = width := by
    obtain ⟨hleast, hmost⟩ := length_padded width width hpos (Nat.le_refl width) hn
    exact Nat.le_antisymm hmost hleast
  have hread : ((Text.padded width n).toList ++ rest).takeWhile Char.isDigit = (Text.padded width n).toList := by
    rw [List.takeWhile_append_of_pos hdecimal.digits]
    cases rest with
    | nil => rw [List.takeWhile_nil, List.append_nil]
    | cons c rest => rw [List.takeWhile_cons_of_neg (by simp [hrest c rfl]), List.append_nil]
  have hnonempty : (Text.padded width n).toList.isEmpty = false := by
    rw [List.isEmpty_eq_false_iff, ← List.length_pos_iff, hlength]
    exact hpos
  have hnineDigits : ((Text.padded width n).toList ++ List.replicate 9 '0').take 9 =
      (Text.padded width n).toList ++ List.replicate (9 - width) '0' := by
    rw [List.take_append, List.take_of_length_le (by omega), List.take_replicate, hlength,
      Nat.min_eq_left (Nat.sub_le 9 width)]
  have hvalue := digitsValue?_append_zeros (by decide) (by decide) hdecimal.value (9 - width)
  unfold fraction?
  simp only [hread, hnonempty, Bool.false_eq_true, if_false, hnineDigits, hvalue, Option.map_some, List.drop_left]

lemma fraction?_pointed {width : Nat} (hpos : 0 < width) (hnine : width ≤ 9) (hn : n < 10 ^ width) :
    fraction? (("." ++ Text.padded width n).toList ++ ['Z']) = some (n * 10 ^ (9 - width), ['Z']) := by
  have hpoint : ("." : String).toList = ['.'] := rfl
  have hzed : ∀ c, ['Z'].head? = some c → c.isDigit = false := by
    rintro c hc
    cases hc
    decide
  rw [String.toList_append, hpoint, List.singleton_append, List.cons_append, fraction?_padded hpos hnine hn hzed]

/-- All nanoseconds of a fraction are written. -/
lemma fraction?_fractionText (hn : n < 1000000000) :
    fraction? ((fractionText n).toList ++ ['Z']) = some (n, ['Z']) := by
  unfold fractionText
  split
  · rename_i hzero
    rw [beq_iff_eq.mp hzero]
    rfl
  · split
    · rename_i hmillis
      rw [beq_iff_eq] at hmillis
      have hsmall : n / 1000000 < 10 ^ 3 := by omega
      have hback : n / 1000000 * 10 ^ (9 - 3) = n := by omega
      rw [fraction?_pointed (by decide) (by decide) hsmall, hback]
    · split
      · rename_i hmicros
        rw [beq_iff_eq] at hmicros
        have hsmall : n / 1000 < 10 ^ 6 := by omega
        have hback : n / 1000 * 10 ^ (9 - 6) = n := by omega
        rw [fraction?_pointed (by decide) (by decide) hsmall, hback]
      · have hsmall : n < 10 ^ 9 := by omega
        rw [fraction?_pointed (by decide) (by decide) hsmall, Nat.sub_self, Nat.pow_zero, Nat.mul_one]

end Parts

/-! ### Moments -/

/-- A moment that a clock can show: in a year of the calendar, with more than a second's worth of
nanoseconds only in the last second of a minute. -/
structure IsMoment (i : Instant) : Prop where
  first : Date.firstYear ≤ i.date.year
  last : i.date.year ≤ Date.lastYear
  nanos : i.nanos < 1000000000 ∨ i.secondOfDay % 60 = 59 ∧ i.nanos < 2000000000

lemma IsMoment.plusDays {i later : Instant} (h : IsMoment i) {days : Nat} (hlater : i.plusDays? days = some later) :
    IsMoment later := by
  unfold plusDays? at hlater
  dsimp only at hlater
  split at hlater
  · rename_i hlast
    cases hlater
    have hmod : (i.seconds + days * secondsPerDay).fmod secondsPerDay = i.seconds.fmod secondsPerDay := by
      rw [Int.add_mul_fmod_self_right]
    refine ⟨h.first.trans (year_mono ?_), hlast, ?_⟩
    · rw [secondsPerDay, Int.fdiv_eq_ediv_of_nonneg _ (by decide), Int.fdiv_eq_ediv_of_nonneg _ (by decide)]
      dsimp only
      omega
    · have hnanos := h.nanos
      unfold secondOfDay at hnanos ⊢
      dsimp only
      rwa [hmod]
  · cases hlater

lemma secondOfDay_lt (i : Instant) : i.secondOfDay < 86400 := by
  unfold secondOfDay
  rw [secondsPerDay, Int.fmod_eq_emod_of_nonneg _ (by decide)]
  omega

lemma seconds_of_date (i : Instant) : i.date.toDays * secondsPerDay + i.secondOfDay = i.seconds := by
  rw [date, toDays_ofDays, secondOfDay, secondsPerDay, Int.fmod_eq_emod_of_nonneg _ (by decide),
    Int.fdiv_eq_ediv_of_nonneg _ (by decide)]
  omega

/-- The day of a moment and its time of day make up the moment. -/
lemma ofClock?_date {i : Instant} (h : IsMoment i) : ofClock? i.date (i.secondOfDay / 3600) (i.secondOfDay / 60 % 60)
    (i.secondOfDay % 60 + i.nanos / 1000000000) (i.nanos % 1000000000) 0 = some i := by
  have hvalid : i.date.isValid = true := isValid_ofDays h.first h.last
  have hnanos := h.nanos
  have hseconds := seconds_of_date i
  have hless := secondOfDay_lt i
  have hparts : i.secondOfDay / 3600 * 3600 + i.secondOfDay / 60 % 60 * 60 + i.secondOfDay % 60 = i.secondOfDay := by
    omega
  have hsum : i.date.toDays * secondsPerDay + ((i.secondOfDay : Nat) : Int) - 0 = i.seconds := by omega
  have hdate : ∀ nanos, (⟨i.seconds, nanos⟩ : Instant).date = i.date := fun _ => rfl
  have hrange : (decide (Date.firstYear ≤ i.date.year) && decide (i.date.year ≤ Date.lastYear)) = true := by
    simp [h.first, h.last]
  have hvalidAll : (i.date.isValid && i.secondOfDay / 3600 < 24 && i.secondOfDay / 60 % 60 < 60 &&
      i.secondOfDay % 60 + i.nanos / 1000000000 ≤ 60 && (0 : Int).natAbs < 86400) = true := by
    simp only [hvalid, Bool.true_and, Bool.and_eq_true, decide_eq_true_eq]
    omega
  unfold ofClock?
  rw [if_pos hvalidAll]
  by_cases hsmall : i.nanos < 1000000000
  · have hnone : i.nanos / 1000000000 = 0 := Nat.div_eq_of_lt hsmall
    have hnotLeap : (i.secondOfDay % 60 == 60) = false := by
      rw [beq_eq_false_iff_ne]
      omega
    simp only [hnone, Nat.add_zero, hnotLeap, Bool.false_eq_true, if_false, hparts, hsum, hdate, hrange, if_true,
      Nat.mod_eq_of_lt hsmall]
  · obtain ⟨hend, hlarge⟩ := hnanos.resolve_left hsmall
    have hone : i.nanos / 1000000000 = 1 := by omega
    have hleap : (i.secondOfDay % 60 + 1 == 60) = true := by
      rw [beq_iff_eq]
      omega
    have hback : i.nanos % 1000000000 + 1000000000 = i.nanos := by omega
    rw [hend] at hparts
    simp only [hone, hleap, if_true, hparts, hsum, hdate, hrange, hback]

lemma two_digits_of_isValid {d : Date} (h : d.isValid = true) : d.month < 100 ∧ d.day < 100 := by
  simp only [Date.isValid, Bool.and_eq_true, decide_eq_true_eq] at h
  have hdays : Date.daysInMonth d.year d.month ≤ 31 := by
    unfold Date.daysInMonth
    split
    · split <;> omega
    · split <;> omega
  omega

lemma toList_momentText (i : Instant) : i.text.toList = (yearText i.date.year).toList ++
    '-' :: ((Text.padded 2 i.date.month).toList ++ '-' :: ((Text.padded 2 i.date.day).toList ++
      'T' :: ((Text.padded 2 (i.secondOfDay / 3600)).toList ++
        ':' :: ((Text.padded 2 (i.secondOfDay / 60 % 60)).toList ++
          ':' :: ((Text.padded 2 (i.secondOfDay % 60 + i.nanos / 1000000000)).toList ++
            ((fractionText (i.nanos % 1000000000)).toList ++ ['Z'])))))) := by
  have hdash : ("-" : String).toList = ['-'] := rfl
  have hcolon : (":" : String).toList = [':'] := rfl
  have htee : ("T" : String).toList = ['T'] := rfl
  have hzed : ("Z" : String).toList = ['Z'] := rfl
  simp only [text, String.toList_append, hdash, hcolon, htee, hzed, List.append_assoc, List.cons_append,
    List.nil_append]

/-- The text of a moment is read as the moment. -/
theorem ofText?_text {i : Instant} (h : IsMoment i) : ofText? i.text = some i := by
  have hvalid : i.date.isValid = true := isValid_ofDays h.first h.last
  have hsecond := secondOfDay_lt i
  have hclock := ofClock?_date h
  obtain ⟨hmonth, hday⟩ := two_digits_of_isValid hvalid
  have htwo : i.secondOfDay % 60 + i.nanos / 1000000000 < 100 := by
    have hnanos := h.nanos
    omega
  have hdrop : ∀ (c : Char) (allowed rest : List Char), allowed.contains c = true →
      dropOne? allowed (c :: rest) = some rest := fun c allowed rest hc => if_pos hc
  have hfraction := fraction?_fractionText (Nat.mod_lt i.nanos (show 0 < 1000000000 by decide))
  have hzone : zone? ['Z'] = some (0, []) := by rfl
  have hbind : ∀ {α β : Type} {read : Option α} {a : α} {next : α → Option β} {b : β}, read = some a →
      next a = some b → (read >>= next) = some b := by
    rintro α β _ a next b rfl hnext
    exact hnext
  unfold ofText?
  rw [toList_momentText]
  refine hbind (year?_yearText h.first h.last) (hbind (hdrop '-' _ _ rfl) (hbind (digits?_two hmonth) ?_))
  refine hbind (hdrop '-' _ _ rfl) (hbind (digits?_two hday) ?_)
  refine hbind (hdrop 'T' _ _ rfl) (hbind (digits?_two (by omega)) ?_)
  refine hbind (hdrop ':' _ _ rfl) (hbind (digits?_two (by omega)) ?_)
  refine hbind (hdrop ':' _ _ rfl) (hbind (digits?_two htwo) ?_)
  exact hbind hfraction (hbind hzone ((if_pos rfl).trans hclock))

end CrossBuild.Proofs
