import CrossBuild.Archive.Gzip
import CrossBuild.Proofs.ByteLists
import CrossBuild.Proofs.Sequencing

/-!
# Stored data reads back

What a member holds in stored blocks is what comes out of it again, with its check and its length right.
The bits of a block are followed byte by byte from places where bytes begin.
-/

namespace CrossBuild.Proofs
open Archive Inflate

/-! ### Bits and bytes -/

section Bits

variable {s s' s'' : State} {k : Nat}

lemma bit_run (h : s.position < s.data.size * 8) :
    Gives bit s (Bytes.at? s.data (s.position / 8) >>> (s.position % 8) % 2)
      { s with position := s.position + 1 } := by
  simp only [bit, gives_bind, gives_get]
  refine ⟨s, s, ⟨rfl, rfl⟩, ?_⟩
  rw [if_pos h]
  exact gives_bind.mpr ⟨⟨⟩, _, gives_set.mpr rfl, gives_pure.mpr ⟨rfl, rfl⟩⟩

/-- Bits that are all in one byte. -/
lemma bits_run (skipped n : Nat) (hk : k < s.data.size) (hposition : s.position = 8 * k + skipped)
    (hle : skipped + n ≤ 8) : Gives (bits n) s (Bytes.at? s.data k >>> skipped % 2 ^ n)
      { s with position := 8 * k + (skipped + n) } := by
  induction n generalizing s skipped with
  | zero =>
    rw [Nat.pow_zero, Nat.mod_one, Nat.add_zero, ← hposition]
    exact gives_pure.mpr ⟨rfl, rfl⟩
  | succ n ih =>
    have hbit := bit_run (s := s) (by omega)
    rw [show s.position / 8 = k by omega, show s.position % 8 = skipped by omega] at hbit
    have hrest := ih (skipped + 1) (s := { s with position := s.position + 1 }) hk (by simp only; omega)
      (by omega)
    simp only [bits, gives_bind, gives_pure]
    refine ⟨_, _, hbit, _, _, hrest, ?_, ?_⟩
    · rw [Nat.shiftRight_succ, Nat.pow_succ', Nat.mod_mul]
    · simp only [State.mk.injEq, true_and, and_true]
      omega

lemma bits_append {a b n n' : Nat} (h : Gives (bits n) s a s') (h' : Gives (bits n') s' b s'') :
    Gives (bits (n + n')) s (a + 2 ^ n * b) s'' := by
  induction n generalizing s a with
  | zero =>
    obtain ⟨rfl, rfl⟩ := gives_pure.mp h
    simpa using h'
  | succ n ih =>
    simp only [bits, gives_bind, gives_pure] at h
    obtain ⟨low, next, hlow, high, _, hhigh, rfl, rfl⟩ := h
    rw [Nat.succ_add]
    simp only [bits, gives_bind, gives_pure]
    refine ⟨low, next, hlow, _, _, ih hhigh, ?_, rfl⟩
    rw [Nat.pow_succ', Nat.mul_add, Nat.mul_assoc, Nat.add_assoc]

lemma byte_run {b : UInt8} {more : List UInt8} (h : StandsAt s.data k (b :: more))
    (hposition : s.position = 8 * k) : Gives (bits 8) s b.toNat { s with position := 8 * (k + 1) } := by
  have hle := h.le_size
  rw [List.length_cons] at hle
  have hrun := bits_run (s := s) (k := k) 0 8 (by omega) hposition (by omega)
  have hbyte : b.toNat % 2 ^ 8 = b.toNat := Nat.mod_eq_of_lt b.toNat_lt
  rw [Nat.shiftRight_zero, h.cons.1, hbyte] at hrun
  exact hrun

lemma word_run {value : Nat} (h : StandsAt s.data k (littleBytes value 2)) (hvalue : value < 65536)
    (hposition : s.position = 8 * k) : Gives (bits 16) s value { s with position := 8 * (k + 2) } := by
  have hlow := byte_run h hposition
  have hhigh := byte_run (s := { s with position := 8 * (k + 1) }) h.cons.2 rfl
  have hword := bits_append hlow hhigh
  have hnum : (value % 256).toUInt8.toNat + 2 ^ 8 * (value / 256 % 256).toUInt8.toNat = value := by
    simp
    omega
  rw [hnum] at hword
  exact hword

end Bits

/-! ### Blocks -/

lemma write_run (s : State) (b : UInt8) : Gives (write b) s () { s with out := s.out.push b } :=
  gives_modify.mpr rfl

lemma storedBytes_run {s : State} {k : Nat} {bytes : List UInt8} (h : StandsAt s.data k bytes)
    (hposition : s.position = 8 * k) : Gives (storedBytes bytes.length) s ()
      { s with position := 8 * (k + bytes.length), out := s.out ++ ⟨bytes.toArray⟩ } := by
  induction bytes generalizing s k with
  | nil =>
    refine gives_pure.mpr ⟨rfl, ?_⟩
    have hout : s.out ++ ⟨[].toArray⟩ = s.out := ByteArray.append_empty
    rw [hout]
    simp [← hposition]
  | cons b rest ih =>
    have hbyte := byte_run h hposition
    have hrest := ih (s := { s with position := 8 * (k + 1), out := s.out.push b }) h.cons.2 rfl
    simp only [List.length_cons, storedBytes, gives_bind]
    refine ⟨_, _, hbyte, (), { s with position := 8 * (k + 1), out := s.out.push b }, ?_, ?_⟩
    · rw [Nat.toUInt8_eq, UInt8.ofNat_toNat]
      exact write_run _ b
    · have hout : s.out.push b ++ ⟨rest.toArray⟩ = s.out ++ ⟨(b :: rest).toArray⟩ := by
        apply bytes_ext
        simp
      rw [hout, Nat.add_assoc, Nat.add_comm 1] at hrest
      exact hrest

/-- The bytes of a block after the one that its first three bits are in. -/
def blockBytes (bytes : List UInt8) : List UInt8 :=
  littleBytes bytes.length 2 ++ (littleBytes (65535 - bytes.length) 2 ++ bytes)

lemma length_blockBytes (bytes : List UInt8) : (blockBytes bytes).length = 4 + bytes.length := by
  rw [blockBytes, List.length_append, List.length_append, length_littleBytes, length_littleBytes]
  omega

lemma storedBlock_run {s : State} {k : Nat} {bytes : List UInt8} (h : StandsAt s.data k (blockBytes bytes))
    (hle : bytes.length ≤ 65535) (hposition : (s.position + 7) / 8 = k) : Gives storedBlock s ()
      { s with position := 8 * (k + 4 + bytes.length), out := s.out ++ ⟨bytes.toArray⟩ } := by
  obtain ⟨hlength, hrest⟩ := h.append
  obtain ⟨hinverted, hbytes⟩ := hrest.append
  simp only [length_littleBytes] at hinverted hbytes
  have hfirst := word_run (s := { s with position := 8 * k }) hlength (by omega) rfl
  have hsecond := word_run (s := { s with position := 8 * (k + 2) }) hinverted (by omega) rfl
  have hall := storedBytes_run (s := { s with position := 8 * (k + 2 + 2) }) hbytes rfl
  simp only [storedBlock, gives_bind]
  refine ⟨⟨⟩, { s with position := 8 * k }, ?_, _, _, hfirst, _, _, hsecond, ?_⟩
  · apply gives_modify.mpr
    rw [hposition, Nat.mul_comm]
  · have hsum : (bytes.length + (65535 - bytes.length) == 65535) = true := by
      rw [beq_iff_eq]
      omega
    rw [if_pos hsum]
    exact hall

/-- The byte at the start of a block. -/
def firstByte (isLast : Bool) : UInt8 := if isLast then 1 else 0

lemma blocks_run {s : State} {k : Nat} {isLast : Bool} {bytes : List UInt8} {fuel n : Nat}
    (h : StandsAt s.data k (firstByte isLast :: blockBytes bytes)) (hle : bytes.length ≤ 65535)
    (hposition : s.position = 8 * k) {s' : State}
    (hrest : ({ s with position := 8 * (k + 5 + bytes.length), out := s.out ++ ⟨bytes.toArray⟩ } = s' ∧
      isLast = true) ∨ (isLast = false ∧ Gives (blocks fuel n)
        { s with position := 8 * (k + 5 + bytes.length), out := s.out ++ ⟨bytes.toArray⟩ } () s')) :
    Gives (blocks fuel (n + 1)) s () s' := by
  have hsize := h.le_size
  rw [List.length_cons] at hsize
  obtain ⟨hbyte, hblock⟩ := h.cons
  have hmark := bit_run (s := s) (by omega)
  have hkind := bits_run (s := { s with position := s.position + 1 }) (k := k) 1 2 (by simp only; omega)
    (by simp only; omega) (by omega)
  rw [show s.position / 8 = k by omega, show s.position % 8 = 0 by omega, hbyte] at hmark
  rw [hbyte] at hkind
  have hstored := storedBlock_run (s := { s with position := 8 * k + (1 + 2) }) hblock hle
    (by simp only; omega)
  rw [show k + 1 + 4 = k + 5 by omega] at hstored
  have hzero : (firstByte isLast).toNat >>> 1 % 2 ^ 2 = 0 := by cases isLast <;> rfl
  simp only [blocks, gives_bind]
  refine ⟨_, _, hmark, _, _, hkind, ?_⟩
  rw [hzero]
  refine gives_bind.mpr ⟨(), _, hstored, ?_⟩
  rcases hrest with ⟨rfl, rfl⟩ | ⟨rfl, hrest⟩
  · exact gives_pure.mpr ⟨rfl, rfl⟩
  · exact hrest

/-- What is written of one block. -/
lemma chunk_toList (out bytes : ByteArray) (isLast : Bool) :
    (Bytes.pushLittle (Bytes.pushLittle (out.push (if isLast then 1 else 0)) bytes.size 2)
        (65535 - bytes.size) 2 ++ bytes).data.toList =
      out.data.toList ++ firstByte isLast :: blockBytes bytes.data.toList := by
  rw [ByteArray.toList_data_append, pushLittle_toList, pushLittle_toList]
  simp [firstByte, blockBytes]

/-- The bytes of the blocks for the data from a place on. -/
def storedBody (data : ByteArray) : Nat → Nat → List UInt8
  | 0, _ => []
  | fuel + 1, start =>
    let size := min 65535 (data.size - start)
    let isLast := start + size == data.size
    let block := firstByte isLast :: blockBytes (data.extract start (start + size)).data.toList
    if isLast then block else block ++ storedBody data fuel (start + size)

lemma storedBlocks_toList (data : ByteArray) (fuel start : Nat) (out : ByteArray)
    (hstart : start ≤ data.size) :
    (Gzip.storedBlocks data fuel start out).data.toList =
      out.data.toList ++ storedBody data fuel start := by
  induction fuel generalizing start out with
  | zero => simp [Gzip.storedBlocks, storedBody]
  | succ fuel ih =>
    obtain ⟨size, hsize⟩ : ∃ size, min 65535 (data.size - start) = size := ⟨_, rfl⟩
    have hlen : (data.extract start (start + size)).size = size := by
      rw [ByteArray.size_extract]
      omega
    have hchunk := chunk_toList out (data.extract start (start + size)) (start + size == data.size)
    rw [hlen] at hchunk
    rw [Gzip.storedBlocks, storedBody, hsize]
    split
    · rename_i hlast
      rw [if_pos hlast] at hchunk
      exact hchunk
    · rename_i hlast
      rw [if_neg hlast] at hchunk
      rw [ih _ _ (by omega), hchunk, List.append_assoc]

/-- Reading the blocks for data from a place on gives that data. There are fewer of them than bytes. -/
lemma storedBody_run (data : ByteArray) (fuel blockFuel start : Nat) (hstart : start ≤ data.size)
    (hfuel : data.size - start < blockFuel) {s : State} {k n : Nat}
    (h : StandsAt s.data k (storedBody data blockFuel start)) (hposition : s.position = 8 * k)
    (hn : (storedBody data blockFuel start).length ≤ n) : Gives (blocks fuel n) s () { s with
      position := 8 * (k + (storedBody data blockFuel start).length),
      out := s.out ++ data.extract start data.size } := by
  induction blockFuel generalizing start s k n with
  | zero => omega
  | succ blockFuel ih =>
    obtain ⟨size, hsize⟩ : ∃ size, min 65535 (data.size - start) = size := ⟨_, rfl⟩
    obtain ⟨bytes, hbytes⟩ : ∃ bytes, data.extract start (start + size) = bytes := ⟨_, rfl⟩
    have hlength : bytes.data.toList.length = size := by
      rw [Array.length_toList, ByteArray.size_data, ← hbytes, ByteArray.size_extract]
      omega
    have hround : (⟨bytes.data.toList.toArray⟩ : ByteArray) = bytes := by simp
    rw [storedBody, hsize, hbytes] at h hn ⊢
    by_cases hlast : start + size = data.size
    · simp only [beq_iff_eq.mpr hlast, if_true, List.length_cons, length_blockBytes, hlength] at h hn ⊢
      obtain ⟨n, rfl⟩ : ∃ n', n = n' + 1 := ⟨n - 1, by omega⟩
      apply blocks_run h (by omega) hposition
      left
      have hall : data.extract start data.size = bytes := by rw [← hlast, hbytes]
      rw [hround, hlength, hall, show k + (4 + size + 1) = k + 5 + size by omega]
      exact ⟨rfl, rfl⟩
    · simp only [beq_eq_false_iff_ne.mpr hlast, if_neg Bool.false_ne_true, List.length_append,
        List.length_cons, length_blockBytes, hlength] at h hn ⊢
      obtain ⟨hfirst, hothers⟩ := h.append
      rw [List.length_cons, length_blockBytes, hlength,
        show k + (4 + size + 1) = k + 5 + size by omega] at hothers
      obtain ⟨n, rfl⟩ : ∃ n', n = n' + 1 := ⟨n - 1, by omega⟩
      apply blocks_run hfirst (by omega) hposition
      have hrest := ih (s := { s with position := 8 * (k + 5 + size), out := s.out ++ bytes }) (n := n)
        (start + size) (by omega) (by omega) hothers rfl (by omega)
      have hall : bytes ++ data.extract (start + size) data.size = data.extract start data.size := by
        rw [← hbytes, ByteArray.extract_append_extract]
        congr 1 <;> omega
      rw [ByteArray.append_assoc, hall] at hrest
      refine .inr ⟨rfl, ?_⟩
      rw [hround, hlength, ← Nat.add_assoc, show k + (4 + size + 1) = k + 5 + size by omega]
      exact hrest

/-! ### Members -/

lemma dataStart?_header {data : ByteArray} {more : List UInt8}
    (h : StandsAt data 0 (Gzip.header.data.toList ++ more)) : Gzip.dataStart? data = some 10 := by
  have hle := h.append.1.le_size
  have hheader : Gzip.header.data.toList = [0x1F, 0x8B, 8, 0, 0, 0, 0, 0, 0, 255] := rfl
  rw [hheader] at h
  have hsize : ¬data.size < 10 := by simpa [hheader] using hle
  obtain ⟨h0, h⟩ := h.append.1.cons
  obtain ⟨h1, h⟩ := h.cons
  obtain ⟨h2, h⟩ := h.cons
  obtain ⟨h3, _⟩ := h.cons
  simp [Gzip.dataStart?, hsize, Bytes.little, h0, h1, h2, h3, Gzip.skipIf]

/-- A member that holds some data is whole, and that data is what it decompresses to. -/
theorem gzip_decode_encode (data : ByteArray) : Gzip.decode (Gzip.encode data) = (data, true) := by
  obtain ⟨body, hbody⟩ : ∃ body, storedBody data (data.size + 1) 0 = body := ⟨_, rfl⟩
  have hwhole : StandsAt (Gzip.encode data) 0 (Gzip.header.data.toList ++ (body ++
      (littleBytes (Checksum.crc data).toNat 4 ++ littleBytes data.size 4))) := by
    refine ⟨[], [], ?_, rfl⟩
    rw [Gzip.encode, pushLittle_toList, pushLittle_toList,
      storedBlocks_toList data _ 0 _ (by omega), hbody]
    simp
  have hstart := dataStart?_header hwhole
  obtain ⟨_, hafter⟩ := hwhole.append
  have hheader : 0 + Gzip.header.data.toList.length = 10 := rfl
  rw [hheader] at hafter
  obtain ⟨hblocks, htrailer⟩ := hafter.append
  obtain ⟨hcheck, hsize⟩ := htrailer.append
  rw [length_littleBytes] at hsize
  have hle := hsize.le_size
  rw [length_littleBytes] at hle
  have hinflate : Inflate.inflate (Gzip.encode data) 10 = (data, some (10 + body.length)) := by
    have hgives := storedBody_run (s := ⟨Gzip.encode data, 10 * 8, .empty⟩) (k := 10)
      (n := (Gzip.encode data).size * 8 + 1) data ((Gzip.encode data).size * 8 + 1) (data.size + 1) 0
      (by omega) (by omega)
      (by rwa [hbody]) rfl (by rw [hbody]; omega)
    rw [hbody] at hgives
    rw [ByteArray.empty_append, ByteArray.extract_zero_size] at hgives
    rw [Inflate.inflate, hgives]
    simp only [Prod.mk.injEq, Option.some.injEq, true_and]
    omega
  have hcrc : (Checksum.crc data).toNat % 256 ^ 4 = (Checksum.crc data).toNat :=
    Nat.mod_eq_of_lt (Checksum.crc data).toNat_lt
  have hend : 10 + body.length + 8 ≤ (Gzip.encode data).size := by omega
  rw [Gzip.decode, hstart]
  simp only [hinflate, hcheck.little, hsize.little, hcrc, hend]
  simp

end CrossBuild.Proofs
