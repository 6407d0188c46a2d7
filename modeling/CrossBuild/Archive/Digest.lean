import CrossBuild.Archive.Bytes
import CrossBuild.Text.Basic

/-!
The SHA-256 digest of bytes.
-/

namespace CrossBuild.Archive.Digest

/-- The first 32 bits of the fractional parts of the cube roots of the first 64 primes. -/
def constants : List UInt32 := [
  0x428a2f98, 0x71374491, 0xb5c0fbcf, 0xe9b5dba5, 0x3956c25b, 0x59f111f1, 0x923f82a4, 0xab1c5ed5,
  0xd807aa98, 0x12835b01, 0x243185be, 0x550c7dc3, 0x72be5d74, 0x80deb1fe, 0x9bdc06a7, 0xc19bf174,
  0xe49b69c1, 0xefbe4786, 0x0fc19dc6, 0x240ca1cc, 0x2de92c6f, 0x4a7484aa, 0x5cb0a9dc, 0x76f988da,
  0x983e5152, 0xa831c66d, 0xb00327c8, 0xbf597fc7, 0xc6e00bf3, 0xd5a79147, 0x06ca6351, 0x14292967,
  0x27b70a85, 0x2e1b2138, 0x4d2c6dfc, 0x53380d13, 0x650a7354, 0x766a0abb, 0x81c2c92e, 0x92722c85,
  0xa2bfe8a1, 0xa81a664b, 0xc24b8b70, 0xc76c51a3, 0xd192e819, 0xd6990624, 0xf40e3585, 0x106aa070,
  0x19a4c116, 0x1e376c08, 0x2748774c, 0x34b0bcb5, 0x391c0cb3, 0x4ed8aa4a, 0x5b9cca4f, 0x682e6ff3,
  0x748f82ee, 0x78a5636f, 0x84c87814, 0x8cc70208, 0x90befffa, 0xa4506ceb, 0xbef9a3f7, 0xc67178f2]

/-- The working variables. -/
structure State where
  a : UInt32
  b : UInt32
  c : UInt32
  d : UInt32
  e : UInt32
  f : UInt32
  g : UInt32
  h : UInt32

def start : State :=
  ⟨0x6a09e667, 0xbb67ae85, 0x3c6ef372, 0xa54ff53a, 0x510e527f, 0x9b05688c, 0x1f83d9ab, 0x5be0cd19⟩

def rotate (x n : UInt32) : UInt32 := (x >>> n) ||| (x <<< (32 - n))

/-- One round with a constant and a word of the schedule. -/
def round (s : State) (kw : UInt32 × UInt32) : State :=
  let high := rotate s.e 6 ^^^ rotate s.e 11 ^^^ rotate s.e 25
  let choice := (s.e &&& s.f) ^^^ ((s.e ^^^ 0xFFFFFFFF) &&& s.g)
  let first := s.h + high + choice + kw.1 + kw.2
  let low := rotate s.a 2 ^^^ rotate s.a 13 ^^^ rotate s.a 22
  let majority := (s.a &&& s.b) ^^^ (s.a &&& s.c) ^^^ (s.b &&& s.c)
  ⟨first + (low + majority), s.a, s.b, s.c, s.d + first, s.e, s.f, s.g⟩

/-- The next word of the schedule, from the words so far. -/
def scheduleWord (w : Array UInt32) (i : Nat) : UInt32 :=
  let word := fun back => w.getD (i - back) 0
  let s0 := rotate (word 15) 7 ^^^ rotate (word 15) 18 ^^^ (word 15 >>> 3)
  let s1 := rotate (word 2) 17 ^^^ rotate (word 2) 19 ^^^ (word 2 >>> 10)
  word 16 + s0 + word 7 + s1

/-- The number in four bytes, the most significant first. -/
def big (data : ByteArray) (i : Nat) : UInt32 :=
  ((List.range 4).foldl (fun n k => n * 256 + Bytes.at? data (i + k)) 0).toUInt32

def schedule (data : ByteArray) (block : Nat) : Array UInt32 :=
  let words := ((List.range 16).map fun i => big data (block * 64 + 4 * i)).toArray
  (List.range 48).foldl (fun w i => w.push (scheduleWord w (i + 16))) words

def add (s t : State) : State :=
  ⟨s.a + t.a, s.b + t.b, s.c + t.c, s.d + t.d, s.e + t.e, s.f + t.f, s.g + t.g, s.h + t.h⟩

def compress (data : ByteArray) (s : State) (block : Nat) : State :=
  add s ((constants.zip (schedule data block).toList).foldl round s)

/-- The bytes with a one bit, zeros and their number of bits after them, in blocks of 64. -/
def padded (data : ByteArray) : ByteArray :=
  let zeros := (119 - data.size % 64) % 64
  let bits := data.size * 8
  let lengthByte := fun (out : ByteArray) i => out.push (bits / Nat.pow 256 (7 - i) % 256).toUInt8
  let length := (List.range 8).foldl lengthByte .empty
  (data.push 0x80) ++ Bytes.zeros zeros ++ length

def hexWord (w : UInt32) : List Char :=
  (List.range 8).map fun i => Text.lowerHexDigit (w.toNat / Nat.pow 16 (7 - i) % 16)

/-- The digest in hexadecimal digits. -/
def sha256 (data : ByteArray) : String :=
  let data := padded data
  let s := (List.range (data.size / 64)).foldl (compress data) start
  .ofList ([s.a, s.b, s.c, s.d, s.e, s.f, s.g, s.h].flatMap hexWord)

end CrossBuild.Archive.Digest
