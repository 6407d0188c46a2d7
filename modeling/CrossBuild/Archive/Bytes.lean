/-!
Numbers and pieces in arrays of bytes.
-/

namespace CrossBuild.Archive.Bytes

/-- The byte at a place; beyond the end, zero. -/
def at? (data : ByteArray) (i : Nat) : Nat := if h : i < data.size then data[i].toNat else 0

/-- A number of so many bytes, the least significant first. -/
def little (data : ByteArray) (start : Nat) : Nat → Nat
  | 0 => 0
  | n + 1 => at? data start + 256 * little data (start + 1) n

def pushLittle (out : ByteArray) (value : Nat) : Nat → ByteArray
  | 0 => out
  | n + 1 => pushLittle (out.push (value % 256).toUInt8) (value / 256) n

def zeros (n : Nat) : ByteArray := ⟨Array.replicate n 0⟩

/-- The bytes before the first zero. -/
def beforeZero (bytes : List UInt8) : List UInt8 := bytes.takeWhile (· != 0)

def piece (data : ByteArray) (start size : Nat) : List UInt8 := (data.extract start (start + size)).toList

end CrossBuild.Archive.Bytes
