/-!
The 32-bit cyclic redundancy check of gzip.
-/

namespace CrossBuild.Archive.Checksum

/-- Divides out one bit. -/
def shift (c : UInt32) : UInt32 := if c &&& 1 == 1 then (c >>> 1) ^^^ 0xEDB88320 else c >>> 1

/-- The effect of each byte. -/
def table : Array UInt32 := (Array.range 256).map fun n => (List.range 8).foldl (fun c _ => shift c) n.toUInt32

def step (c : UInt32) (b : UInt8) : UInt32 :=
  table.getD ((c ^^^ b.toUInt32) &&& 0xFF).toNat 0 ^^^ (c >>> 8)

/-- The check of some bytes. -/
def crc (data : ByteArray) : UInt32 := (data.foldl step 0xFFFFFFFF) ^^^ 0xFFFFFFFF

end CrossBuild.Archive.Checksum
