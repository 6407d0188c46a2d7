import CrossBuild.Archive.Checksum
import CrossBuild.Archive.Inflate

/-!
Gzip members: a header, deflated data, and the check and length of what the data stands for.
-/

namespace CrossBuild.Archive.Gzip

/-- The place after the next zero byte. -/
def afterZero? (data : ByteArray) (start : Nat) : Option Nat :=
  let name := ((data.extract start data.size).toList.takeWhile (· != 0)).length
  if start + name < data.size then some (start + name + 1) else none

def skipIf (wanted : Bool) (skip : Nat → Option Nat) (position : Nat) : Option Nat :=
  if wanted then skip position else some position

/-- The place where the data of a member starts. -/
def dataStart? (data : ByteArray) : Option Nat := do
  if data.size < 10 then none
  else if Bytes.little data 0 2 != 0x8B1F || Bytes.at? data 2 != 8 then none
  else
    let flags := Bytes.at? data 3
    let has := fun (n : Nat) => flags.testBit n
    if flags ≥ 32 then none
    else
      let p ← skipIf (has 2) (fun p =>
        let stop := p + 2 + Bytes.little data p 2
        if stop ≤ data.size then some stop else none) 10
      let p ← skipIf (has 3) (afterZero? data) p
      let p ← skipIf (has 4) (afterZero? data) p
      skipIf (has 1) (fun p =>
        if p + 2 ≤ data.size && (Checksum.crc (data.extract 0 p)).toNat % 65536 == Bytes.little data p 2
        then some (p + 2) else none) p

/-- What can be decompressed of a member, and whether it is whole: the data ends well and its check
and length are right. -/
def decode (data : ByteArray) : ByteArray × Bool :=
  match dataStart? data with
  | none => (.empty, false)
  | some start =>
    match Inflate.inflate data start with
    | (out, none) => (out, false)
    | (out, some stop) =>
      (out, stop + 8 ≤ data.size && Bytes.little data stop 4 == (Checksum.crc out).toNat &&
        Bytes.little data (stop + 4) 4 == out.size % Nat.pow 2 32)

def header : ByteArray := ⟨#[0x1F, 0x8B, 8, 0, 0, 0, 0, 0, 0, 255]⟩

/-- Stored blocks of at most 65535 bytes, the last one marked. -/
def storedBlocks (data : ByteArray) : Nat → Nat → ByteArray → ByteArray
  | 0, _, out => out
  | fuel + 1, start, out =>
    let size := min 65535 (data.size - start)
    let isLast := start + size == data.size
    let out := out.push (if isLast then 1 else 0)
    let out := Bytes.pushLittle (Bytes.pushLittle out size 2) (65535 - size) 2
    let out := out ++ data.extract start (start + size)
    if isLast then out else storedBlocks data fuel (start + size) out

/-- A member that holds some data without compressing it. -/
def encode (data : ByteArray) : ByteArray :=
  let out := storedBlocks data (data.size + 1) 0 header
  Bytes.pushLittle (Bytes.pushLittle out (Checksum.crc data).toNat 4) data.size 4

end CrossBuild.Archive.Gzip
