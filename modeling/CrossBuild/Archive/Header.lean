import CrossBuild.Archive.Bytes
import CrossBuild.Text.Utf8
import CrossBuild.Text.Basic

/-!
The headers of tape archives: blocks of 512 bytes with fields at fixed places.
-/

namespace CrossBuild.Archive

def blockSize : Nat := 512

/-- A header as the bytes of its block. -/
structure Header where
  block : ByteArray

namespace Header

/-- A field as a place and a size. -/
structure Field where
  start : Nat
  size : Nat

def nameField : Field := ⟨0, 100⟩
def modeField : Field := ⟨100, 8⟩
def sizeField : Field := ⟨124, 12⟩
def modifiedField : Field := ⟨136, 12⟩
def checksumField : Field := ⟨148, 8⟩
def typePlace : Nat := 156
def magicField : Field := ⟨257, 8⟩
def namePrefixField : Field := ⟨345, 155⟩
def sparseStart : Nat := 386
def extendedPlace : Nat := 482
def realSizeField : Field := ⟨483, 12⟩

def get (h : Header) (f : Field) : List UInt8 := Bytes.piece h.block f.start f.size

/-- The number that octal digits between blanks write, up to the first zero byte. -/
def octal? (field : List UInt8) : Option Nat := do
  let text ← String.fromUTF8? ⟨(Bytes.beforeZero field).toArray⟩
  let cs := Text.trimmed text.toList
  let digits := match cs with | '+' :: rest => rest | cs => cs
  (Text.number? 8 digits).filter (· < Nat.pow 2 64)

/-- The number in a field: octal, or binary if the highest bit is set, with the last eight bytes. -/
def number? (field : List UInt8) : Option Nat :=
  match field with
  | first :: _ =>
    if first ≥ 0x80 then
      some ((field.drop (field.length - 8)).foldl (fun n b => n * 256 + b.toNat) 0)
    else octal? field
  | [] => none

/-- Which rules a header follows, as its magic number tells. -/
inductive Format where
  | plain
  | posix
  | gnu
  deriving DecidableEq, Repr

def format (h : Header) : Format :=
  let magic := h.get magicField
  if magic == "ustar\x0000".toUTF8.toList then .posix
  else if magic == "ustar  \x00".toUTF8.toList then .gnu
  else .plain

def typeByte (h : Header) : Char := Char.ofNat (Bytes.at? h.block typePlace)

def isZero (h : Header) : Bool := h.block.toList.all (· == 0)

/-- The sum of all bytes, with blanks in place of the sum itself. -/
def sum (h : Header) : Nat :=
  let all := h.block.toList.foldl (fun n b => n + b.toNat) 0
  let own := (h.get checksumField).foldl (fun n b => n + b.toNat) 0
  all - own + 8 * 32

def sumIsRight (h : Header) : Bool := octal? (h.get checksumField) == some h.sum

def size? (h : Header) : Option Nat := number? (h.get sizeField)

/-- Seconds from the start of 1970; the upper half of the numbers stands for times before it. -/
def signed (n : Nat) : Int := if n < Nat.pow 2 63 then n else (n : Int) - (Nat.pow 2 64 : Nat)

def modified? (h : Header) : Option Int := (number? (h.get modifiedField)).map signed

def mode? (h : Header) : Option Nat := (octal? (h.get modeField)).map (· % 512)

/-- The name, in a POSIX header after the prefix. -/
def name (h : Header) : List UInt8 :=
  let own := Bytes.beforeZero (h.get nameField)
  let before := Bytes.beforeZero (h.get namePrefixField)
  if h.format == .posix && !before.isEmpty then before ++ [47] ++ own else own

/-- An octal number with zeros before it and a zero byte at its end. -/
def octalBytes (size n : Nat) : List UInt8 :=
  let digits := Nat.toDigits 8 n
  (List.replicate (size - 1 - digits.length) '0' ++ digits).map (fun c => c.toNat.toUInt8) ++ [0]

/-- A number in binary, the most significant byte first. -/
def binaryBytes : Nat → Nat → List UInt8
  | 0, _ => []
  | size + 1, n => binaryBytes size (n / 256) ++ [(n % 256).toUInt8]

/-- A number below 2⁶⁴ as a field of twelve bytes: binary where octal digits do not hold it. -/
def numberBytes (n : Nat) : List UInt8 :=
  if n < Nat.pow 8 11 then octalBytes 12 n else 0x80 :: binaryBytes 11 n

/-- The bytes with a field set. -/
def put (block : List UInt8) (f : Field) (value : List UInt8) : List UInt8 :=
  block.take f.start ++ (value ++ List.replicate (f.size - value.length) 0).take f.size ++
    block.drop (f.start + f.size)

/-- A GNU header. -/
def make (name : List UInt8) (type : Char) (size mode : Nat) (modified : Int) : Header :=
  let time := (modified % (Nat.pow 2 64 : Nat)).toNat
  let block := put (List.replicate blockSize 0) nameField name
  let block := put block modeField (octalBytes 8 mode)
  let block := put block sizeField (numberBytes size)
  let block := put block modifiedField (numberBytes time)
  let block := put block ⟨typePlace, 1⟩ [type.toNat.toUInt8]
  let block := put block magicField "ustar  \x00".toUTF8.toList
  let sum := (Header.mk ⟨block.toArray⟩).sum
  ⟨⟨(put block checksumField (octalBytes 7 sum ++ [32])).toArray⟩⟩

end Header

end CrossBuild.Archive
