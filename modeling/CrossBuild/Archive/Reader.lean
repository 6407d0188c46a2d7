import CrossBuild.Archive.Entry
import CrossBuild.Archive.Gzip
import CrossBuild.Archive.Header

/-!
Reading archives: entries are headers with data after them, filled up to whole blocks. Some headers
tell more of the next one, such as a name that is too long for it. A block of zeros ends the archive.
-/

namespace CrossBuild.Archive

/-- What is told of the next entry. -/
structure Ahead where
  longName : Option ByteArray
  longLink : Option ByteArray
  extensions : Option ByteArray

namespace Ahead

def none : Ahead := ⟨.none, .none, .none⟩

def isNone (a : Ahead) : Bool := a.longName.isNone && a.longLink.isNone && a.extensions.isNone

end Ahead

/-- The lines of an extension header. -/
def linesOf (bytes : List UInt8) : List (List UInt8) := bytes.splitOn 10

/-- The key and value of a line such as `20 path=some/file`, whose length stands before the blank. -/
def extension? (line : List UInt8) : Option (List UInt8 × List UInt8) := do
  let count := line.takeWhile (· != 32)
  let rest := line.drop (count.length + 1)
  let text := count.map fun b => Char.ofNat b.toNat
  let digits := match text with | '+' :: rest => rest | text => text
  let length ← Text.number? 10 digits
  let key := rest.takeWhile (· != 61)
  if count.length < line.length && length == line.length + 1 && key.length < rest.length then
    some (key, rest.drop (key.length + 1))
  else none

/-- The lines before the first empty one. -/
def extensionsOf (bytes : ByteArray) : List (Option (List UInt8 × List UInt8)) :=
  ((linesOf bytes.toList).takeWhile (!·.isEmpty)).map extension?

/-- The path that extensions give. Malformed lines are passed over. -/
def extendedPath? (bytes : ByteArray) : Option (List UInt8) :=
  ((extensionsOf bytes).filterMap id).findSome? fun (key, value) =>
    if key == "path".toUTF8.toList then some value else none

/-- The size that extensions give, unless a malformed line comes before it. -/
def extendedSize? (bytes : ByteArray) : Option Nat := do
  let sound := ((extensionsOf bytes).takeWhile Option.isSome).filterMap id
  let (_, value) ← sound.find? fun (key, _) => key == "size".toUTF8.toList
  let text := (← String.fromUTF8? ⟨value.toArray⟩).toList
  let digits := match text with | '+' :: rest => rest | text => text
  (Text.number? 10 digits).filter (· < Nat.pow 2 64)

/-- The path of an entry. -/
def pathOf (h : Header) (ahead : Ahead) : List UInt8 :=
  match ahead.longName with
  | some name => if name.toList.getLast? == some 0 then name.toList.dropLast else name.toList
  | none => ((ahead.extensions).bind extendedPath?).getD h.name

/-- What an entry with some path stands for. Names that end with a slash mean directories unless the
format has a type of its own for those. -/
def kindOf (h : Header) (path : List UInt8) : EntryKind :=
  match h.typeByte with
  | '5' => .directory
  | '0' | '\x00' | '7' =>
    if h.format != .posix && path.getLast? == some 47 then .directoryByName else .file
  | _ => .other

/-- How far the map of a file with holes has come: the end of the last piece and what is left of the
data. -/
structure SparseState where
  reached : Nat
  left : Nat

/-- Takes the next piece of the map, an offset and a size. Pieces come in order, fill whole blocks but
for the last, and have no more data than there is. -/
def sparsePiece (total : Nat) (s : SparseState) (piece : List UInt8) : Option SparseState := do
  let offset := piece.take 12
  let size := (piece.drop 12).take 12
  if offset.head? == some 0 || size.head? == some 0 then return s
  let offset ← Header.octal? offset
  let size ← Header.octal? size
  if size != 0 && (total - s.left) % blockSize != 0 then none
  else if offset < s.reached || offset + size ≥ Nat.pow 2 64 || size > s.left then none
  else return ⟨offset + size, s.left - size⟩

/-- Takes so many pieces of the map from a place in the data. -/
def sparsePieces (data : ByteArray) (total start count : Nat) (s : SparseState) : Option SparseState :=
  ((List.range count).map fun i => Bytes.piece data (start + 24 * i) 24).foldlM (sparsePiece total) s

/-- Takes the pieces in further blocks, from a place on; gives their number too. -/
def sparseBlocks (data : ByteArray) (total : Nat) : Nat → Nat → Nat → SparseState → Option (Nat × SparseState)
  | 0, _, _, _ => none
  | fuel + 1, start, count, s => do
    if start + blockSize > data.size then none
    let s ← sparsePieces data total start 21 s
    if Bytes.at? data (start + 504) == 1 then sparseBlocks data total fuel (start + blockSize) (count + 1) s
    else return (count + 1, s)

/-- The number of further blocks in the map of a file with holes, if the map is right. -/
def sparseExtent? (data : ByteArray) (position : Nat) (h : Header) (size : Nat) : Option Nat := do
  if h.format != .gnu then none
  let s ← sparsePieces data size (position + Header.sparseStart) 4 ⟨0, size⟩
  let (count, s) ←
    if Bytes.at? data (position + Header.extendedPlace) == 1 then
      sparseBlocks data size (data.size + 1) (position + blockSize) 0 s
    else some (0, s)
  let realSize ← Header.octal? (h.get Header.realSizeField)
  if s.reached == realSize && s.left == 0 then return count else none

/-- The size of data filled up to whole blocks. -/
def filled (size : Nat) : Nat := (size + blockSize - 1) / blockSize * blockSize

/-- A header that can be used, with the size of its data, for which extensions come first. -/
def headerAt? (data : ByteArray) (position : Nat) (ahead : Ahead) : Option (Header × Nat) := do
  let h : Header := ⟨data.extract position (position + blockSize)⟩
  let size ← h.size?
  let size := ((ahead.extensions).bind extendedSize?).getD size
  if h.sumIsRight && size + blockSize ≤ Nat.pow 2 64 then some (h, size) else none

/-- What a header tells of the next entry, as the second half of the result, or `none` if it stands for
an entry itself; an error if the same was told before. -/
def tell (h : Header) (told : ByteArray) (ahead : Ahead) : Option (Except Unit Ahead) :=
  if h.format == .plain then none
  else
    match h.typeByte with
    | 'L' => some (if ahead.longName.isSome then .error () else .ok { ahead with longName := some told })
    | 'K' => some (if ahead.longLink.isSome then .error () else .ok { ahead with longLink := some told })
    | 'x' => some (if ahead.extensions.isSome then .error () else .ok { ahead with extensions := some told })
    | _ => none

/-- The entries from a place on. `sound` says whether the end of the data can be reached without a
fault. -/
def entriesFrom (data : ByteArray) (sound : Bool) : Nat → Nat → Ahead → Contents
  | 0, _, _ => ⟨[], .broken⟩
  | fuel + 1, position, ahead =>
    let ended : Contents := ⟨[], if ahead.isNone then .complete else .broken⟩
    if position == data.size && sound then ended
    else if position + blockSize > data.size then ⟨[], .broken⟩
    else if (Header.mk (data.extract position (position + blockSize))).isZero then ended
    else
      match headerAt? data position ahead with
      | none => ⟨[], .broken⟩
      | some (h, size) =>
        let start := position + blockSize
        let held := data.extract start (start + size)
        match tell h held ahead with
        | some (.ok ahead) => entriesFrom data sound fuel (start + filled size) ahead
        | some (.error ()) => ⟨[], .broken⟩
        | none =>
          match if h.typeByte == 'S' then sparseExtent? data position h size else some 0 with
          | none => ⟨[], .broken⟩
          | some blocks =>
            let path := pathOf h ahead
            let entry : Entry :=
              ⟨Text.ofBytes ⟨path.toArray⟩, kindOf h path, held, h.modified?, h.mode?⟩
            if held.size < size then ⟨[], .cut entry⟩
            else
              let rest := entriesFrom data sound fuel (start + filled size + blocks * blockSize) .none
              { rest with entries := entry :: rest.entries }

/-- The entries of an archive before compression. -/
def contentsOf (data : ByteArray) (sound : Bool) : Contents :=
  entriesFrom data sound (data.size / blockSize + 1) 0 .none

/-- Reads a compressed archive. -/
def decode (archive : ByteArray) : Contents :=
  let (data, sound) := Gzip.decode archive
  contentsOf data sound

end CrossBuild.Archive
